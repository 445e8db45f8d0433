import LiveTemplate.Proofs.Step

/-!
# What subscribers hear

A subscriber of a signal is owed the truths that the signal has turned to and that it has not been
told yet. It is told of the latest turn first (`concerning_of_change`). So every change keeps the
account: what a subscriber hears, with what it is owed afterwards, is what it was owed before, with
what the signal turns to (`heard_append_owed`), unless a signal turns while its subscribers are
still being told of an earlier turn, for then they hear of the later one first.
-/

namespace LiveTemplate.Engine

variable {η : Type}

open World

/-- The truths that a subscriber of a signal is told. -/
def heard (s : SignalId) (t : Ticket) (es : List Happening) : List Bool :=
  es.filterMap fun
    | .told s' t' b => if s' = s ∧ t' = t then some b else none
    | _ => none

/-- The truths that a signal turns to. -/
def turnings (s : SignalId) (es : List Happening) : List Bool :=
  es.filterMap fun
    | .turned s' b => if s' = s then some b else none
    | _ => none

/-- Whether something is to a subscriber of a signal: the signal turns, or he is told. -/
def Happening.concerns (s : SignalId) (t : Ticket) : Happening → Bool
  | .turned s' _ => s' == s
  | .told s' t' _ => s' == s && t' == t
  | _ => false

/-- What is to a subscriber of a signal. -/
def concerning (s : SignalId) (t : Ticket) (es : List Happening) : List Happening :=
  es.filter (·.concerns s t)

/-- The truths that a piece of work still tells a subscriber of a signal. -/
def Work.owes (s : SignalId) (t : Ticket) : Work η → List Bool
  | .tellSignal s' b rest => if s' = s then (rest.filter (·.1 = t)).map fun _ ↦ b else []
  | _ => []

/-- The truths that a subscriber of a signal is still to be told. -/
def owed (s : SignalId) (t : Ticket) (stack : List (Work η)) : List Bool :=
  stack.flatMap (Work.owes s t)

section Lists

variable {s : SignalId} {t : Ticket}

theorem heard_append (es es' : List Happening) :
    heard s t (es ++ es') = heard s t es ++ heard s t es' := List.filterMap_append

theorem turnings_append (es es' : List Happening) :
    turnings s (es ++ es') = turnings s es ++ turnings s es' := List.filterMap_append

theorem concerning_append (es es' : List Happening) :
    concerning s t (es ++ es') = concerning s t es ++ concerning s t es' := List.filter_append ..

theorem heard_concerning (es : List Happening) : heard s t (concerning s t es) = heard s t es := by
  rw [heard, heard, concerning, List.filterMap_filter]
  refine List.filterMap_congr fun e _ ↦ ?_
  cases e <;> simp [Happening.concerns]

theorem turnings_concerning (es : List Happening) :
    turnings s (concerning s t es) = turnings s es := by
  rw [turnings, turnings, concerning, List.filterMap_filter]
  refine List.filterMap_congr fun e _ ↦ ?_
  cases e <;> simp [Happening.concerns]

/-- Nobody is told anything, and the signal does not turn, by what is nothing to the subscriber. -/
theorem eq_nil_of_concerning {es : List Happening} (h : concerning s t es = []) :
    heard s t es = [] ∧ turnings s es = [] := by
  rw [← heard_concerning, ← turnings_concerning (t := t), h]
  exact ⟨rfl, rfl⟩

theorem owed_append (xs ys : List (Work η)) : owed s t (xs ++ ys) = owed s t xs ++ owed s t ys :=
  List.flatMap_append

theorem owed_nil : owed s t ([] : List (Work η)) = [] := rfl

theorem owed_cons (x : Work η) (xs : List (Work η)) :
    owed s t (x :: xs) = x.owes s t ++ owed s t xs := List.flatMap_cons

/-- Work that has no bearing on signals owes nothing. -/
theorem owed_of_idle {xs : List (Work η)} (h : ∀ x ∈ xs, x.idle) : owed s t xs = [] := by
  refine List.flatMap_eq_nil_iff.2 fun x hx ↦ ?_
  have hidle := h x hx
  cases x with
  | tellSignal s' b rest =>
    have hnil : rest = [] := hidle
    simp [Work.owes, hnil]
  | _ => rfl

/-- Who subscribes is owed a turn once. -/
theorem owes_of_mem {b : Bool} {subscribers : List (Ticket × η)}
    (hnodup : (subscribers.map Prod.fst).Nodup) (ht : t ∈ subscribers.map Prod.fst) :
    (Work.tellSignal s b subscribers).owes s t = [b] := by
  rw [Work.owes, if_pos rfl]
  induction subscribers with
  | nil => cases ht
  | cons e rest ih =>
    rw [List.map_cons, List.nodup_cons] at hnodup
    by_cases he : e.1 = t
    · have hrest : rest.filter (·.1 = t) = [] := by
        refine List.filter_eq_nil_iff.2 fun e' he' heq ↦ hnodup.1 ?_
        rw [he, ← of_decide_eq_true heq]
        exact List.mem_map_of_mem he'
      simp [he, hrest]
    · have ht' : t ∈ rest.map Prod.fst := by
        rcases List.mem_cons.1 ht with heq | ht
        · exact absurd heq.symm he
        · exact ht
      rw [List.filter_cons_of_neg (by simpa using he)]
      exact ih hnodup.2 ht'

end Lists

namespace World

variable {w w' : World η} {s : SignalId} {t : Ticket}

theorem subscribes_iff :
    w.subscribes s t = true ↔
      ∃ sig, w.signals.get? s = some sig ∧ t ∈ sig.subscribers.map Prod.fst := by
  unfold subscribes
  cases w.signals.get? s with
  | none => simp
  | some sig => simp

end World

namespace Activity

variable {may : Activity η → Deed η → Prop} {a b : Activity η} {es : List Happening}
  {s : SignalId} {t : Ticket}

theorem tickets_of_change (h : Change may a es b) :
    a.world.nextTicket ≤ b.world.nextTicket := by
  cases h with
  | spare _ _ hspares => exact hspares.tickets
  | openSignal => exact (attaches_openSignal _ _).tickets
  | subscribe => exact Nat.le_succ _
  | amend _ _ _ hamends => exact Nat.le_of_eq hamends.tickets.symm
  | _ => exact Nat.le_refl _

/-- Who subscribes to a signal under a ticket that was given out before subscribed to it before. -/
theorem subscribes_of_change (h : Change may a es b) (ht : t < a.world.nextTicket)
    (hsub : b.world.subscribes s t = true) : a.world.subscribes s t = true := by
  obtain ⟨sig', hsig', hmem⟩ := subscribes_iff.1 hsub
  cases h with
  | spare _ _ hspares =>
    obtain ⟨sig, hsig, -, hsublist⟩ := hspares.signal s sig' hsig'
    exact subscribes_iff.2 ⟨sig, hsig, (hsublist.map Prod.fst).subset hmem⟩
  | openSignal =>
    rw [get?_openSignal] at hsig'
    split at hsig'
    · cases hsig'
      cases hmem
    · exact subscribes_iff.2 ⟨sig', hsig', hmem⟩
  | subscribe =>
    rw [get?_subscribe] at hsig'
    split at hsig'
    · obtain ⟨sig, hsig, rfl⟩ := Option.map_eq_some_iff.1 hsig'
      rw [List.map_append, List.mem_append] at hmem
      rcases hmem with hmem | hmem
      · exact subscribes_iff.2 ⟨sig, hsig, hmem⟩
      · -- The new ticket was not given out before.
        rw [List.map_singleton, List.mem_singleton] at hmem
        exact absurd ht (Nat.not_lt.2 (Nat.le_of_eq hmem.symm))
    · exact subscribes_iff.2 ⟨sig', hsig', hmem⟩
  | amend hsig _ _ hamends =>
    rcases hamends.cases hsig hsig' with ⟨rfl, -, hsubscribers⟩ | ⟨-, hold⟩
    · exact subscribes_iff.2 ⟨_, hsig, hsubscribers ▸ hmem⟩
    · exact subscribes_iff.2 ⟨sig', hold, hmem⟩
  | _ => exact hsub

/-- Besides telling that the signal turned, a change of a leaf neither begins nor leaves anything to
tell. -/
theorem owed_of_amendment {w : World η} {s' : SignalId} {place : Nat} {live : LiveTerm}
    {begun left : List (Work η)} {g : LiveTerm → LiveTerm} {k : Clock (Task η)}
    {news : List Happening} (how : Amendment w s' place live begun g k left news) :
    owed s t begun = [] ∧ owed s t left = [] ∧ concerning s t news = [] := by
  cases how with
  | restart held _ _ hheld =>
    have hidle : owed s t held = [] := owed_of_idle fun x hx ↦ by
      rw [hheld x hx]
      trivial
    simp [owed_cons, owed_append, owed_nil, hidle, Work.owes, concerning]
  | _ => simp [owed_cons, owed_nil, Work.owes, concerning, Happening.concerns]

/-- **What a change is to a subscriber**: nothing, a turn that it is owed before all that it was
owed already, or the first of what it was owed. -/
theorem concerning_of_change (ho : a.world.Orderly) (h : Change may a es b)
    (ht : t < a.world.nextTicket) (hsub : b.world.subscribes s t = true) :
    (concerning s t es = [] ∧ owed s t b.stack = owed s t a.stack) ∨
      (∃ x, concerning s t es = [.turned s x] ∧ owed s t b.stack = x :: owed s t a.stack) ∨
      ∃ x, concerning s t es = [.told s t x] ∧ owed s t a.stack = x :: owed s t b.stack := by
  have hsub' := subscribes_of_change h ht hsub
  cases h with
  | spare begun left hspares hbegun hleft =>
    left
    rw [owed_append, owed_append, owed_of_idle hbegun, owed_of_idle (idle_of_left hleft)]
    exact ⟨rfl, rfl⟩
  | put begun left hne hby =>
    have hidle : owed s t begun = [] ∧ owed s t left = [] := by
      rcases hby with ⟨rfl, rfl, -⟩ | ⟨us, us', locals, rfl, rfl⟩ <;> simp [owed, Work.owes]
    left
    simp [owed_cons, owed_append, hidle, concerning, Happening.concerns, Work.owes]
  | subscribe =>
    have hne : ∀ {w : World η}, t < w.nextTicket → ¬w.nextTicket = t := fun h ↦ Nat.ne_of_gt h
    left
    simp [concerning, Happening.concerns, hne ht]
  | @tell w s' x e others stack =>
    rw [owed_cons, owed_cons]
    by_cases hs : s' = s ∧ e.1 = t
    · obtain ⟨rfl, rfl⟩ := hs
      rw [if_pos hsub']
      exact .inr (.inr ⟨x, by simp [concerning, Happening.concerns], by simp [Work.owes]⟩)
    · -- Someone else is told, or of another signal.
      have hnone : concerning s t (if w.subscribes s' e.1 then [.told s' e.1 x] else []) = [] := by
        split <;> simp [concerning, Happening.concerns, hs]
      have howes : (Work.tellSignal s' x (e :: others)).owes s t =
          (Work.tellSignal s' x others).owes s t := by
        by_cases hs' : s' = s
        · have he : e.1 ≠ t := fun he ↦ hs ⟨hs', he⟩
          simp [Work.owes, hs', he]
        · simp [Work.owes, hs']
      rw [howes]
      exact .inl ⟨hnone, rfl⟩
  | @amend w w' s' place sig live begun left stack g k news hsig hlive how hamends =>
    obtain ⟨hbegun, hleft, hnews⟩ := owed_of_amendment (s := s) (t := t) how
    rw [owed_append, owed_append, owed_append, hbegun, hleft, concerning_append, hnews, turning,
      tidings]
    split
    · exact .inl ⟨rfl, rfl⟩
    · by_cases hs : s' = s
      · subst hs
        obtain ⟨sig', hsig', hmem⟩ := subscribes_iff.1 hsub'
        rw [hsig] at hsig'
        cases hsig'
        rw [owed_cons, owes_of_mem (ho.tickets s' sig hsig).1 hmem]
        refine .inr (.inl ⟨(sig.circuit.amend g place).truth, ?_, ?_⟩)
        · simp [concerning, Happening.concerns]
        · simp [owed_cons, owed_nil, Work.owes]
      · left
        simp [concerning, Happening.concerns, owed_cons, owed_nil, Work.owes, hs]
  | _ => exact .inl ⟨rfl, by simp [owed_cons, Work.owes]⟩

/-- **What a subscriber hears, with what it is then owed, is what it was owed, with what the signal
turns to**, unless the signal turns while it is still owed something. -/
theorem heard_append_owed (ho : a.world.Orderly) (h : Change may a es b)
    (ht : t < a.world.nextTicket) (hsub : b.world.subscribes s t = true)
    (hquiet : turnings s es = [] ∨ owed s t a.stack = []) :
    heard s t es ++ owed s t b.stack = owed s t a.stack ++ turnings s es := by
  rw [← turnings_concerning (t := t)] at hquiet ⊢
  rw [← heard_concerning]
  rcases concerning_of_change ho h ht hsub with ⟨hes, howed⟩ | ⟨x, hes, howed⟩ | ⟨x, hes, howed⟩
  · rw [hes, howed]
    exact (List.append_nil _).symm
  · rw [hes] at hquiet ⊢
    rw [howed, hquiet.resolve_left (by simp [turnings])]
    simp [heard, turnings]
  · rw [hes, howed]
    simp [heard, turnings]

end Activity

end LiveTemplate.Engine
