import LiveTemplate.Proofs.Hearing
import LiveTemplate.Proofs.Passing
import Mathlib.Data.List.Chain

/-!
# Signals alternate

A signal that turns becomes what it was not, so it alternates between true and false. A subscriber
hears it alternate too if he is always told of one turn before the next, and that is so if handlers
neither change payloads nor move the clock: then whatever may turn a signal lies on the stack above
all that is still to be told (`Layered`). From the time that someone subscribes, the truths that he
hears are an initial part of those that the signal turns to (`Run.alternates`).
-/

namespace LiveTemplate.Engine

variable {η : Type}

open World

namespace Work

/-- Whether a piece of work may turn a signal, before it has left other work. -/
def stirs : Work η → Prop
  | tellCell _ _ rest => rest ≠ []
  | settle _ _ => True
  | advance _ => True
  | perform _ _ => True
  | _ => False

/-- Whether a piece of work has subscribers of a signal left to tell. -/
def tells : Work η → Prop
  | tellSignal _ _ rest => rest ≠ []
  | _ => False

theorem not_stirs_of_idle {x : Work η} (hidle : x.idle) (hdrives : ¬x.drives) : ¬x.stirs := by
  cases x with
  | tellCell c current rest => exact fun h ↦ h hidle
  | settle s place => exact hidle.elim
  | advance target => exact absurd trivial hdrives
  | perform updates locals => exact absurd trivial hdrives
  | _ => exact id

end Work

/-- Below whatever may turn a signal nobody is still to be told of one that has turned. -/
def Layered : List (Work η) → Prop
  | [] => True
  | x :: stack => (x.stirs → ∀ y ∈ stack, ¬y.tells) ∧ Layered stack

section Layered

variable {xs stack : List (Work η)}

theorem Layered.append (h : Layered stack) (hxs : ∀ x ∈ xs, ¬x.stirs) : Layered (xs ++ stack) := by
  induction xs with
  | nil => exact h
  | cons x xs ih =>
    exact ⟨fun hx ↦ absurd hx (hxs x List.mem_cons_self),
      ih fun y hy ↦ hxs y (List.mem_cons_of_mem _ hy)⟩

theorem Layered.of_append (h : Layered (xs ++ stack)) : Layered stack := by
  induction xs with
  | nil => exact h
  | cons x xs ih => exact ih h.2

theorem layered_of_not_tells (h : ∀ x ∈ stack, ¬x.tells) : Layered stack := by
  induction stack with
  | nil => trivial
  | cons x stack ih =>
    have hrest : ∀ y ∈ stack, ¬y.tells := fun y hy ↦ h y (List.mem_cons_of_mem _ hy)
    exact ⟨fun _ ↦ hrest, ih hrest⟩

theorem layered_singleton (x : Work η) : Layered [x] :=
  ⟨fun _ _ hy ↦ absurd hy List.not_mem_nil, trivial⟩

theorem owed_of_not_tells {s : SignalId} {t : Ticket} (h : ∀ x ∈ stack, ¬x.tells) :
    owed s t stack = [] := by
  refine List.flatMap_eq_nil_iff.2 fun x hx ↦ ?_
  cases x with
  | tellSignal s' b rest =>
    have hnil : rest = [] := not_not.1 (h _ hx)
    simp [Work.owes, hnil]
  | _ => rfl

end Layered

/-- A leaf changes through work that may turn a signal, and leaves no subscribers to tell. -/
theorem World.Amendment.stirs {w : World η} {s : SignalId} {place : Nat} {live : LiveTerm}
    {begun left : List (Work η)} {g : LiveTerm → LiveTerm} {k : Clock (Task η)}
    {news : List Happening} (how : Amendment w s place live begun g k left news) :
    (∃ x, begun = [x] ∧ x.stirs) ∧ ∀ x ∈ left, ¬x.tells := by
  cases how with
  | @look c current o rest =>
    refine ⟨⟨_, rfl, List.cons_ne_nil o rest⟩, fun x hx ↦ ?_⟩
    rw [List.mem_singleton.1 hx]
    exact id
  | @restart _ _ _ _ o rest held _ _ hheld =>
    refine ⟨⟨_, rfl, List.cons_ne_nil o rest⟩, fun x hx ↦ ?_⟩
    rcases List.mem_cons.1 hx with rfl | hx
    · exact id
    · rcases List.mem_append.1 hx with hx | hx
      · rw [hheld x hx]
        exact id
      · rw [List.mem_singleton.1 hx]
        exact id
  | flash => exact ⟨⟨_, rfl, trivial⟩, fun _ hx ↦ absurd hx List.not_mem_nil⟩
  | arm => exact ⟨⟨_, rfl, trivial⟩, fun _ hx ↦ absurd hx List.not_mem_nil⟩
  | expire =>
    refine ⟨⟨_, rfl, trivial⟩, fun x hx ↦ ?_⟩
    rw [List.mem_singleton.1 hx]
    exact id

theorem World.not_stirs_of_tidings {s : SignalId} {sig : Signal η} {circuit : Circuit} :
    ∀ x ∈ tidings s sig circuit, ¬x.stirs := by
  intro x hx
  unfold tidings at hx
  split at hx
  · cases hx
  · simp only [List.mem_cons, List.not_mem_nil, or_false] at hx
    rcases hx with rfl | rfl <;> exact id

namespace Activity

/-- Payloads are changed and the clock is moved one after the other, and never from within each
other: handlers do neither. -/
def quietly : Activity η → Deed η → Prop := fun a d ↦ d.mutates ∨ d.passes → a.stack = []

variable {may : Activity η → Deed η → Prop} {a b : Activity η} {es es' : List Happening}
  {s : SignalId} {t : Ticket}

/-! ### One turn after the other -/

theorem layered_change (hl : Layered a.stack) (h : Change quietly a es b) : Layered b.stack := by
  cases h with
  | spare begun left hspares hbegun hleft =>
    rcases hleft with hleft | ⟨us, us', locals, rfl, rfl⟩
    · exact hl.of_append.append fun x hx ↦ Work.not_stirs_of_idle (hleft x hx).1 (hleft x hx).2
    · exact ⟨fun _ ↦ hl.1 trivial, hl.2⟩
  | @perform w us locals stack hmay =>
    obtain rfl : stack = [] := hmay (.inl trivial)
    exact layered_singleton _
  | @advance w ms stack hmay =>
    obtain rfl : stack = [] := hmay (.inr trivial)
    exact layered_singleton _
  | @put w c p begun left stack hne hby =>
    rcases hby with ⟨rfl, rfl, hmay⟩ | ⟨us, us', locals, rfl, rfl⟩
    · obtain rfl : stack = [] := hmay (.inl trivial)
      exact layered_singleton _
    · have hnone := hl.1 trivial
      refine ⟨fun _ y hy ↦ ?_, fun _ ↦ hnone, hl.2⟩
      rcases List.mem_cons.1 hy with rfl | hy
      · exact id
      · exact hnone y hy
  | openSignal => exact hl
  | subscribe => exact hl
  | @pass _ _ _ o others => exact ⟨fun _ ↦ hl.1 (List.cons_ne_nil o others), hl.2⟩
  | tell => exact ⟨False.elim, hl.2⟩
  | amend hsig hlive how =>
    obtain ⟨⟨x, rfl, hx⟩, hleft⟩ := how.stirs
    refine Layered.append (layered_of_not_tells fun y hy ↦ ?_) not_stirs_of_tidings
    exact (List.mem_append.1 hy).elim (hleft y) (hl.1 hx y)
  | lapse => exact hl.2
  | ring => exact hl
  | arrive => exact hl.2

/-- A signal turns only when all subscribers have been told of earlier turns. -/
theorem owed_of_turning (hl : Layered a.stack) (h : Change may a es b) :
    turnings s es = [] ∨ owed s t a.stack = [] := by
  cases h with
  | amend hsig hlive how =>
    obtain ⟨⟨x, rfl, hx⟩, -⟩ := how.stirs
    right
    rw [owed_append, (owed_of_amendment how).1]
    exact owed_of_not_tells (hl.1 hx)
  | tell =>
    left
    split <;> rfl
  | _ => exact .inl rfl

theorem truth_of_circuit {w w' : World η} {sig sig' : Signal η} (hsig : w.signals.get? s = some sig)
    (hsig' : w'.signals.get? s = some sig') (h : sig'.circuit = sig.circuit) :
    w'.truth s = w.truth s := by
  rw [World.truth, World.truth, hsig, hsig']
  exact congrArg Circuit.truth h

/-- A signal that turns becomes what it was not, and does not change otherwise. -/
theorem turned_of_change (h : Change may a es b) (hs : s < a.world.signals.next) :
    (turnings s es = [] ∧ (b.world.Lives s → b.world.truth s = a.world.truth s)) ∨
      (turnings s es = [b.world.truth s] ∧ b.world.truth s ≠ a.world.truth s) := by
  cases h with
  | spare _ _ hspares =>
    refine .inl ⟨rfl, fun hlives ↦ ?_⟩
    obtain ⟨sig', hsig'⟩ := Option.isSome_iff_exists.1 hlives
    obtain ⟨sig, hsig, hcircuit, -⟩ := hspares.signal s sig' hsig'
    exact truth_of_circuit hsig hsig' hcircuit
  | openSignal =>
    refine .inl ⟨rfl, fun _ ↦ ?_⟩
    rw [World.truth, get?_openSignal, if_neg (Nat.ne_of_gt hs)]
    rfl
  | subscribe =>
    refine .inl ⟨rfl, fun hlives ↦ ?_⟩
    obtain ⟨sig', hsig'⟩ := Option.isSome_iff_exists.1 hlives
    obtain ⟨sig, hsig, hcircuit⟩ := circuit_of_subscribe hsig'
    exact truth_of_circuit hsig hsig' hcircuit
  | tell =>
    refine .inl ⟨?_, fun _ ↦ rfl⟩
    split <;> rfl
  | @amend w w' s' place sig live begun left stack g k news hsig hlive how hamends =>
    have hnews := (eq_nil_of_concerning (owed_of_amendment (s := s) (t := 0) how).2.2).2
    rw [turnings_append, hnews, List.nil_append]
    by_cases hs' : s' = s
    · subst hs'
      obtain ⟨sig', hsig', hcircuit, -⟩ := hamends.signal sig hsig
      have hbefore : w.truth s' = sig.truth := by
        rw [World.truth, hsig]
        rfl
      have hafter : w'.truth s' = (sig.circuit.amend g place).truth := by
        rw [World.truth, hsig']
        exact congrArg Circuit.truth hcircuit
      rw [hbefore, hafter, turning]
      split
      · rename_i heq
        exact .inl ⟨rfl, fun _ ↦ heq⟩
      · rename_i hne
        exact .inr ⟨by simp [turnings], hne⟩
    · refine .inl ⟨?_, fun _ ↦ ?_⟩
      · unfold turning
        split <;> simp [turnings, hs']
      · rw [World.truth, hamends.others s (Ne.symm hs')]
        rfl
  | _ => exact .inl ⟨rfl, fun _ ↦ rfl⟩

theorem truth_of_not_lives {w : World η} (h : ¬w.Lives s) : w.truth s = false := by
  have hnone : w.signals.get? s = none := by simpa [Lives] using h
  rw [World.truth, hnone]
  rfl

/-- Only a signal that lives turns. -/
theorem lives_of_turned (h : Change may a es b) (hs : s < a.world.signals.next)
    (hne : b.world.truth s ≠ a.world.truth s) : a.world.Lives s := by
  by_contra hnot
  have hnot' : ¬b.world.Lives s := fun hlives ↦ hnot (lives_of_change h hs hlives)
  exact hne (by rw [truth_of_not_lives hnot, truth_of_not_lives hnot'])

/-- Who subscribes was given a ticket before. -/
def Ticketed (a : Activity η) : Prop :=
  ∀ s truth rest, .tellSignal s truth rest ∈ a.stack → ∀ e ∈ rest, e.1 < a.world.nextTicket

theorem ticketed_nil (w : World η) : Ticketed ⟨w, []⟩ := fun _ _ _ h ↦ absurd h List.not_mem_nil

theorem ticketed_change (ho : a.world.Orderly) (ha : Ticketed a) (h : Change may a es b) :
    Ticketed b := by
  intro s truth rest hmem e he
  refine Nat.lt_of_lt_of_le ?_ (tickets_of_change h)
  cases arises_of_change h hmem with
  | kept hmem' => exact ha s truth rest hmem' e he
  | idle hidle =>
    have hnil : rest = [] := hidle
    rw [hnil] at he
    cases he
  | told hmem' => exact ha s truth _ hmem' e (List.mem_cons_of_mem _ he)
  | turned _ hsig => exact (ho.tickets s _ hsig).2 e he

/-- Nobody is owed anything under a ticket that has not been given out. -/
theorem Ticketed.owed_eq_nil (ha : Ticketed a) (ht : a.world.nextTicket ≤ t) :
    owed s t a.stack = [] := by
  refine List.flatMap_eq_nil_iff.2 fun x hx ↦ ?_
  cases x with
  | tellSignal s' truth rest =>
    have hnone : rest.filter (·.1 = t) = [] := List.filter_eq_nil_iff.2 fun e he heq ↦
      absurd (ha s' truth rest hx e he) (Nat.not_lt.2 (of_decide_eq_true heq ▸ ht))
    simp [Work.owes, hnone]
  | _ => rfl

/-- Who is told of a signal subscribes to it. -/
theorem subscribes_of_heard (h : Change may a es b) (ht : t < a.world.nextTicket)
    (hheard : heard s t es ≠ []) : b.world.subscribes s t = true := by
  cases h with
  | @tell w s' truth e =>
    by_cases hs : s' = s ∧ e.1 = t
    · obtain ⟨rfl, rfl⟩ := hs
      by_contra hnot
      exact hheard (by rw [if_neg hnot]; rfl)
    · refine absurd ?_ hheard
      split
      · simp [heard, hs]
      · rfl
  | subscribe =>
    refine absurd ?_ hheard
    simp [heard, Nat.ne_of_gt ht]
  | @amend w w' s' place sig live begun left stack g k news hsig hlive how hamends =>
    refine absurd ?_ hheard
    rw [heard_append, (eq_nil_of_concerning (owed_of_amendment how).2.2).1]
    unfold turning
    split <;> rfl
  | _ => exact absurd rfl hheard

/-- What there is to say of a signal and a subscriber once it has been told, in the beginning, that
the signal is `r`. -/
structure Alternating (s : SignalId) (t : Ticket) (r : Bool) (es : List Happening)
    (a : Activity η) : Prop where
  given : s < a.world.signals.next
  ticket : t < a.world.nextTicket
  layered : Layered a.stack
  chain : (r :: turnings s es).IsChain (· ≠ ·)
  last : a.world.Lives s → (r :: turnings s es).getLast? = some (a.world.truth s)
  told : a.world.subscribes s t = true → heard s t es ++ owed s t a.stack = turnings s es
  initial : heard s t es <+: turnings s es

theorem alternating_subscribe {w : World η} {stack : List (Work η)} (ho : w.Orderly)
    (hl : Layered stack) (ht : Ticketed ⟨w, stack⟩) (hs : w.Lives s) (h : η) :
    Alternating s w.nextTicket (w.truth s) [] ⟨(w.subscribe s h).2, stack⟩ where
  given := by
    obtain ⟨sig, hsig⟩ := Option.isSome_iff_exists.1 hs
    exact ho.signals s sig hsig
  ticket := Nat.lt_succ_self _
  layered := hl
  chain := List.isChain_singleton _
  last := fun hlives ↦ by
    obtain ⟨sig', hsig'⟩ := Option.isSome_iff_exists.1 hlives
    obtain ⟨sig, hsig, hcircuit⟩ := circuit_of_subscribe hsig'
    exact congrArg some (truth_of_circuit hsig hsig' hcircuit).symm
  told := fun _ ↦ ht.owed_eq_nil (Nat.le_refl _)
  initial := List.prefix_rfl

theorem alternating_change {r : Bool} (ho : a.world.Orderly) (ha : Alternating s t r es a)
    (h : Change quietly a es' b) : Alternating s t r (es ++ es') b where
  given := Nat.lt_of_lt_of_le ha.given (next_of_change h)
  ticket := Nat.lt_of_lt_of_le ha.ticket (tickets_of_change h)
  layered := layered_change ha.layered h
  chain := by
    rw [turnings_append]
    rcases turned_of_change h ha.given with ⟨hnone, -⟩ | ⟨hone, hne⟩
    · rw [hnone, List.append_nil]
      exact ha.chain
    · have hlives := lives_of_turned h ha.given hne
      rw [hone, ← List.cons_append]
      refine ha.chain.append (List.isChain_singleton _) fun x hx y hy ↦ ?_
      rw [ha.last hlives] at hx
      cases hx
      cases hy
      exact hne.symm
  last := fun hlives ↦ by
    rw [turnings_append]
    rcases turned_of_change h ha.given with ⟨hnone, htruth⟩ | ⟨hone, -⟩
    · rw [hnone, List.append_nil, ha.last (lives_of_change h ha.given hlives), htruth hlives]
    · rw [hone, ← List.cons_append, List.getLast?_concat]
  told := fun hsub ↦ by
    have htold := ha.told (subscribes_of_change h ha.ticket hsub)
    rw [heard_append, turnings_append, List.append_assoc,
      heard_append_owed ho h ha.ticket hsub (owed_of_turning ha.layered h), ← List.append_assoc,
      htold]
  initial := by
    rw [heard_append, turnings_append]
    by_cases hheard : heard s t es' = []
    · rw [hheard, List.append_nil]
      exact ha.initial.trans (List.prefix_append _ _)
    · -- Whoever has just been told has been told all but what he is still owed.
      have hsub := subscribes_of_heard h ha.ticket hheard
      have htold := ha.told (subscribes_of_change h ha.ticket hsub)
      refine ⟨owed s t b.stack, ?_⟩
      rw [List.append_assoc, heard_append_owed ho h ha.ticket hsub (owed_of_turning ha.layered h),
        ← List.append_assoc, htold]

/-- **A subscriber hears a signal alternate**, from what he is told as he subscribes. -/
theorem Run.alternates {w : World η} {stack : List (Work η)} {k : η}
    (h : Run quietly ⟨(w.subscribe s k).2, stack⟩ es a) (ho : w.Orderly) (hl : Layered stack)
    (ht : Ticketed ⟨w, stack⟩) (hs : w.Lives s) :
    (w.truth s :: heard s w.nextTicket es).IsChain (· ≠ ·) := by
  have hall := h.keepsLog (P := Alternating s w.nextTicket (w.truth s))
    (fun ho ha hchange ↦ alternating_change ho ha hchange) (ho.subscribe s k)
    (alternating_subscribe ho hl ht hs k)
  exact hall.chain.prefix (List.prefix_cons_inj _ |>.2 hall.initial)

end Activity

end LiveTemplate.Engine
