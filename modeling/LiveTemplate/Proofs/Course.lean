import LiveTemplate.Proofs.Alarms
import LiveTemplate.Proofs.Alternation

/-!
# The course of changed terms

What becomes of a changed term when handlers neither change payloads nor move the clock. A change of
its operand is followed by a *visit* that looks at the term, and this by one that settles it; so
what a single change comes to for a term (`Course`) is told by the visits that are still to be paid
to it.
-/

namespace LiveTemplate.Engine

variable {η : Type}

open World

/-! ### Visits -/

/-- What is still to be done about a changed term: to look at it, or to settle it. -/
inductive Visit
  | look
  | settle
  deriving DecidableEq

/-- The visits that a piece of work pays to a term. -/
def Work.visits (s : SignalId) (place : Nat) : Work η → List Visit
  | .tellCell _ _ rest => ((rest.filterMap (·.place? s)).filter (· = place)).map fun _ ↦ .look
  | .settle s' place' => if s' = s ∧ place' = place then [.settle] else []
  | _ => []

/-- The visits that are still to be paid to a term. -/
def visits (s : SignalId) (place : Nat) (stack : List (Work η)) : List Visit :=
  stack.flatMap (Work.visits s place)

section Visits

variable {s s' : SignalId} {place place' : Nat}

theorem visits_append (xs ys : List (Work η)) :
    visits s place (xs ++ ys) = visits s place xs ++ visits s place ys := List.flatMap_append

theorem visits_cons (x : Work η) (xs : List (Work η)) :
    visits s place (x :: xs) = x.visits s place ++ visits s place xs := List.flatMap_cons

theorem visits_nil : visits s place ([] : List (Work η)) = [] := rfl

theorem visits_of_idle {xs : List (Work η)} (h : ∀ x ∈ xs, x.idle) : visits s place xs = [] := by
  refine List.flatMap_eq_nil_iff.2 fun x hx ↦ ?_
  have hidle := h x hx
  cases x with
  | tellCell c current rest =>
    have hnil : rest = [] := hidle
    rw [hnil]
    rfl
  | settle s place => exact hidle.elim
  | _ => rfl

theorem visits_of_tidings {sig : Signal η} {circuit : Circuit} :
    visits s place (tidings s' sig circuit) = [] := by
  unfold tidings
  split <;> rfl

/-- An observer pays a visit to the term that it looks at. -/
theorem visits_tellCell_cons {o : Observer η} (hrole : o.role = .term s place) (c : CellId)
    (current : Option (Observer η)) (rest : List (Observer η)) :
    (Work.tellCell c current (o :: rest)).visits s place =
      .look :: (Work.tellCell c (some o) rest).visits s place := by
  simp [Work.visits, List.filterMap_cons_some (Observer.place?_eq_some.2 hrole)]

theorem visits_tellCell_cons_of_ne {o : Observer η} (hrole : o.role ≠ .term s place) (c : CellId)
    (current : Option (Observer η)) (rest : List (Observer η)) :
    (Work.tellCell c current (o :: rest)).visits s place =
      (Work.tellCell c (some o) rest).visits s place := by
  cases hplace : o.place? s with
  | none => simp [Work.visits, List.filterMap_cons_none hplace]
  | some i =>
    have hne : i ≠ place := fun heq ↦ hrole (heq ▸ Observer.place?_eq_some.1 hplace)
    simp [Work.visits, List.filterMap_cons_some hplace, hne]

/-- The places at which a cell is read from a given place on: as often as the term there reads it.
-/
theorem filter_reading {c : CellId} {i : Nat} {ts : List (Term CellId)} (hle : i ≤ place) :
    (reading c i ts).filter (· = place) =
      ((ts[place - i]?.toList.flatMap Term.operands).filter (· = c)).map fun _ ↦ place := by
  induction ts generalizing i with
  | nil => simp [reading]
  | cons t rest ih =>
    rw [reading, List.filter_append]
    rcases Nat.eq_or_lt_of_le hle with rfl | hlt
    · -- The terms behind have other places.
      have hrest : (reading c (i + 1) rest).filter (· = i) = [] := by
        refine List.filter_eq_nil_iff.2 fun j hj heq ↦ ?_
        have hj := (mem_reading.1 hj).1
        rw [of_decide_eq_true heq] at hj
        exact Nat.not_succ_le_self i hj
      rw [hrest, List.append_nil, Nat.sub_self]
      simp
    · have hfirst : ((t.operands.filter (· = c)).map fun _ ↦ i).filter (· = place) = [] := by
        refine List.filter_eq_nil_iff.2 fun j hj heq ↦ ?_
        obtain ⟨-, -, rfl⟩ := List.mem_map.1 hj
        exact Nat.ne_of_lt hlt (of_decide_eq_true heq)
      rw [hfirst, List.nil_append, ih hlt, show place - i = place - (i + 1) + 1 by omega,
        List.getElem?_cons_succ]

/-- A put is followed by a visit to each changed term of the cell. -/
theorem visits_put {w : World η} (ho : w.Orderly) {live : LiveTerm}
    (hlive : w.term? s place = some live) {c : CellId} {window : UInt64}
    (hterm : live.term = .changed c window) (c' : CellId) :
    (Work.tellCell c' none (w.observers c')).visits s place = if c' = c then [.look] else [] := by
  obtain ⟨sig, hsig, hleaf⟩ := term?_eq_some.1 hlive
  have hget : (sig.circuit.leaves.map LiveTerm.term)[place]? = some (.changed c window) := by
    rw [List.getElem?_map, ← hterm]
    exact congrArg (Option.map LiveTerm.term) hleaf
  rw [Work.visits, ho.placed s sig hsig c', filter_reading (Nat.zero_le place), Nat.sub_zero, hget]
  by_cases hc : c' = c
  · subst hc
    simp [Term.operands]
  · have hc : ¬c = c' := fun h ↦ hc h.symm
    simp [Term.operands, hc, Ne.symm hc]

end Visits

/-- The times at which a cell has changed. -/
def changeTimes (c : CellId) (es : List Happening) : List UInt64 :=
  es.filterMap fun
    | .changed c' m => if c' = c then some m else none
    | _ => none

theorem changeTimes_append (c : CellId) (es es' : List Happening) :
    changeTimes c (es ++ es') = changeTimes c es ++ changeTimes c es' := List.filterMap_append

theorem mem_changeTimes {c : CellId} {m : UInt64} {es : List Happening} :
    m ∈ changeTimes c es ↔ .changed c m ∈ es := by
  constructor
  · intro hmem
    obtain ⟨e, he, hm⟩ := List.mem_filterMap.1 hmem
    cases e with
    | changed c' m' =>
      dsimp only at hm
      split at hm
      · rename_i hc
        cases hm
        exact hc ▸ he
      · cases hm
    | _ => cases hm
  · exact fun hmem ↦ List.mem_filterMap.2 ⟨_, hmem, if_pos rfl⟩

namespace Activity

variable {may : Activity η → Deed η → Prop} {a b : Activity η} {es es' : List Happening}
  {s : SignalId} {place : Nat} {c : CellId} {window : UInt64}

/-- A timer has not run out, or the clock is just being moved. -/
def Ahead (a : Activity η) (t : Timer (Task η)) : Prop :=
  a.world.clock.now < t.due ∨ ∃ target, .advance target ∈ a.stack

/-- Once the clock has been moved all timers that wait are due later. -/
theorem advance_or_lt (ho : a.world.Orderly) (h : Change may a es b) {target : UInt64}
    (hmem : .advance target ∈ a.stack) :
    (∃ target, .advance target ∈ b.stack) ∨
      ∀ t ∈ b.world.clock.queue, b.world.clock.now < t.due := by
  cases h with
  | spare begun left hspares hbegun =>
    have hmem := (List.mem_append.1 hmem).resolve_left fun h ↦ hbegun _ h
    exact .inl ⟨target, List.mem_append_right _ hmem⟩
  | put begun left hne hby =>
    left
    refine ⟨target, List.mem_cons_of_mem _ ?_⟩
    rcases hby with ⟨rfl, rfl, -⟩ | ⟨us, us', locals, rfl, rfl⟩ <;> simpa using hmem
  | @amend _ _ _ _ _ _ _ _ stack _ _ _ hsig hlive how =>
    left
    cases how with
    | expire => exact ⟨_, List.mem_append_right _ List.mem_cons_self⟩
    | _ =>
      have hmem : .advance target ∈ stack := List.mem_of_ne_of_mem (by exact nofun) hmem
      exact ⟨target, List.mem_append_right _ (List.mem_append_right _ hmem)⟩
  | ring => exact .inl ⟨_, List.mem_cons_self⟩
  | arrive hdue => exact .inr fun t ht ↦ ho.clock.lt_due hdue ht
  | perform => exact .inl ⟨target, List.mem_cons_of_mem _ hmem⟩
  | advance => exact .inl ⟨target, List.mem_cons_of_mem _ hmem⟩
  | openSignal => exact .inl ⟨target, hmem⟩
  | subscribe => exact .inl ⟨target, hmem⟩
  | _ =>
    have hmem := List.mem_of_ne_of_mem (by exact nofun) hmem
    exact .inl ⟨target, by simp [hmem]⟩

theorem ahead_of_change (ho : a.world.Orderly) (h : Change may a es b) {t : Timer (Task η)}
    (ht : t ∈ b.world.clock.queue) (hahead : Ahead a t) : Ahead b t := by
  have hmoving : (∃ target, .advance target ∈ a.stack) → Ahead b t := fun ⟨target, hmem⟩ ↦
    (advance_or_lt ho h hmem).elim .inr fun hlt ↦ .inl (hlt t ht)
  rcases hahead with hlt | hmoves
  · rcases now_of_change ho h with heq | ⟨target, stack, hstack, -⟩
    · exact .inl (heq ▸ hlt)
    · exact hmoving ⟨target, hstack ▸ List.mem_cons_self⟩
  · exact hmoving hmoves

/-! ### The course of things -/

/-- What a change comes to for a changed term, as long as handlers neither change payloads nor move
the clock. -/
inductive Course (c : CellId) (window : UInt64) (s : SignalId) (place : Nat) (a : Activity η)
    (es : List Happening) (b : Activity η) : LiveTerm → LiveTerm → Prop
  /-- Nothing happens to the term, but time may pass. -/
  | still {live : LiveTerm} (hvisits : visits s place b.stack = visits s place a.stack)
      (htimes : changeTimes c es = [])
      (hnow : b.world.clock.now = a.world.clock.now ∨ visits s place a.stack = [])
      (hqueue : ∀ t ∈ a.world.clock.queue, t.task = .expire s place → t ∈ b.world.clock.queue) :
      Course c window s place a es b live live
  /-- The operand changes. -/
  | put {live : LiveTerm} (hbefore : visits s place a.stack = [])
      (hafter : visits s place b.stack = [.look]) (htimes : changeTimes c es = [a.world.clock.now])
      (hnow : b.world.clock.now = a.world.clock.now) : Course c window s place a es b live live
  /-- The term is looked at, and starts anew. -/
  | restart {live : LiveTerm} {vs : List Visit} (hbefore : visits s place a.stack = .look :: vs)
      (hafter : visits s place b.stack = .settle :: vs) (htimes : changeTimes c es = [])
      (hnow : b.world.clock.now = a.world.clock.now) :
      Course c window s place a es b live { live with truth := true, timer := none }
  /-- The term, having no window, ends. -/
  | flash {live : LiveTerm} {vs : List Visit} (hwindow : window = 0)
      (hbefore : visits s place a.stack = .settle :: vs) (hafter : visits s place b.stack = vs)
      (htimes : changeTimes c es = []) (hnow : b.world.clock.now = a.world.clock.now) :
      Course c window s place a es b live { live with truth := false }
  /-- The timer is set. -/
  | arm {live : LiveTerm} {vs : List Visit} {t : Timer (Task η)} (hwindow : window ≠ 0)
      (hbefore : visits s place a.stack = .settle :: vs) (hafter : visits s place b.stack = vs)
      (htimes : changeTimes c es = []) (hnow : b.world.clock.now = a.world.clock.now)
      (ht : t ∈ b.world.clock.queue) (hdue : t.due = addUpTo a.world.clock.now window)
      (htask : t.task = .expire s place) :
      Course c window s place a es b live { live with timer := some t.id }
  /-- The timer runs out. -/
  | expire {live : LiveTerm} {t : Timer (Task η)} (hbefore : visits s place a.stack = [])
      (hafter : visits s place b.stack = []) (htimes : changeTimes c es = [])
      (ht : t ∈ a.world.clock.queue) (htask : t.task = .expire s place)
      (hnow : b.world.clock.now = t.due) :
      Course c window s place a es b live { live with truth := false, timer := none }

theorem changeTimes_of_amendment {w : World η} {s' : SignalId} {place' : Nat} {sig : Signal η}
    {live : LiveTerm} {begun left : List (Work η)} {g : LiveTerm → LiveTerm} {k : Clock (Task η)}
    {news : List Happening} (how : Amendment w s' place' live begun g k left news)
    (circuit : Circuit) : changeTimes c (news ++ turning s' sig circuit) = [] := by
  have hnews : changeTimes c news = [] := by cases how <;> rfl
  rw [changeTimes_append, hnews]
  unfold turning
  split <;> rfl

/-- A cell changes exactly when it is put a payload that does not equal the one before. -/
theorem changeTimes_of_change (h : Change may a es b) (hc : a.world.HasCell c) :
    changeTimes c es = [] ∧ b.world.payload c = a.world.payload c ∨
      changeTimes c es = [a.world.clock.now] ∧
        (a.world.payload c == b.world.payload c) = false := by
  cases h with
  | spare _ _ hspares => exact .inl ⟨rfl, (hspares.payload c hc).2⟩
  | @put w d p _ _ _ hne _ =>
    by_cases hd : d = c
    · subst hd
      refine .inr ⟨by simp [changeTimes], ?_⟩
      change (w.payload d == (w.put d p).payload d) = false
      rw [payload_put, if_pos ⟨rfl, hc⟩]
      exact hne
    · exact .inl ⟨by simp [changeTimes, hd], payload_put_of_ne w d p (Ne.symm hd)⟩
  | openSignal => exact .inl ⟨rfl, (attaches_openSignal _ _).payload c⟩
  | amend _ _ how hamends =>
    exact .inl ⟨changeTimes_of_amendment how _, payload_of_cells hamends.cells c⟩
  | tell => exact .inl ⟨by split <;> rfl, rfl⟩
  | _ => exact .inl ⟨rfl, rfl⟩

/-- A change of the leaf of the term takes it on its course. -/
theorem course_of_amendment {w w' : World η} {sig : Signal η} {live : LiveTerm}
    {begun left stack : List (Work η)} {g : LiveTerm → LiveTerm} {k : Clock (Task η)}
    {news : List Happening} (hterm : live.term = .changed c window)
    (hg : Grounded (fun x ↦ ¬x.drives) (begun ++ stack))
    (how : Amendment w s place live begun g k left news) (hamends : Amends s place g k w w') :
    Course c window s place ⟨w, begun ++ stack⟩ (news ++ turning s sig (sig.circuit.amend g place))
      ⟨w', tidings s sig (sig.circuit.amend g place) ++ (left ++ stack)⟩ live (g live) := by
  have htimes : changeTimes c (news ++ turning s sig (sig.circuit.amend g place)) = [] :=
    changeTimes_of_amendment how _
  cases how with
  | look hrelation =>
    rw [hrelation] at hterm
    cases hterm
  | @restart d operand window' current o rest held _ hrole hheld =>
    have hidle : visits s place held = [] := visits_of_idle fun x hx ↦ by
      rw [hheld x hx]
      trivial
    have hbefore : visits s place ([.tellCell d current (o :: rest)] ++ stack) =
        .look :: ((Work.tellCell d (some o) rest).visits s place ++ visits s place stack) := by
      rw [List.singleton_append, visits_cons, visits_tellCell_cons hrole, List.cons_append]
    refine .restart hbefore ?_ htimes ?_
    · simp [visits_append, visits_cons, visits_of_tidings, hidle, Work.visits]
    · rw [hamends.clock, Clock.foldl_cancel]
  | flash hflash =>
    rw [hflash] at hterm
    cases hterm
    refine .flash rfl (by simp [visits_cons, Work.visits]; rfl) ?_ htimes (by rw [hamends.clock])
    simp [visits_append, visits_of_tidings]
  | arm harm hwindow =>
    rw [harm] at hterm
    cases hterm
    refine .arm (t := ⟨addUpTo w.clock.now window, w.clock.nextId, .expire s place⟩) hwindow
      (by simp [visits_cons, Work.visits]; rfl) ?_ htimes (by rw [hamends.clock]; rfl) ?_ rfl rfl
    · simp [visits_append, visits_of_tidings]
    · rw [hamends.clock]
      exact Clock.mem_enqueue.2 (.inl rfl)
  | @expire _ _ target timer _ _ hdue htask =>
    obtain ⟨hqueue, -, hnow, -⟩ := Clock.queue_takeDue? hdue
    obtain rfl : stack = [] := hg.eq_nil fun h ↦ h trivial
    refine .expire rfl ?_ htimes (hqueue ▸ List.mem_cons_self) htask (by rw [hamends.clock, hnow])
    rw [visits_append, visits_of_tidings]
    rfl

/-- A change of another leaf is nothing to the term. -/
theorem still_of_amendment {w w' : World η} {s' : SignalId} {place' : Nat} {sig : Signal η}
    {live old : LiveTerm} {begun left stack : List (Work η)} {g : LiveTerm → LiveTerm}
    {k : Clock (Task η)} {news : List Happening} (ho : w.Orderly)
    (hg : Grounded (fun x ↦ ¬x.drives) (begun ++ stack)) (hsig : w.signals.get? s' = some sig)
    (hlive : sig.circuit.leaf? place' = some live) (hne : s = s' → place ≠ place')
    (how : Amendment w s' place' live begun g k left news) (hamends : Amends s' place' g k w w') :
    Course c window s place ⟨w, begun ++ stack⟩
      (news ++ turning s' sig (sig.circuit.amend g place'))
      ⟨w', tidings s' sig (sig.circuit.amend g place') ++ (left ++ stack)⟩ old old := by
  have htimes : changeTimes c (news ++ turning s' sig (sig.circuit.amend g place')) = [] :=
    changeTimes_of_amendment how _
  have hfilter := filter_of_amendment ho hsig hlive how hne
  have hsettle : (Work.settle (η := η) s' place').visits s place = [] :=
    if_neg fun h ↦ hne h.1.symm h.2.symm
  have hrole' : ∀ {o : Observer η}, o.role = .term s' place' → o.role ≠ .term s place := by
    intro o hrole heq
    rw [hrole] at heq
    cases heq
    exact hne rfl rfl
  refine .still ?_ htimes ?_ fun t ht htask ↦ ?_
  · rw [visits_append, visits_append, visits_append, visits_of_tidings]
    cases how with
    | look _ hrole =>
      simp [visits_cons, visits_tellCell_cons_of_ne (hrole' hrole)]
    | restart held _ hrole hheld =>
      have hidle : visits s place held = [] := visits_of_idle fun x hx ↦ by
        rw [hheld x hx]
        trivial
      simp [visits_cons, visits_append, hsettle, hidle, visits_tellCell_cons_of_ne (hrole' hrole)]
    | flash =>
      rw [visits_cons, hsettle]
      rfl
    | arm =>
      rw [visits_cons, hsettle]
      rfl
    | expire => rfl
  · rw [hamends.clock]
    cases how with
    | restart =>
      rw [Clock.foldl_cancel]
      exact .inl rfl
    | expire =>
      obtain rfl : stack = [] := hg.eq_nil fun h ↦ h trivial
      exact .inr rfl
    | _ => exact .inl rfl
  · have hmem : t ∈ w.clock.queue.filter (·.task.endsAt s place) :=
      List.mem_filter.2 ⟨ht, Task.endsAt_iff.2 htask⟩
    rw [← hfilter] at hmem
    rw [hamends.clock]
    exact List.mem_of_mem_filter hmem

/-- A put is the change that the term is about, or nothing to it. -/
theorem course_of_put {w : World η} {live : LiveTerm} {d : CellId} {p : Payload}
    {begun left stack : List (Work η)} (ho : w.Orderly)
    (hg : Grounded (fun x ↦ ¬x.drives) (begun ++ stack)) (hlive : w.term? s place = some live)
    (hterm : live.term = .changed c window)
    (hby : begun = [] ∧ left = [] ∧ quietly ⟨w, stack⟩ (.write d p) ∨
      ∃ us us' locals, begun = [.perform us locals] ∧ left = [.perform us' locals]) :
    Course c window s place ⟨w, begun ++ stack⟩ [.changed d w.clock.now]
      ⟨w.put d p, .tellCell d none (w.observers d) :: (left ++ stack)⟩ live live := by
  have hnone : visits s place (begun ++ stack) = [] ∧ visits s place (left ++ stack) = [] := by
    rcases hby with ⟨rfl, rfl, hmay⟩ | ⟨us, us', locals, rfl, rfl⟩
    · obtain rfl : stack = [] := hmay (.inl trivial)
      exact ⟨rfl, rfl⟩
    · obtain rfl : stack = [] := hg.eq_nil fun h ↦ h trivial
      exact ⟨rfl, rfl⟩
  have hvisits := visits_put ho hlive hterm d
  by_cases hd : d = c
  · subst hd
    rw [if_pos rfl] at hvisits
    refine .put hnone.1 ?_ (by simp [changeTimes]) rfl
    rw [visits_cons, hvisits, hnone.2]
    rfl
  · rw [if_neg hd] at hvisits
    refine .still ?_ (by simp [changeTimes, hd]) (.inl rfl) fun _ ht _ ↦ ht
    rw [visits_cons, hvisits, hnone.1, hnone.2]
    rfl

/-- **The course of a changed term.** -/
theorem course_of_change (ho : a.world.Orderly) (hatt : Attended a)
    (hg : Grounded (fun x ↦ ¬x.drives) a.stack) (hs : s < a.world.signals.next)
    (h : Change quietly a es b) {live : LiveTerm} (hlive : b.world.term? s place = some live)
    (hterm : live.term = .changed c window) :
    ∃ old, a.world.term? s place = some old ∧ Course c window s place a es b old live := by
  obtain ⟨sig', hsig', hleaf⟩ := term?_eq_some.1 hlive
  cases h with
  | spare begun left hspares hbegun hleft =>
    obtain ⟨sig, hsig, hcircuit, -⟩ := hspares.signal s sig' hsig'
    refine ⟨live, term?_eq_some.2 ⟨sig, hsig, hcircuit ▸ hleaf⟩,
      .still ?_ rfl (.inl hspares.now) fun t ht htask ↦ ?_⟩
    · rw [visits_append, visits_append, visits_of_idle hbegun, visits_of_idle (idle_of_left hleft)]
    · -- The timers of a signal that lives stay.
      have hends : t.task.ends s = true := by rw [htask]; simp [Task.ends]
      have hmem := List.mem_filter (p := fun t : Timer (Task η) ↦ t.task.ends s) |>.2 ⟨ht, hends⟩
      rw [← hspares.ends s (Option.isSome_iff_exists.2 ⟨sig', hsig'⟩)] at hmem
      exact List.mem_of_mem_filter hmem
  | perform => exact ⟨live, hlive, .still rfl rfl (.inl rfl) fun _ ht _ ↦ ht⟩
  | advance => exact ⟨live, hlive, .still rfl rfl (.inl rfl) fun _ ht _ ↦ ht⟩
  | put _ _ _ hby => exact ⟨live, hlive, course_of_put ho hg hlive hterm hby⟩
  | @openSignal w f stack =>
    rw [get?_openSignal, if_neg (Nat.ne_of_gt hs)] at hsig'
    have hclock : (w.openSignal f).2.clock = w.clock := (attaches_openSignal w f).clock
    refine ⟨live, term?_eq_some.2 ⟨sig', hsig', hleaf⟩, .still rfl rfl (.inl ?_) fun t ht _ ↦ ?_⟩
    · rw [hclock]
    · rw [hclock]
      exact ht
  | subscribe =>
    obtain ⟨sig, hsig, hcircuit⟩ := circuit_of_subscribe hsig'
    exact ⟨live, term?_eq_some.2 ⟨sig, hsig, hcircuit ▸ hleaf⟩,
      .still rfl rfl (.inl rfl) fun _ ht _ ↦ ht⟩
  | @pass w d current o others stack hpass =>
    refine ⟨live, hlive, .still ?_ rfl (.inl rfl) fun _ ht _ ↦ ht⟩
    -- An observer that looks at the term is still there, and not passed over.
    have hrole : o.role ≠ .term s place := by
      intro hrole
      have hobserves := (hatt.told d current (o :: others) List.mem_cons_self o List.mem_cons_self s
        place hrole).2 (Option.isSome_iff_exists.2 ⟨sig', hsig'⟩)
      have hnone : w.term? s place = none := hpass s place hrole hobserves
      rw [hnone] at hlive
      cases hlive
    rw [visits_cons, visits_cons, visits_tellCell_cons_of_ne hrole]
  | tell =>
    refine ⟨live, hlive, .still rfl ?_ (.inl rfl) fun _ ht _ ↦ ht⟩
    split <;> rfl
  | @amend w w' s' place' sig live' begun left stack g k news hsig hlive' how hamends =>
    rcases leaf?_of_amends hamends hsig hsig' hleaf with
      ⟨rfl, rfl, old, hold, rfl⟩ | ⟨hne, old, hold, hleaf'⟩
    · rw [hlive'] at hold
      cases hold
      rw [how.term_eq] at hterm
      exact ⟨live', term?_eq_some.2 ⟨sig, hsig, hlive'⟩, course_of_amendment hterm hg how hamends⟩
    · exact ⟨live, term?_eq_some.2 ⟨old, hold, hleaf'⟩,
        still_of_amendment ho hg hsig hlive' hne how hamends⟩
  | @lapse w s' place' stack hlapse =>
    refine ⟨live, hlive, .still ?_ rfl (.inl rfl) fun _ ht _ ↦ ht⟩
    have hne : ¬(s' = s ∧ place' = place) := by
      rintro ⟨rfl, rfl⟩
      exact hlapse live c window hlive hterm
    rw [visits_cons, Work.visits, if_neg hne]
    rfl
  | @ring w target timer k stack hdue htask =>
    obtain rfl : stack = [] := hg.eq_nil fun h ↦ h trivial
    refine ⟨live, hlive, .still rfl rfl (.inr rfl) fun t ht hexpire ↦ ?_⟩
    have ht : t ∈ w.clock.queue := ht
    rw [(Clock.queue_takeDue? hdue).1] at ht
    refine (List.mem_cons.1 ht).resolve_left ?_
    rintro rfl
    exact htask s place hexpire (Option.isSome_iff_exists.2 ⟨sig', hsig'⟩)
  | @arrive w target stack =>
    obtain rfl : stack = [] := hg.eq_nil fun h ↦ h trivial
    exact ⟨live, hlive, .still rfl rfl (.inr rfl) fun _ ht _ ↦ ht⟩

end Activity

end LiveTemplate.Engine
