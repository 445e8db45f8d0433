import LiveTemplate.Proofs.Updates

/-!
# What a step can do

A step of an activity, a turn or a deed, is one of a dozen changes (`Change`, `Step.change`). Most
of them spare the signals that go on living and leave only work that is *idle*, which has no bearing
on them. The others are those of which there is something to say: a payload is put into a cell, a
signal comes, someone subscribes, an observer is passed over, a subscriber is told, a leaf changes,
the clock moves. A statement about all runs is proved by going through the changes once.

The first such statement is that a world stays in order (`Run.orderly`).
-/

namespace LiveTemplate.Engine

variable {η : Type}

namespace Work

/-- Whether a piece of work has no bearing on signals or on the clock, or none before it has left
other work. -/
def idle : Work η → Prop
  | tellCell _ _ rest => rest = []
  | tellSignal _ _ rest => rest = []
  | settle _ _ => False
  | advance _ => False
  | _ => True

/-- Whether a piece of work may change payloads or move the clock. -/
def drives : Work η → Prop
  | advance _ => True
  | perform _ _ => True
  | _ => False

end Work

/-- Every piece of work but the last has a property. -/
def Grounded (P : Work η → Prop) : List (Work η) → Prop
  | [] => True
  | x :: stack => (P x ∨ stack = []) ∧ Grounded P stack

section Grounded

variable {P : Work η → Prop} {x : Work η} {xs stack : List (Work η)}

theorem Grounded.append (h : Grounded P stack) (hxs : ∀ x ∈ xs, P x) :
    Grounded P (xs ++ stack) := by
  induction xs with
  | nil => exact h
  | cons x xs ih =>
    exact ⟨.inl (hxs x List.mem_cons_self), ih fun y hy ↦ hxs y (List.mem_cons_of_mem _ hy)⟩

theorem Grounded.of_append (h : Grounded P (xs ++ stack)) : Grounded P stack := by
  induction xs with
  | nil => exact h
  | cons x xs ih => exact ih h.2

theorem grounded_singleton (P : Work η → Prop) (x : Work η) : Grounded P [x] :=
  ⟨.inr rfl, trivial⟩

/-- Whatever lacks the property has nothing below it. -/
theorem Grounded.eq_nil (h : Grounded P (x :: stack)) (hx : ¬P x) : stack = [] :=
  h.1.resolve_left hx

end Grounded

/-! ### Changes -/

/-- What a step of an activity can do. -/
inductive Change (may : Activity η → Deed η → Prop) :
    Activity η → List Happening → Activity η → Prop
  /-- The signals that go on living are spared. -/
  | spare {w w' : World η} (begun left : List (Work η)) {stack : List (Work η)}
      (h : World.Spares w w') (hbegun : ∀ x ∈ begun, x.idle)
      (hleft : (∀ x ∈ left, x.idle ∧ ¬x.drives) ∨
        ∃ us us' locals, begun = [.perform us locals] ∧ left = [.perform us' locals]) :
      Change may ⟨w, begun ++ stack⟩ [] ⟨w', left ++ stack⟩
  /-- Someone sets out to run updates. -/
  | perform {w : World η} {updates : List (Update CellId)} {locals : ValueMap}
      {stack : List (Work η)} (hmay : may ⟨w, stack⟩ (.perform updates locals)) :
      Change may ⟨w, stack⟩ [] ⟨w, .perform updates locals :: stack⟩
  /-- Someone sets out to move the clock. -/
  | advance {w : World η} {ms : UInt64} {stack : List (Work η)}
      (hmay : may ⟨w, stack⟩ (.advance ms)) :
      Change may ⟨w, stack⟩ [] ⟨w, .advance (addUpTo w.clock.now ms) :: stack⟩
  /-- A payload is put into a cell, by a deed or by updates. -/
  | put {w : World η} {c : CellId} {p : Payload} (begun left : List (Work η))
      {stack : List (Work η)} (hne : (w.payload c == p) = false)
      (hby : begun = [] ∧ left = [] ∧ may ⟨w, stack⟩ (.write c p) ∨
        ∃ us us' locals, begun = [.perform us locals] ∧ left = [.perform us' locals]) :
      Change may ⟨w, begun ++ stack⟩ [.changed c w.clock.now]
        ⟨w.put c p, .tellCell c none (w.observers c) :: (left ++ stack)⟩
  /-- A signal comes. -/
  | openSignal {w : World η} {f : Formula (Term CellId)} {stack : List (Work η)}
      (hf : ∀ t ∈ f.terms, ∀ c ∈ t.operands, w.HasCell c) :
      Change may ⟨w, stack⟩ [] ⟨(w.openSignal f).2, stack⟩
  /-- Someone subscribes to a signal. -/
  | subscribe {w : World η} {s : SignalId} {h : η} {stack : List (Work η)} (hs : w.Lives s) :
      Change may ⟨w, stack⟩ [.told s w.nextTicket (w.truth s)] ⟨(w.subscribe s h).2, stack⟩
  /-- An observer is passed over, or has nothing to look at. -/
  | pass {w : World η} {c : CellId} {current : Option (Observer η)} {o : Observer η}
      {others : List (Observer η)} {stack : List (Work η)}
      (ho : ∀ s place, o.role = .term s place → o ∈ w.observers c → w.term? s place = none) :
      Change may ⟨w, .tellCell c current (o :: others) :: stack⟩ []
        ⟨w, .tellCell c (some o) others :: stack⟩
  /-- A subscriber of a signal is told, or is passed over. -/
  | tell {w : World η} {s : SignalId} {b : Bool} {e : Ticket × η} {others : List (Ticket × η)}
      {stack : List (Work η)} :
      Change may ⟨w, .tellSignal s b (e :: others) :: stack⟩
        (if w.subscribes s e.1 then [.told s e.1 b] else []) ⟨w, .tellSignal s b others :: stack⟩
  /-- A leaf changes, and the subscribers are to be told if that turns the signal. -/
  | amend {w w' : World η} {s : SignalId} {place : Nat} {sig : Signal η} {live : LiveTerm}
      {begun left stack : List (Work η)} {g : LiveTerm → LiveTerm} {k : Clock (Task η)}
      {news : List Happening} (hsig : w.signals.get? s = some sig)
      (hlive : sig.circuit.leaf? place = some live)
      (how : World.Amendment w s place live begun g k left news)
      (h : World.Amends s place g k w w') :
      Change may ⟨w, begun ++ stack⟩ (news ++ World.turning s sig (sig.circuit.amend g place))
        ⟨w', World.tidings s sig (sig.circuit.amend g place) ++ (left ++ stack)⟩
  /-- Nothing is left to be settled. -/
  | lapse {w : World η} {s : SignalId} {place : Nat} {stack : List (Work η)}
      (hs : ∀ live c window, w.term? s place = some live → live.term ≠ .changed c window) :
      Change may ⟨w, .settle s place :: stack⟩ [] ⟨w, stack⟩
  /-- A timer rings that is not of a signal that lives. -/
  | ring {w : World η} {target : UInt64} {timer : Timer (Task η)} {k : Clock (Task η)}
      {stack : List (Work η)} (hdue : w.clock.takeDue? target = some (timer, k))
      (htask : ∀ s place, timer.task = .expire s place → ¬w.Lives s) :
      Change may ⟨w, .advance target :: stack⟩ []
        ⟨{ w with clock := k }, .advance target :: stack⟩
  /-- The clock arrives where it is moved. -/
  | arrive {w : World η} {target : UInt64} {stack : List (Work η)}
      (hdue : w.clock.takeDue? target = none) :
      Change may ⟨w, .advance target :: stack⟩ []
        ⟨{ w with clock := w.clock.moveTo target }, stack⟩

namespace World

variable {w : World η} {s : SignalId} {place : Nat} {sig : Signal η} {live : LiveTerm}

/-! ### Looking, settling and running out -/

theorem term?_eq_some {live : LiveTerm} :
    w.term? s place = some live ↔
      ∃ sig, w.signals.get? s = some sig ∧ sig.circuit.leaf? place = some live :=
  Option.bind_eq_some_iff

/-- **To look at a leaf changes it**, as its term asks for. -/
theorem exists_refresh_eq (hsig : w.signals.get? s = some sig)
    (hlive : sig.circuit.leaf? place = some live) {o : Observer η} (hrole : o.role = .term s place)
    (c : CellId) (current : Option (Observer η)) (rest : List (Observer η)) :
    ∃ g k w' left, w.refresh s place = (w', tidings s sig (sig.circuit.amend g place) ++ left) ∧
      Amends s place g k w w' ∧ (∀ time, left.filterMap (Work.news time) = []) ∧
      Amendment w s place live [.tellCell c current (o :: rest)] g k
        (left ++ [.tellCell c (some o) rest]) [] := by
  have hterm? : w.term? s place = some live := term?_eq_some.2 ⟨sig, hsig, hlive⟩
  unfold refresh
  rw [hterm?]
  dsimp only
  split
  · rename_i r left right hterm
    obtain ⟨w', heq, hamends⟩ := exists_setTerm_eq hsig place
      (fun t ↦ { t with truth := r.holds (w.payload left) (w.payload right) }) w.clock
    refine ⟨_, _, w', [], ?_, hamends, fun _ ↦ rfl, .look hterm hrole⟩
    rw [List.append_nil]
    exact heq
  · rename_i operand window hterm
    obtain ⟨w', heq, hamends⟩ := exists_setTerm_eq hsig place
      (fun t ↦ { t with truth := true, timer := none })
      (live.timer.toList.foldl Clock.cancel w.clock)
    rw [heq]
    dsimp only
    split
    · refine ⟨_, _, w'.hold s, [.settle s place, .letGo s], rfl, hamends.hold, fun _ ↦ rfl,
        .restart [.letGo s] hterm hrole fun x hx ↦ List.mem_singleton.1 hx⟩
    · exact ⟨_, _, w', [.settle s place], rfl, hamends, fun _ ↦ rfl,
        .restart [] hterm hrole fun _ hx ↦ absurd hx List.not_mem_nil⟩

end World

/-- What spares the signals leaves only idle work. -/
theorem idle_of_left {begun left : List (Work η)}
    (hleft : (∀ x ∈ left, x.idle ∧ ¬x.drives) ∨
      ∃ us us' locals, begun = [.perform us locals] ∧ left = [.perform us' locals]) :
    ∀ x ∈ left, x.idle := by
  intro x hx
  rcases hleft with hleft | ⟨us, us', locals, -, rfl⟩
  · exact (hleft x hx).1
  · rw [List.mem_singleton.1 hx]
    trivial

namespace Activity

open World

variable {may : Activity η → Deed η → Prop} {w : World η}

theorem change_tellCell (c : CellId) (current : Option (Observer η)) (o : Observer η)
    (rest : List (Observer η)) (stack : List (Work η)) :
    Change may ⟨w, .tellCell c current (o :: rest) :: stack⟩
      (w.atTurn (.tellCell c current (o :: rest)))
      ⟨(w.turn (.tellCell c current (o :: rest))).world,
        (w.turn (.tellCell c current (o :: rest))).next ++ stack⟩ := by
  simp only [atTurn, turn]
  by_cases hobserves : w.observes c o.ticket
  · rw [if_pos hobserves]
    cases hrole : o.role with
    | handler h => exact .pass fun s place hterm ↦ by rw [hrole] at hterm; cases hterm
    | watcher h args => exact .pass fun s place hterm ↦ by rw [hrole] at hterm; cases hterm
    | term s place =>
      dsimp only
      cases hterm : w.term? s place with
      | none =>
        have hrefresh : w.refresh s place = (w, []) := by
          rw [refresh, hterm]
        rw [hrefresh]
        refine .pass fun s' place' hrole' _ ↦ ?_
        rw [hrole] at hrole'
        cases hrole'
        exact hterm
      | some live =>
        obtain ⟨sig, hsig, hlive⟩ := term?_eq_some.1 hterm
        obtain ⟨g, k, w', left, heq, hamends, hnews, how⟩ :=
          exists_refresh_eq hsig hlive hrole c current rest
        rw [heq]
        have hchange : Change may ⟨w, _ ++ stack⟩ _ _ := .amend hsig hlive how hamends
        simpa [Turn.goOn, List.filterMap_append, filterMap_news_tidings, hnews,
          List.filterMap_cons, Work.news] using hchange
  · rw [if_neg hobserves]
    refine .pass fun s place _ hmem ↦ absurd ?_ hobserves
    exact List.any_eq_true.2 ⟨o, hmem, beq_self_eq_true _⟩

theorem change_settle (s : SignalId) (place : Nat) (stack : List (Work η)) :
    Change may ⟨w, .settle s place :: stack⟩ (w.atTurn (.settle s place))
      ⟨(w.turn (.settle s place)).world, (w.turn (.settle s place)).next ++ stack⟩ := by
  by_cases hchanged : ∃ operand window truth timer,
      w.term? s place = some ⟨.changed operand window, truth, timer⟩
  · obtain ⟨operand, window, truth, timer, hterm⟩ := hchanged
    obtain ⟨sig, hsig, hlive⟩ := term?_eq_some.1 hterm
    by_cases hwindow : window = 0
    · subst hwindow
      obtain ⟨w', heq, hamends⟩ := exists_setTerm_eq hsig place
        (fun t ↦ { t with truth := false }) w.clock
      have hchange : Change may ⟨w, _ ++ stack⟩ _ _ := .amend hsig hlive (.flash rfl) hamends
      have hset : w.settle s place = w.setTerm s place fun t ↦ { t with truth := false } := by
        rw [settle, hterm]
        rfl
      have hsettle := hset.trans heq
      simpa [atTurn, atSettle, turn, hterm, hsettle, Turn.goOn, filterMap_news_tidings]
        using hchange
    · obtain ⟨w', heq, hamends⟩ := exists_setTerm_eq hsig place
        (fun t ↦ { t with timer := some w.clock.nextId })
        (w.clock.schedule window (.expire s place)).2
      have hchange : Change may ⟨w, _ ++ stack⟩ _ _ := .amend hsig hlive (.arm rfl hwindow) hamends
      have hset : w.settle s place =
          ({ w with clock := (w.clock.schedule window (.expire s place)).2 } : World η).setTerm s
            place fun t ↦ { t with timer := some w.clock.nextId } := by
        rw [settle, hterm]
        exact if_neg hwindow
      have hsettle := hset.trans heq
      simpa [atTurn, atSettle, turn, hterm, hwindow, hsettle, Turn.goOn, filterMap_news_tidings]
        using hchange
  · have hsettle : w.settle s place = (w, []) := by
      unfold settle
      split
      · rename_i operand window truth timer hterm
        exact absurd ⟨operand, window, truth, timer, hterm⟩ hchanged
      · rfl
    have hat : w.atSettle s place = [] := by
      unfold atSettle
      split
      · rename_i operand window truth timer hterm
        exact absurd ⟨operand, window, truth, timer, hterm⟩ hchanged
      · rfl
    simp only [atTurn, turn, hsettle, hat, Turn.goOn, List.filterMap_nil, List.append_nil,
      List.nil_append]
    refine .lapse fun live operand window hterm hterm' ↦ hchanged ?_
    obtain ⟨term, truth, timer⟩ := live
    cases hterm'
    exact ⟨operand, window, truth, timer, hterm⟩

theorem change_advance (ho : w.Orderly) (target : UInt64) (stack : List (Work η)) :
    Change may ⟨w, .advance target :: stack⟩ (w.atTurn (.advance target))
      ⟨(w.turn (.advance target)).world, (w.turn (.advance target)).next ++ stack⟩ := by
  simp only [atTurn, turn]
  cases hdue : w.clock.takeDue? target with
  | none => exact .arrive hdue
  | some due =>
    obtain ⟨timer, k⟩ := due
    cases htask : timer.task with
    | handler h =>
      simp only [htask, Turn.calling]
      exact .ring hdue fun s place hexpire ↦ by rw [htask] at hexpire; cases hexpire
    | expire s place =>
      cases hsig : w.signals.get? s with
      | none =>
        have hexpire : ({ w with clock := k } : World η).expire s place =
            ({ w with clock := k }, []) := by
          have hget : ({ w with clock := k } : World η).signals.get? s = none := hsig
          rw [expire, setTerm, hget]
        simp only [htask, hexpire, Turn.goOn]
        refine .ring hdue fun s' place' hexpire' hlives ↦ ?_
        rw [htask] at hexpire'
        cases hexpire'
        rw [Lives, hsig] at hlives
        cases hlives
      | some sig =>
        have hmem : timer ∈ w.clock.queue := by
          rw [(Clock.queue_takeDue? hdue).1]
          exact List.mem_cons_self
        obtain ⟨live, operand, window, hlive, hterm⟩ := ho.windows timer hmem s place htask sig hsig
        obtain ⟨w', heq, hamends⟩ := exists_setTerm_eq hsig place
          (fun t ↦ { t with truth := false, timer := none }) k
        have hchange : Change may ⟨w, _ ++ stack⟩ _ _ :=
          .amend hsig hlive (.expire hterm hdue htask) hamends
        have hexpire : ({ w with clock := k } : World η).expire s place = _ := heq
        simpa [htask, hexpire, Turn.goOn, List.filterMap_append, filterMap_news_tidings,
          List.filterMap_cons, Work.news] using hchange

theorem change_perform (ho : w.Orderly) (updates : List (Update CellId)) (locals : ValueMap)
    (stack : List (Work η)) :
    Change may ⟨w, .perform updates locals :: stack⟩ (w.atTurn (.perform updates locals))
      ⟨(w.turn (.perform updates locals)).world,
        (w.turn (.perform updates locals)).next ++ stack⟩ := by
  have hperformed := w.performed_perform updates locals
  have hat : w.atTurn (.perform updates locals) =
      (w.perform updates locals).next.filterMap (Work.news w.clock.now) := rfl
  have hturn : w.turn (.perform updates locals) = w.perform updates locals := rfl
  rw [hat, hturn]
  have hbegun : ∀ x ∈ [Work.perform (η := η) updates locals], x.idle := fun x hx ↦ by
    rw [List.mem_singleton.1 hx]
    trivial
  have hnone : ∀ x ∈ ([] : List (Work η)), x.idle ∧ ¬x.drives := fun _ hx ↦
    absurd hx List.not_mem_nil
  generalize w.perform updates locals = t at hperformed ⊢
  cases hperformed with
  | done => exact .spare _ [] (.refl w) hbegun (.inl hnone)
  | failed h => exact .spare _ [] (h.spares ho) hbegun (.inl hnone)
  | @on w' us h =>
    exact .spare _ [.perform us locals] (h.spares ho) hbegun (.inr ⟨updates, us, locals, rfl, rfl⟩)
  | @put c p us _ _ _ hne =>
    exact .put _ [.perform us locals] hne (.inr ⟨updates, us, locals, rfl, rfl⟩)

/-- A turn of a piece of work that is idle and drives nothing. -/
theorem change_idle {w' : World η} (x : Work η) (left : List (Work η)) (h : Spares w w')
    (hx : x.idle) (hleft : ∀ y ∈ left, y.idle ∧ ¬y.drives) (stack : List (Work η)) :
    Change may ⟨w, x :: stack⟩ [] ⟨w', left ++ stack⟩ := by
  refine .spare [x] left h (fun y hy ↦ ?_) (.inl hleft)
  rw [List.mem_singleton.1 hy]
  exact hx

/-- **What a turn can do.** -/
theorem change_turn (ho : w.Orderly) (x : Work η) (stack : List (Work η)) :
    Change may ⟨w, x :: stack⟩ (w.atTurn x) ⟨(w.turn x).world, (w.turn x).next ++ stack⟩ := by
  have hnone : ∀ y ∈ ([] : List (Work η)), y.idle ∧ ¬y.drives := fun _ hy ↦
    absurd hy List.not_mem_nil
  cases x with
  | tellCell c current rest =>
    cases rest with
    | nil => exact change_idle (.tellCell c current []) [] (.refl w) rfl hnone stack
    | cons o rest => exact change_tellCell c current o rest stack
  | tellSignal s b rest =>
    cases rest with
    | nil => exact change_idle (.tellSignal s b []) [] (.refl w) rfl hnone stack
    | cons e rest =>
      obtain ⟨ticket, h⟩ := e
      have htell : Change may ⟨w, .tellSignal s b ((ticket, h) :: rest) :: stack⟩ _ _ := .tell
      simp only [atTurn, turn]
      split <;> simpa [*, Turn.calling, Turn.goOn] using htell
  | tellProblem p rest =>
    have hafter : ∀ rest : List (Ticket × η), ∀ y ∈ [Work.tellProblem p rest],
        y.idle ∧ ¬y.drives := fun rest y hy ↦ by
      rw [List.mem_singleton.1 hy]
      exact ⟨trivial, id⟩
    cases rest with
    | nil => exact change_idle (.tellProblem p []) [] (.refl w) trivial hnone stack
    | cons e rest =>
      simp only [atTurn, turn]
      split
      · exact change_idle (.tellProblem p (e :: rest)) [.tellProblem p rest] (.refl w) trivial
          (hafter rest) stack
      · exact change_idle (.tellProblem p (e :: rest)) [.tellProblem p rest] (.refl w) trivial
          (hafter rest) stack
  | tellPublished rest =>
    cases rest with
    | nil => exact change_idle (.tellPublished []) [] (.refl w) trivial hnone stack
    | cons h rest =>
      refine change_idle (.tellPublished (h :: rest)) [.tellPublished rest] (.refl w) trivial
        (fun y hy ↦ ?_) stack
      rw [List.mem_singleton.1 hy]
      exact ⟨trivial, id⟩
  | settle s place => exact change_settle s place stack
  | letGo s => exact change_idle (.letGo s) [] (spares_letGo ho s) trivial hnone stack
  | advance target => exact change_advance ho target stack
  | perform updates locals => exact change_perform ho updates locals stack

/-- A deed that spares the signals and leaves only idle work. -/
theorem change_spared {w' : World η} (left : List (Work η)) (h : Spares w w')
    (hleft : ∀ y ∈ left, y.idle ∧ ¬y.drives) (stack : List (Work η)) :
    Change may ⟨w, stack⟩ [] ⟨w', left ++ stack⟩ :=
  .spare [] left h (fun _ hy ↦ absurd hy List.not_mem_nil) (.inl hleft)

/-- **What a deed can do.** -/
theorem change_deed (ho : w.Orderly) {d : Deed η} {stack : List (Work η)} (hpermits : w.Permits d)
    (hmay : may ⟨w, stack⟩ d) :
    Change may ⟨w, stack⟩ (w.atDeed d) ⟨(w.after d).1, (w.after d).2 ++ stack⟩ := by
  have hnone : ∀ y ∈ ([] : List (Work η)), y.idle ∧ ¬y.drives := fun _ hy ↦
    absurd hy List.not_mem_nil
  cases d with
  | create p => exact change_spared [] (spares_create ho.cells p) hnone stack
  | write c p =>
    have hafter : w.after (.write c p) = (w.write c p).2 := rfl
    have hat : w.atDeed (.write c p) =
        (w.write c p).2.2.filterMap (Work.news w.clock.now) := rfl
    rw [hafter, hat]
    cases hne : w.payload c == p with
    | true =>
      rw [write_of_eq hne]
      exact change_spared [] (.refl w) hnone stack
    | false =>
      rw [write_of_ne hne]
      exact .put [] [] hne (.inl ⟨rfl, rfl, hmay⟩)
  | observe c role => exact change_spared [] (spares_observe hpermits w c) hnone stack
  | cancel sub => exact change_spared [] (spares_cancel hpermits) hnone stack
  | openSignal f => exact .openSignal hpermits
  | subscribe s h => exact .subscribe hpermits
  | hold s => exact change_spared [] (spares_hold w s) hnone stack
  | letGo s => exact change_spared [] (spares_letGo ho s) hnone stack
  | perform updates locals => exact .perform hmay
  | schedule delay h => exact change_spared [] (spares_schedule w delay h) hnone stack
  | cancelTimer id => exact change_spared [] (spares_cancelTimer hpermits) hnone stack
  | advance ms => exact .advance hmay
  | addGlobal key c =>
    simp only [atDeed, after]
    split
    · rename_i w' hadd
      exact change_spared [] (spares_addGlobal hadd) hnone stack
    · exact change_spared [] (.refl w) hnone stack
  | publish =>
    have hspares := spares_publish w
    simp only [atDeed, after]
    unfold World.publish at hspares ⊢
    split
    · exact change_spared [] (.refl w) hnone stack
    · rename_i hpublished
      rw [if_neg hpublished] at hspares
      refine change_spared ([.tellPublished w.hooks]) hspares (fun y hy ↦ ?_) stack
      rw [List.mem_singleton.1 hy]
      exact ⟨trivial, id⟩
  | await h =>
    have hspares := spares_onPublish w h
    simp only [atDeed, after]
    unfold World.onPublish at hspares ⊢
    split
    · refine change_spared ([.tellPublished [h]]) (.refl w) (fun y hy ↦ ?_) stack
      rw [List.mem_singleton.1 hy]
      exact ⟨trivial, id⟩
    · rename_i hpublished
      rw [if_neg hpublished] at hspares
      exact change_spared [] hspares hnone stack
  | listen h => exact change_spared [] (spares_listen w h) hnone stack
  | report p =>
    refine change_spared ([.tellProblem p w.listeners]) (.refl w) (fun y hy ↦ ?_) stack
    rw [List.mem_singleton.1 hy]
    exact ⟨trivial, id⟩

variable {a b : Activity η} {es : List Happening}

/-- **What a step can do.** -/
theorem Step.change (ho : a.world.Orderly) (h : Step may a es b) : Change may a es b := by
  cases h with
  | turn w x stack => exact change_turn ho x stack
  | deed w d stack hpermits hmay => exact change_deed ho hpermits hmay

/-! ### Order in every state -/

theorem orderly_change (ho : a.world.Orderly) (h : Change may a es b) : b.world.Orderly := by
  cases h with
  | spare _ _ hspares => exact ho.spares hspares
  | perform => exact ho
  | advance => exact ho
  | put => exact ho.put _ _
  | openSignal hf => exact ho.openSignal hf
  | subscribe => exact ho.subscribe _ _
  | pass => exact ho
  | tell => exact ho
  | amend hsig hlive how hamends => exact ho.amend hsig hlive how hamends
  | lapse => exact ho
  | ring hdue =>
    obtain ⟨hqueue, hnext, -⟩ := Clock.queue_takeDue? hdue
    refine ho.clockwise (ho.clock.takeDue? hdue) hnext fun t ht ↦ ?_
    rw [hqueue]
    exact List.mem_cons_of_mem _ ht
  | arrive hdue => exact ho.clockwise (ho.clock.moveTo hdue) rfl fun _ ht ↦ ht

/-- **A world that is in order stays so in every run.** -/
theorem Run.orderly (h : Run may a es b) (ho : a.world.Orderly) : b.world.Orderly :=
  h.invariant (fun ho step ↦ orderly_change ho (step.change ho)) ho

/-- What every change keeps in worlds that are in order, a run keeps. -/
theorem Run.keeps {P : Activity η → Prop}
    (hchange : ∀ {a b es}, a.world.Orderly → P a → Change may a es b → P b) (h : Run may a es b)
    (ho : a.world.Orderly) (ha : P a) : P b := by
  have hboth := h.invariant (P := fun a ↦ a.world.Orderly ∧ P a)
    (fun ⟨ho, ha⟩ step ↦ ⟨orderly_change ho (step.change ho), hchange ho ha (step.change ho)⟩)
    ⟨ho, ha⟩
  exact hboth.2

/-- What every change keeps in worlds that are in order, with what has happened so far, a run keeps.
-/
theorem Run.keepsLog {P : List Happening → Activity η → Prop}
    (hchange : ∀ {a b es es'}, a.world.Orderly → P es a → Change may a es' b → P (es ++ es') b)
    (h : Run may a es b) (ho : a.world.Orderly) (ha : P [] a) : P es b := by
  induction h with
  | refl => exact ha
  | tail run step ih => exact hchange (run.orderly ho) ih (step.change (run.orderly ho))

/-! ### Signals that stay -/

/-- A circuit goes on being the circuit of its signal, but for a leaf that may have changed. -/
theorem signal_of_change (h : Change may a es b) {s : SignalId} (hs : s < a.world.signals.next)
    {sig' : Signal η} (hsig' : b.world.signals.get? s = some sig') :
    ∃ sig, a.world.signals.get? s = some sig ∧
      (sig'.circuit = sig.circuit ∨ ∃ place g, (∀ live, LiveTerm.term (g live) = live.term) ∧
        sig'.circuit = sig.circuit.amend g place) := by
  cases h with
  | spare _ _ hspares =>
    obtain ⟨sig, hsig, hcircuit, -⟩ := hspares.signal s sig' hsig'
    exact ⟨sig, hsig, .inl hcircuit⟩
  | openSignal =>
    rw [get?_openSignal, if_neg (Nat.ne_of_gt hs)] at hsig'
    exact ⟨sig', hsig', .inl rfl⟩
  | subscribe =>
    obtain ⟨sig, hsig, hcircuit⟩ := circuit_of_subscribe hsig'
    exact ⟨sig, hsig, .inl hcircuit⟩
  | amend hsig hlive how hamends =>
    rcases hamends.cases hsig hsig' with ⟨rfl, hcircuit, -⟩ | ⟨-, hold⟩
    · exact ⟨_, hsig, .inr ⟨_, _, how.term_eq, hcircuit⟩⟩
    · exact ⟨sig', hold, .inl rfl⟩
  | _ => exact ⟨sig', hsig', .inl rfl⟩

theorem next_of_change (h : Change may a es b) : a.world.signals.next ≤ b.world.signals.next := by
  cases h with
  | spare _ _ hspares => exact hspares.next
  | openSignal =>
    rw [(attaches_openSignal _ _).signals]
    exact Nat.le_succ _
  | amend _ _ _ hamends => exact Nat.le_of_eq hamends.next.symm
  | _ => exact Nat.le_refl _

/-- The number stands for a formula: it has been given out, and as long as its signal lives the
circuit keeps the formula. -/
structure StandsFor (f : Formula (Term CellId)) (s : SignalId) (a : Activity η) : Prop where
  given : s < a.world.signals.next
  keeps : ∀ sig, a.world.signals.get? s = some sig → Circuit.Keeps f sig.circuit

theorem standsFor_openSignal (f : Formula (Term CellId)) (w : World η) (stack : List (Work η)) :
    StandsFor f w.signals.next ⟨(w.openSignal f).2, stack⟩ where
  given := by
    rw [(attaches_openSignal w f).signals]
    exact Nat.lt_succ_self _
  keeps := fun sig hsig ↦ by
    rw [get?_openSignal, if_pos rfl] at hsig
    cases hsig
    exact Circuit.keeps_build (fun _ ↦ rfl) f

theorem standsFor_change {f : Formula (Term CellId)} {s : SignalId} (hs : StandsFor f s a)
    (h : Change may a es b) : StandsFor f s b where
  given := Nat.lt_of_lt_of_le hs.given (next_of_change h)
  keeps := fun sig' hsig' ↦ by
    obtain ⟨sig, hsig, hcircuit | ⟨place, g, hg, hcircuit⟩⟩ := signal_of_change h hs.given hsig'
    · exact hcircuit ▸ hs.keeps sig hsig
    · exact hcircuit ▸ (hs.keeps sig hsig).amend hg place

/-- **A signal goes on standing for its formula**, and its number is never given to another. -/
theorem Run.standsFor (h : Run may a es b) (ho : a.world.Orderly) {f : Formula (Term CellId)}
    {s : SignalId} (hs : StandsFor f s a) : StandsFor f s b :=
  h.keeps (fun _ hs hchange ↦ standsFor_change hs hchange) ho hs

/-! ### What is kept of work and observers -/

/-- How a piece of work that is there after a change has come to be there. -/
inductive Arises (a b : Activity η) : Work η → Prop
  | kept {x : Work η} (h : x ∈ a.stack) : Arises a b x
  | idle {x : Work η} (hidle : x.idle) (hdrives : ¬x.drives) : Arises a b x
  | perform (updates : List (Update CellId)) (locals : ValueMap) :
      Arises a b (.perform updates locals)
  | advance (ms : UInt64) (h : b.world = a.world) :
      Arises a b (.advance (addUpTo a.world.clock.now ms))
  /-- A payload has been put into the cell. -/
  | put (c : CellId) (p : Payload) (h : b.world = a.world.put c p) :
      Arises a b (.tellCell c none (a.world.observers c))
  /-- One of those to be told has had his turn. -/
  | next {c : CellId} {current : Option (Observer η)} {o : Observer η} {rest : List (Observer η)}
      (h : .tellCell c current (o :: rest) ∈ a.stack) : Arises a b (.tellCell c (some o) rest)
  | told {s : SignalId} {truth : Bool} {e : Ticket × η} {rest : List (Ticket × η)}
      (h : .tellSignal s truth (e :: rest) ∈ a.stack) : Arises a b (.tellSignal s truth rest)
  /-- The signal has turned. -/
  | turned {s : SignalId} {sig : Signal η} (truth : Bool) (h : a.world.signals.get? s = some sig) :
      Arises a b (.tellSignal s truth sig.subscribers)
  | settle {s : SignalId} (place : Nat) (h : a.world.Lives s) : Arises a b (.settle s place)

theorem arises_of_tidings {s : SignalId} {sig : Signal η} {circuit : Circuit}
    (hsig : a.world.signals.get? s = some sig) :
    ∀ x ∈ tidings s sig circuit, Arises a b x := by
  intro x hx
  unfold tidings at hx
  split at hx
  · cases hx
  · simp only [List.mem_cons, List.not_mem_nil, or_false] at hx
    rcases hx with rfl | rfl
    · exact .turned _ hsig
    · exact .idle trivial id

theorem arises_of_amendment {w : World η} {s : SignalId} {place : Nat} {live : LiveTerm}
    {begun left : List (Work η)} {g : LiveTerm → LiveTerm} {k : Clock (Task η)}
    {news : List Happening} {stack : List (Work η)} (hlives : w.Lives s)
    (how : Amendment w s place live begun g k left news) :
    ∀ x ∈ left, Arises ⟨w, begun ++ stack⟩ b x := by
  intro x hx
  cases how with
  | look =>
    rw [List.mem_singleton.1 hx]
    exact .next List.mem_cons_self
  | restart held _ _ hheld =>
    rcases List.mem_cons.1 hx with rfl | hx
    · exact .settle place hlives
    · rcases List.mem_append.1 hx with hx | hx
      · rw [hheld x hx]
        exact .idle trivial id
      · rw [List.mem_singleton.1 hx]
        exact .next List.mem_cons_self
  | flash => cases hx
  | arm => cases hx
  | expire => exact .kept (List.mem_append_left _ hx)

/-- **Where work comes from.** -/
theorem arises_of_change (h : Change may a es b) {x : Work η} (hx : x ∈ b.stack) :
    Arises a b x := by
  cases h with
  | spare begun left hspares hbegun hleft =>
    rcases List.mem_append.1 hx with hx | hx
    · rcases hleft with hleft | ⟨us, us', locals, rfl, rfl⟩
      · exact .idle (hleft x hx).1 (hleft x hx).2
      · rw [List.mem_singleton.1 hx]
        exact .perform _ _
    · exact .kept (List.mem_append_right _ hx)
  | perform =>
    rcases List.mem_cons.1 hx with rfl | hx
    · exact .perform _ _
    · exact .kept hx
  | advance =>
    rcases List.mem_cons.1 hx with rfl | hx
    · exact .advance _ rfl
    · exact .kept hx
  | put begun left hne hby =>
    rcases List.mem_cons.1 hx with rfl | hx
    · exact .put _ _ rfl
    · rcases hby with ⟨rfl, rfl, -⟩ | ⟨us, us', locals, rfl, rfl⟩
      · exact .kept hx
      · rcases List.mem_cons.1 hx with rfl | hx
        · exact .perform _ _
        · exact .kept (List.mem_cons_of_mem _ hx)
  | openSignal => exact .kept hx
  | subscribe => exact .kept hx
  | pass =>
    rcases List.mem_cons.1 hx with rfl | hx
    · exact .next List.mem_cons_self
    · exact .kept (List.mem_cons_of_mem _ hx)
  | tell =>
    rcases List.mem_cons.1 hx with rfl | hx
    · exact .told List.mem_cons_self
    · exact .kept (List.mem_cons_of_mem _ hx)
  | amend hsig hlive how =>
    rcases List.mem_append.1 hx with hx | hx
    · exact arises_of_tidings hsig x hx
    · rcases List.mem_append.1 hx with hx | hx
      · exact arises_of_amendment (Option.isSome_iff_exists.2 ⟨_, hsig⟩) how x hx
      · exact .kept (List.mem_append_right _ hx)
  | lapse => exact .kept (List.mem_cons_of_mem _ hx)
  | ring => exact .kept hx
  | arrive => exact .kept (List.mem_cons_of_mem _ hx)

/-- A signal whose number had been given out lived before. -/
theorem lives_of_change (h : Change may a es b) {s : SignalId} (hs : s < a.world.signals.next)
    (hlives : b.world.Lives s) : a.world.Lives s := by
  obtain ⟨sig', hsig'⟩ := Option.isSome_iff_exists.1 hlives
  obtain ⟨sig, hsig, -⟩ := signal_of_change h hs hsig'
  exact Option.isSome_iff_exists.2 ⟨sig, hsig⟩

/-- The observers of a signal stay as long as it lives. -/
theorem observers_of_change (h : Change may a es b) {s : SignalId} (hlives : b.world.Lives s)
    {c : CellId} {o : Observer η} (hmem : o ∈ a.world.observers c) (hserves : o.serves s = true) :
    o ∈ b.world.observers c := by
  cases h with
  | spare _ _ hspares =>
    have hfilter := List.mem_filter.2 ⟨hmem, hserves⟩
    rw [← hspares.observers s hlives c] at hfilter
    exact List.mem_of_mem_filter hfilter
  | put => exact (observers_put _ _ _ c).symm ▸ hmem
  | openSignal =>
    obtain ⟨added, heq, -⟩ := observers_openSignal _ _ c
    exact heq ▸ List.mem_append_left _ hmem
  | amend _ _ _ hamends => exact (observers_of_cells hamends.cells c).symm ▸ hmem
  | _ => exact hmem

/-- Whoever is still to be told of a change and looks for a signal, still observes the cell if the
signal lives; and whatever work there is is for signals that there have been. -/
structure Attended (a : Activity η) : Prop where
  told : ∀ c current rest, .tellCell c current rest ∈ a.stack → ∀ o ∈ rest,
    ∀ s place, o.role = .term s place →
      s < a.world.signals.next ∧ (a.world.Lives s → o ∈ a.world.observers c)
  settled : ∀ s place, .settle s place ∈ a.stack → s < a.world.signals.next

theorem attended_nil (w : World η) : Attended ⟨w, []⟩ :=
  ⟨fun _ _ _ h ↦ absurd h List.not_mem_nil, fun _ _ h ↦ absurd h List.not_mem_nil⟩

theorem attended_change (ho : a.world.Orderly) (ha : Attended a) (h : Change may a es b) :
    Attended b where
  told := fun c current rest hmem o hrest s place hrole ↦ by
    have hnext := next_of_change h
    have hkept : ∀ current' rest', .tellCell c current' rest' ∈ a.stack → o ∈ rest' →
        s < b.world.signals.next ∧ (b.world.Lives s → o ∈ b.world.observers c) := by
      intro current' rest' hmem' hrest'
      obtain ⟨hs, hobserves⟩ := ha.told c current' rest' hmem' o hrest' s place hrole
      refine ⟨Nat.lt_of_lt_of_le hs hnext, fun hlives ↦ ?_⟩
      exact observers_of_change h hlives (hobserves (lives_of_change h hs hlives))
        (Observer.serves_iff.2 ⟨place, hrole⟩)
    cases arises_of_change h hmem with
    | kept hmem' => exact hkept current rest hmem' hrest
    | idle hidle =>
      have hnil : rest = [] := hidle
      rw [hnil] at hrest
      cases hrest
    | put _ p hworld =>
      refine ⟨Nat.lt_of_lt_of_le (ho.looks c o hrest s place hrole) hnext, fun _ ↦ ?_⟩
      rw [hworld, observers_put]
      exact hrest
    | next hmem' => exact hkept _ _ hmem' (List.mem_cons_of_mem _ hrest)
  settled := fun s place hmem ↦ by
    have hnext := next_of_change h
    cases arises_of_change h hmem with
    | kept hmem' => exact Nat.lt_of_lt_of_le (ha.settled s place hmem') hnext
    | idle hidle => exact hidle.elim
    | settle _ hlives =>
      obtain ⟨sig, hsig⟩ := Option.isSome_iff_exists.1 hlives
      exact Nat.lt_of_lt_of_le (ho.signals s sig hsig) hnext

/-- **Whoever is still to be told is still there**, in every state of every run. -/
theorem Run.attended (h : Run may a es b) (ho : a.world.Orderly) (ha : Attended a) : Attended b :=
  h.keeps (fun ho ha hchange ↦ attended_change ho ha hchange) ho ha

/-! ### Cells -/

/-- A cell stays. -/
theorem hasCell_of_change (h : Change may a es b) {c : CellId} (hc : a.world.HasCell c) :
    b.world.HasCell c := by
  cases h with
  | spare _ _ hspares => exact (hspares.payload c hc).1
  | @put w d p => exact (hasCell_put w d p c).2 hc
  | openSignal => exact ((attaches_openSignal _ _).hasCell c).2 hc
  | amend _ _ _ hamends =>
    rw [HasCell, hamends.cells]
    exact hc
  | _ => exact hc

theorem Run.hasCell (h : Run may a es b) (ho : a.world.Orderly) {c : CellId}
    (hc : a.world.HasCell c) : b.world.HasCell c :=
  h.keeps (P := fun a ↦ a.world.HasCell c) (fun _ hc hchange ↦ hasCell_of_change hchange hc) ho hc

/-! ### Global state -/

theorem globals_of_change (h : Change may a es b) (hpublished : a.world.published = true) :
    b.world.published = true ∧ b.world.globals = a.world.globals := by
  cases h with
  | spare _ _ hspares => exact hspares.globals hpublished
  | openSignal =>
    have hattach := attaches_openSignal (η := η)
    exact ⟨(hattach _ _).published.trans hpublished, (hattach _ _).globals⟩
  | amend _ _ _ hamends => exact ⟨hamends.published.trans hpublished, hamends.globals⟩
  | _ => exact ⟨hpublished, rfl⟩

/-- Once published, the global state stays as it is. -/
theorem Run.globals (h : Run may a es b) (ho : a.world.Orderly)
    (hpublished : a.world.published = true) :
    b.world.published = true ∧ b.world.globals = a.world.globals := by
  have hkept := h.keeps (P := fun b ↦ b.world.published = true ∧ b.world.globals = a.world.globals)
    (fun _ hb hchange ↦ by
      obtain ⟨hpublished', hglobals⟩ := globals_of_change hchange hb.1
      exact ⟨hpublished', hglobals.trans hb.2⟩)
    ho ⟨hpublished, rfl⟩
  exact hkept

end Activity

end LiveTemplate.Engine
