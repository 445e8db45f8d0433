import LiveTemplate.Proofs.Enlisting
import LiveTemplate.Proofs.Finding
import LiveTemplate.Proofs.Freshness
import LiveTemplate.Proofs.Passing
import LiveTemplate.Session.Listening

/-!
# Who is called, and what he is shown

A payload that is put into a cell begins a *pass*: a piece of work with the list of those who
observe the cell at that time. Its turns come one by one, and between two of them anything may
happen, since whoever is called may change the cell again, which begins another pass on top of this
one, and may let observers come and go.

All the same a pass goes through its list from the first to the last, and at each turn the observer
is called exactly if it is still there (`Pass`, `History.passing`). What this rests on is only that
a piece of work stays where it is until it is the first (`Passing.moment`).

Whoever is called is shown what the cell holds then, which is not what it held when the pass began
if there has been another change. So in every state of every history, who observes a cell has last
been shown what it holds, or is still to be called (`History.upToDate`); and once no pass is left,
all have been shown it (`Notifies`).
-/

namespace LiveTemplate.Engine

open World

variable {η : Type}

/-! ### Calls -/

/-- What it comes to that an observer of a cell is called: it is told what the cell holds now, or
what the cells of its map hold, or it looks at its term again. -/
def World.call (w : World η) (c : CellId) (o : Observer η) (left : Work η) : Turn η :=
  match o.role with
  | .handler h => .calling w h (.payload (w.payload c)) [left]
  | .watcher h args => .calling w h (.arguments (args.map w.payload)) [left]
  | .term s place => .goOn (w.refresh s place).1 ((w.refresh s place).2 ++ [left])

/-- **Whose turn it is is called if it is still there**, and passed over otherwise. -/
theorem World.turn_tellCell (w : World η) (c : CellId) (current : Option (Observer η))
    (o : Observer η) (rest : List (Observer η)) :
    w.turn (.tellCell c current (o :: rest)) =
      if w.observes c o.ticket then w.call c o (.tellCell c (some o) rest)
      else .goOn w [.tellCell c (some o) rest] := by
  cases hrole : o.role <;> simp only [turn, call, hrole]

/-- After a turn of a pass the rest of the pass is left, below whatever the turn has brought. -/
theorem World.exists_next_tellCell (w : World η) (c : CellId) (current : Option (Observer η))
    (o : Observer η) (rest : List (Observer η)) :
    ∃ works, (w.turn (.tellCell c current (o :: rest))).next =
      works ++ [.tellCell c (some o) rest] := by
  rw [turn_tellCell]
  split
  · unfold call
    split
    · exact ⟨[], rfl⟩
    · exact ⟨[], rfl⟩
    · exact ⟨_, rfl⟩
  · exact ⟨[], rfl⟩

namespace Activity

namespace Moment

/-- Whether a payload is put into a cell at a moment. -/
def Puts (c : CellId) (m : Moment η) : Prop := ∃ time, .changed c time ∈ m.news

/-- The observer of a cell whose turn it is, in a pass that has some number of pieces of work below
it. -/
def turnOf (c : CellId) (below : Nat) : Moment η → Option (Observer η)
  | turn _ (.tellCell c' _ (o :: _)) stack =>
    if c' = c ∧ stack.length = below then some o else none
  | _ => none

/-- The observer of a cell that is called at a moment. -/
def called (c : CellId) : Moment η → Option (Observer η)
  | turn w (.tellCell c' _ (o :: _)) _ => if c' = c ∧ w.observes c o.ticket then some o else none
  | _ => none

/-- Whether a moment is that at which someone begins to observe a cell. -/
def enlists (c : CellId) (ticket : Ticket) (m : Moment η) : Bool :=
  m.after.world.observes c ticket && !m.before.world.observes c ticket

/-- What an observer of a cell is shown at a moment: what the cell holds, if it is called or just
begins to observe. -/
def shown (c : CellId) (ticket : Ticket) (m : Moment η) : Option Payload :=
  if (m.called c).any (·.ticket == ticket) then some (m.before.world.payload c)
  else if m.enlists c ticket then some (m.after.world.payload c)
  else none

end Moment

/-- What an observer of a cell was last shown. -/
def lastShown (c : CellId) (ticket : Ticket) (ms : List (Moment η)) : Option Payload :=
  (ms.filterMap (·.shown c ticket)).getLast?

/-! ### Passes -/

/-- How far a pass over observers has come. All its moments are above the work below it; the turns
among them are those of the observers from the first on, and at its turn an observer is called if it
is still there. -/
structure Pass (c : CellId) (base : List (Work η)) (due : List (Observer η))
    (ms : List (Moment η)) (rest : List (Observer η)) : Prop where
  above : ∀ m ∈ ms, base.length < m.height
  order : ms.filterMap (·.turnOf c base.length) ++ rest = due
  turns : ∀ m ∈ ms, ∀ o, m.turnOf c base.length = some o → ∃ w current others,
    m = .turn w (.tellCell c current (o :: others)) base ∧
    m.called c = if w.observes c o.ticket then some o else none

/-- What has come of a pass: it is still going on, or it was over at some moment. -/
inductive Passing (c : CellId) (base : List (Work η)) (due : List (Observer η)) :
    List (Moment η) → Activity η → Prop
  | going {ms : List (Moment η)} {b : Activity η} {rest : List (Observer η)}
      (above : List (Work η)) (current : Option (Observer η)) (h : Pass c base due ms rest)
      (hstack : b.stack = above ++ .tellCell c current rest :: base) : Passing c base due ms b
  | ended {done later : List (Moment η)} {b : Activity η} (h : Pass c base due done [])
      (hlater : later = [] ∧ b.stack = base ∨ ∃ m ms, later = m :: ms ∧ m.before.stack = base) :
      Passing c base due (done ++ later) b

variable {c : CellId} {base : List (Work η)} {due rest : List (Observer η)}
  {may : Activity η → Deed η → Prop} {a b : Activity η} {ms : List (Moment η)} {m : Moment η}
  {ticket : Ticket}

/-- A moment of a pass at which it is not at its own turn. -/
theorem Pass.aside (h : Pass c base due ms rest) (habove : base.length < m.height)
    (hm : m.turnOf c base.length = none) : Pass c base due (ms ++ [m]) rest where
  above := fun m' hm' ↦ by
    rcases List.mem_append.1 hm' with hm' | hm'
    · exact h.above m' hm'
    · rwa [List.mem_singleton.1 hm']
  order := by
    rw [List.filterMap_append, List.filterMap_cons_none hm, List.filterMap_nil, List.append_nil]
    exact h.order
  turns := fun m' hm' o ho ↦ by
    rcases List.mem_append.1 hm' with hm' | hm'
    · exact h.turns m' hm' o ho
    · rw [List.mem_singleton.1 hm', hm] at ho
      cases ho

/-- A turn of a pass. -/
theorem Pass.turn {o : Observer η} (h : Pass c base due ms (o :: rest)) (w : World η)
    (current : Option (Observer η)) :
    Pass c base due (ms ++ [.turn w (.tellCell c current (o :: rest)) base]) rest where
  above := fun m hm ↦ by
    rcases List.mem_append.1 hm with hm | hm
    · exact h.above m hm
    · rw [List.mem_singleton.1 hm]
      exact Nat.lt_succ_self _
  order := by
    have hturn : (Moment.turn w (.tellCell c current (o :: rest)) base).turnOf c base.length =
        some o := if_pos ⟨rfl, rfl⟩
    rw [List.filterMap_append, List.filterMap_cons_some hturn, List.filterMap_nil,
      List.append_assoc]
    exact h.order
  turns := fun m hm o' ho' ↦ by
    rcases List.mem_append.1 hm with hm | hm
    · exact h.turns m hm o' ho'
    · rw [List.mem_singleton.1 hm] at ho' ⊢
      have heq : o = o' := Option.some.inj ((if_pos ⟨rfl, rfl⟩).symm.trans ho')
      subst heq
      exact ⟨w, current, rest, rfl, by simp [Moment.called]⟩

/-- A turn of other work, above that of a pass, is none of its turns. -/
theorem Moment.turnOf_of_lt {w : World η} {x : Work η} {stack : List (Work η)}
    (h : base.length < stack.length) : (Moment.turn w x stack).turnOf c base.length = none := by
  unfold turnOf
  split
  · rename_i heq
    cases heq
    exact if_neg fun hboth ↦ Nat.ne_of_gt h hboth.2
  · rfl

/-- A pass that is at its turn goes on, or ends if nobody is left. -/
theorem Pass.passing_turn (h : Pass c base due ms rest) (w : World η)
    (current : Option (Observer η)) :
    Passing c base due (ms ++ [.turn w (.tellCell c current rest) base])
      (Moment.turn w (.tellCell c current rest) base).after := by
  cases rest with
  | nil =>
    have hlast := h.aside (m := .turn w (.tellCell c current []) base)
      (Nat.lt_succ_self base.length) rfl
    exact List.append_nil (ms ++ [_]) ▸ .ended hlast (.inl ⟨rfl, rfl⟩)
  | cons o rest =>
    obtain ⟨works, hnext⟩ := w.exists_next_tellCell c current o rest
    refine .going works (some o) (h.turn w current) ?_
    show (w.turn _).next ++ base = _
    rw [hnext, List.append_assoc]
    rfl

/-- **A pass goes on**, whatever the next moment is. -/
theorem Passing.moment (h : Passing c base due ms m.before) :
    Passing c base due (ms ++ [m]) m.after := by
  generalize hb : m.before = b at h
  cases h with
  | @going ms _ rest above current h hbefore =>
    subst hb
    rcases Moment.place hbefore with ⟨w, rfl, rfl⟩ | ⟨w, x, above, rfl, rfl⟩ | ⟨w, d, rfl⟩
    · exact h.passing_turn w current
    · have hlt := length_lt_above above (.tellCell c current rest) base
      exact .going ((w.turn x).next ++ above) current
        (h.aside (Nat.lt_succ_of_lt hlt) (Moment.turnOf_of_lt hlt)) (List.append_assoc ..).symm
    · exact .going ((w.after d).2 ++ above) current (h.aside (length_lt_above ..) rfl)
        (List.append_assoc ..).symm
  | @ended done later _ h hlater =>
    rw [List.append_assoc]
    refine .ended h (.inr ?_)
    rcases hlater with ⟨rfl, hstack⟩ | ⟨m', later, rfl, hstack⟩
    · exact ⟨m, [], rfl, hb ▸ hstack⟩
    · exact ⟨m', later ++ [m], rfl, hstack⟩

/-- **Every pass goes through those who are due**, from the first on, whatever happens meanwhile. -/
theorem History.passing {w : World η} {current : Option (Observer η)}
    (h : History may ⟨w, .tellCell c current due :: base⟩ ms b) : Passing c base due ms b := by
  induction h with
  | refl =>
    have hpass : Pass c base due [] due :=
      ⟨fun _ h ↦ absurd h List.not_mem_nil, rfl, fun _ h ↦ absurd h List.not_mem_nil⟩
    exact .going [] current hpass rfl
  | tail m _ _ ih => exact ih.moment

/-! ### Who has gone -/

theorem Moment.observes_of_called {o : Observer η} (h : m.called c = some o) :
    m.before.world.observes c o.ticket = true := by
  unfold Moment.called at h
  split at h
  · split at h
    · rename_i hobserves
      obtain rfl := Option.some.inj h
      exact hobserves.2
    · cases h
  · cases h

theorem Moment.world_enlists {m : Moment η} (ho : m.before.world.Orderly) (hm : m.Allowed may) :
    Enlists m.before.world m.after.world :=
  (Moment.step hm).enlists ho

/-- **Who does not observe is not called**, if its ticket has been given out: it has gone, and does
not come back. -/
theorem History.not_called (h : History may a ms b) (ho : a.world.Orderly)
    (hgiven : ticket < a.world.nextTicket) (hgone : a.world.observes c ticket = false)
    (hm : m ∈ ms) {o : Observer η} (hcalled : m.called c = some o) : o.ticket ≠ ticket := by
  rintro rfl
  obtain ⟨before, later, rfl⟩ := List.append_of_mem hm
  have hstays := (h.at_moment.1.run.enlists ho).stays_gone hgiven hgone
  rw [Moment.observes_of_called hcalled] at hstays
  cases hstays

/-- **Who has stopped observing is never called again.** -/
theorem History.never_called {a' : Activity η} (h : History may a' ms b) (ho : a'.world.Orderly)
    (hw : a.world.Ranked) (henlists : Enlists a.world a'.world)
    (hwas : a.world.observes c ticket = true) (hgone : a'.world.observes c ticket = false) :
    ∀ m ∈ ms, ∀ o, m.called c = some o → o.ticket ≠ ticket := by
  obtain ⟨o, hmem, rfl⟩ := observes_iff.1 hwas
  have hgiven := Nat.lt_of_lt_of_le (hw.given c o hmem) henlists.tickets
  exact fun m hm o' ho' ↦ h.not_called ho hgiven hgone hm ho'

/-! ### What was last shown -/

theorem lastShown_concat (c : CellId) (ticket : Ticket) (ms : List (Moment η)) (m : Moment η) :
    lastShown c ticket (ms ++ [m]) = (m.shown c ticket).or (lastShown c ticket ms) := by
  unfold lastShown
  rw [List.filterMap_append, List.getLast?_append]
  cases hshown : m.shown c ticket with
  | none => rw [List.filterMap_cons_none hshown]; rfl
  | some p => rw [List.filterMap_cons_some hshown]; rfl

/-- Whoever observes a cell has last been shown what it holds, or is still to be called. -/
def UpToDate (ms : List (Moment η)) (a : Activity η) : Prop :=
  ∀ c, ∀ o ∈ a.world.observers c, lastShown c o.ticket ms = some (a.world.payload c) ∨
    ∃ current rest, .tellCell c current rest ∈ a.stack ∧ o ∈ rest

theorem Moment.not_observes_of_enlists (h : m.enlists c ticket = true) :
    m.before.world.observes c ticket = false :=
  Bool.not_eq_true' _ ▸ (Bool.and_eq_true_iff.1 h).2

/-- Who begins to observe is shown what the cell holds. -/
theorem Moment.shown_of_enlists (h : m.enlists c ticket = true) :
    m.shown c ticket = some (m.after.world.payload c) := by
  have hbefore := not_observes_of_enlists h
  have hcalled : (m.called c).any (·.ticket == ticket) = false := by
    rw [Option.any_eq_false]
    intro o ho
    refine beq_eq_false_iff_ne.2 ?_
    rintro rfl
    rw [observes_of_called ho] at hbefore
    cases hbefore
  rw [shown, if_neg (Bool.eq_false_iff.1 hcalled), if_pos h]

/-- Who observes the cell already is shown what it holds, if anything. -/
theorem Moment.shown_of_observes (h : m.before.world.observes c ticket = true) :
    m.shown c ticket = none ∨ m.shown c ticket = some (m.before.world.payload c) := by
  unfold shown
  split
  · exact .inr rfl
  · rw [if_neg]
    · exact .inl rfl
    · rw [enlists, h]
      simp

/-- Who is still to be called is called at the moment, or is to be called after it. -/
theorem Moment.called_or_awaited {o : Observer η} {current : Option (Observer η)}
    (hmem : .tellCell c current rest ∈ m.before.stack) (ho : o ∈ rest)
    (hobserves : m.before.world.observes c o.ticket = true) :
    m.called c = some o ∨
      ∃ current' rest', .tellCell c current' rest' ∈ m.after.stack ∧ o ∈ rest' := by
  cases m with
  | deed w d stack => exact .inr ⟨current, rest, List.mem_append_right _ hmem, ho⟩
  | turn w x stack =>
    rcases List.mem_cons.1 hmem with rfl | hmem
    · cases rest with
      | nil => exact absurd ho List.not_mem_nil
      | cons first rest =>
        rcases List.mem_cons.1 ho with rfl | ho
        · exact .inl (if_pos ⟨rfl, hobserves⟩)
        · obtain ⟨works, hnext⟩ := w.exists_next_tellCell c current first rest
          refine .inr ⟨some first, rest, ?_, ho⟩
          show _ ∈ (w.turn _).next ++ stack
          rw [hnext]
          simp
    · exact .inr ⟨current, rest, List.mem_append_right _ hmem, ho⟩

/-- **Every moment keeps observers up to date.** -/
theorem upToDate_moment (ho : m.before.world.Orderly) (hw : m.before.world.Ranked)
    (hm : m.Allowed may) (h : UpToDate ms m.before) : UpToDate (ms ++ [m]) m.after := by
  intro c o hmem
  rw [lastShown_concat]
  have henlists := Moment.world_enlists ho hm
  rcases henlists.mem hmem with hold | hnew
  · have hobserves : m.before.world.observes c o.ticket = true := observes_iff.2 ⟨o, hold, rfl⟩
    have hcell := hasCell_of_mem_observers hold
    rcases payload_of_change ((Moment.step hm).change ho) hcell with hsame | ⟨p, stack, hput, -⟩
    · rw [hsame]
      rcases Moment.shown_of_observes hobserves with hshown | hshown
      · rw [hshown, Option.none_or]
        refine (h c o hold).imp_right fun ⟨current, rest, hmem, ho⟩ ↦ ?_
        refine (Moment.called_or_awaited hmem ho hobserves).resolve_left fun hcalled ↦ ?_
        simp [Moment.shown, hcalled] at hshown
      · rw [hshown, Option.some_or]
        exact .inl rfl
    · -- The change begins a pass in which its turn will come.
      rw [hput]
      exact .inr ⟨none, _, List.mem_cons_self, hold⟩
  · have hbefore : m.before.world.observes c o.ticket = false :=
      observes_eq_false.2 fun o' ho' ↦ Nat.ne_of_lt (Nat.lt_of_lt_of_le (hw.given c o' ho') hnew)
    have hnews : m.enlists c o.ticket = true := by
      rw [Moment.enlists, hbefore, observes_iff.2 ⟨o, hmem, rfl⟩]
      rfl
    rw [Moment.shown_of_enlists hnews, Option.some_or]
    exact .inl rfl

/-- **Observers are kept up to date**, whatever goes on. -/
theorem History.upToDate {w : World η} (h : History may ⟨w, []⟩ ms b) (ho : w.Orderly)
    (hbare : ∀ c, w.observers c = []) : UpToDate ms b := by
  have hboth := h.keeps (P := fun ms a ↦ a.world.Ranked ∧ UpToDate ms a)
    (fun ho hm ⟨hw, hdate⟩ ↦
      ⟨hw.enlists (Moment.world_enlists ho hm), upToDate_moment ho hw hm hdate⟩)
    ho ⟨ranked_of_bare hbare, fun c o hmem ↦ ?_⟩
  · exact hboth.2
  · rw [hbare] at hmem
    exact absurd hmem List.not_mem_nil

/-! ### What observers can rely on -/

/-- What the observers of cells can rely on in a history that has come to some state. -/
structure Notifies (ms : List (Moment η)) (b : Activity η) : Prop where
  /-- What a cell holds changes only as a payload is put into it, and that one differs. -/
  puts : ∀ m ∈ ms, ∀ c, m.before.world.HasCell c →
    (m.after.world.payload c ≠ m.before.world.payload c → m.Puts c) ∧
    (m.Puts c → (m.before.world.payload c == m.after.world.payload c) = false)
  /-- Each change runs one pass over those who observe the cell at the change, in the order in which
  they came, on top of all that was still to be done. -/
  passes : ∀ before m later, ms = before ++ m :: later → ∀ c, m.Puts c →
    ((m.before.world.observers c).map Observer.ticket).Pairwise (· < ·) ∧
    ∃ base, m.after.stack = .tellCell c none (m.before.world.observers c) :: base ∧
      Passing c base (m.before.world.observers c) later b
  /-- Who has stopped observing is never called again. -/
  gone : ∀ before m later, ms = before ++ m :: later → ∀ c ticket,
    m.before.world.observes c ticket = true → m.after.world.observes c ticket = false →
      ∀ m' ∈ later, ∀ o, m'.called c = some o → o.ticket ≠ ticket
  /-- Nor is anybody whom a teardown holds, if it fires. -/
  fired : ∀ t : Teardown, (∀ sub ∈ t.held, b.world.Permits (.cancel sub)) → ∀ c ticket,
    .ofCell c ticket ∈ t.held → b.world.observes c ticket = true → ∀ later b',
      History anything ⟨(t.fire b.world).2, b.stack⟩ later b' →
        ∀ m ∈ later, ∀ o, m.called c = some o → o.ticket ≠ ticket
  /-- Who begins to observe after a change is not due in its pass, and has been shown what the cell
  holds. -/
  comes : ∀ before m between m' later, ms = before ++ m :: (between ++ m' :: later) →
    ∀ c ticket, m'.enlists c ticket = true →
      (∀ o ∈ m.before.world.observers c, o.ticket ≠ ticket) ∧
      m'.shown c ticket = some (m'.after.world.payload c)
  /-- When no pass of a cell is left, all who observe it have last been shown what it holds. -/
  quiet : ∀ c, (∀ current rest, .tellCell c current rest ∈ b.stack → rest = []) →
    ∀ o ∈ b.world.observers c, lastShown c o.ticket ms = some (b.world.payload c)

/-- Who begins to observe has a ticket that is given out at the moment. -/
theorem Moment.le_of_enlists (ho : m.before.world.Orderly) (hm : m.Allowed may)
    (h : m.enlists c ticket = true) : m.before.world.nextTicket ≤ ticket := by
  obtain ⟨o, hmem, rfl⟩ := observes_iff.1 (Bool.and_eq_true_iff.1 h).1
  refine ((Moment.world_enlists ho hm).mem hmem).resolve_left fun hold ↦ ?_
  exact observes_eq_false.1 (not_observes_of_enlists h) o hold rfl

theorem Moment.after_of_puts (ho : m.before.world.Orderly) (hm : m.Allowed may) (h : m.Puts c) :
    ∃ p stack, (m.before.world.payload c == p) = false ∧
      m.after = ⟨m.before.world.put c p, .tellCell c none (m.before.world.observers c) :: stack⟩ := by
  obtain ⟨time, hchanged⟩ := h
  obtain ⟨-, p, stack, hne, -, hafter⟩ := put_of_changed ((step hm).change ho) hchanged
  exact ⟨p, stack, hne, hafter⟩

theorem payload_put_self (w : World η) {c : CellId} (hc : w.HasCell c) (p : Payload) :
    (w.put c p).payload c = p := by
  rw [payload_put, if_pos ⟨rfl, hc⟩]

/-- **What a cell holds changes only as a payload is put into it**, and that one differs. -/
theorem History.puts (h : History may a ms b) (ho : a.world.Orderly) (hm : m ∈ ms)
    (hc : m.before.world.HasCell c) :
    (m.after.world.payload c ≠ m.before.world.payload c → m.Puts c) ∧
      (m.Puts c → (m.before.world.payload c == m.after.world.payload c) = false) := by
  obtain ⟨before, later, rfl⟩ := List.append_of_mem hm
  obtain ⟨hbefore, hallowed, -⟩ := h.at_moment
  have horder := hbefore.run.orderly ho
  refine ⟨fun hne ↦ ?_, fun hputs ↦ ?_⟩
  · obtain ⟨p, stack, -, hnews⟩ :=
      (payload_of_change ((Moment.step hallowed).change horder) hc).resolve_left hne
    exact ⟨_, hnews ▸ List.mem_cons_self⟩
  · obtain ⟨p, stack, hne, hafter⟩ := Moment.after_of_puts horder hallowed hputs
    rw [hafter, payload_put_self _ hc]
    exact hne

theorem History.notifies {w : World η} (h : History anything ⟨w, []⟩ ms b) (ho : w.Orderly)
    (hbare : ∀ c, w.observers c = []) : Notifies ms b where
  puts := fun _ hm _ hc ↦ h.puts ho hm hc
  passes := fun before m later heq c hputs ↦ by
    subst heq
    obtain ⟨hbefore, hallowed, hlater⟩ := h.at_moment
    have hranked := hbefore.run.ranked ho (ranked_of_bare hbare)
    obtain ⟨p, base, -, hafter⟩ := Moment.after_of_puts (hbefore.run.orderly ho) hallowed hputs
    refine ⟨hranked.ascending c, base, congrArg Activity.stack hafter, ?_⟩
    rw [hafter] at hlater
    exact hlater.passing
  gone := fun before m later heq c ticket hwas hgone ↦ by
    subst heq
    obtain ⟨hbefore, hallowed, hlater⟩ := h.at_moment
    have horder := hbefore.run.orderly ho
    exact hlater.never_called (orderly_change horder ((Moment.step hallowed).change horder))
      (hbefore.run.ranked ho (ranked_of_bare hbare)) (Moment.world_enlists horder hallowed) hwas
      hgone
  fired := fun t hpermits c ticket hheld hwas later b' hlater ↦ by
    have horder := h.run.orderly ho
    have hcancels : ∀ (a : Activity η) sub, anything a (.cancel sub) := fun _ _ ↦ trivial
    obtain ⟨fire, hfire⟩ := exists_history_fire hcancels t hpermits
    exact hlater.never_called (hfire.run.orderly horder)
      (h.run.ranked ho (ranked_of_bare hbare)) (hfire.run.enlists horder) hwas (observes_fire hheld)
  comes := fun before m between m' later heq c ticket hcomes ↦ by
    subst heq
    obtain ⟨hbefore, hallowed, hlater⟩ := h.at_moment
    have horder := hbefore.run.orderly ho
    have horder' := orderly_change horder ((Moment.step hallowed).change horder)
    obtain ⟨hbetween, hallowed', -⟩ := hlater.at_moment
    have hgiven := (hbefore.run.ranked ho (ranked_of_bare hbare)).given c
    have henlists := (Moment.world_enlists horder hallowed).trans (hbetween.run.enlists horder')
    have hnew := Moment.le_of_enlists (hbetween.run.orderly horder') hallowed' hcomes
    refine ⟨fun o hmem ↦ ?_, Moment.shown_of_enlists hcomes⟩
    have hlt := hgiven o hmem
    have hle := henlists.tickets
    exact Nat.ne_of_lt (Nat.lt_of_lt_of_le hlt (Nat.le_trans hle hnew))
  quiet := fun c hquiet o hmem ↦ by
    refine (h.upToDate ho hbare c o hmem).resolve_right fun ⟨current, rest, hstack, hdue⟩ ↦ ?_
    rw [hquiet current rest hstack] at hdue
    exact List.not_mem_nil hdue

end Activity

end LiveTemplate.Engine

namespace LiveTemplate

open Engine World

/-! ### Replays -/

namespace Session

variable {s s' : Session}

/-- With the teardown there, a subscription is kept; this changes no payload, whatever ends with it,
and is not noted. -/
theorem retain_eq (name : String) {teardown : Option String} (sub : Subscription)
    (h : ∀ t ∈ teardown, (s.teardowns.get? t).isSome) :
    ∃ s', retain name teardown sub s = (.ok (), s') ∧ s'.log = s.log ∧
      ∀ c, s'.world.payload c = s.world.payload c := by
  cases teardown with
  | none => exact ⟨_, rfl, rfl, payload_cancelAll _ _⟩
  | some name =>
    obtain ⟨t, ht⟩ := Option.isSome_iff_exists.1 (h name rfl)
    refine ⟨_, handOver_of_some ht [sub], rfl, fun c ↦ ?_⟩
    cases t with
    | waiting held => rfl
    | fired => exact payload_cancelAll _ _ c

/-- Who subscribes to a value: it is found, and its teardown is. Then the observer comes, its
subscription is kept, and it is told what the value holds. -/
theorem listen_eq {of : Operand} {c : CellId} {s₁ : Session} (hof : operand of s = (.ok c, s₁))
    (name : String) (teardown : Option String) (body : List (String × Command)) :
    if ∀ t ∈ teardown, (s₁.teardowns.get? t).isSome then
      ∃ s₂, retain name teardown (.ofCell c s₁.world.nextTicket)
          { s₁ with world := (s₁.world.observe c (.handler ⟨some name, body⟩)).2 } = (.ok (), s₂) ∧
        s₂.log = s₁.log ∧ s₂.world.payload c = s₁.world.payload c ∧
        listen (.value of) name teardown body s = (.ok (.reply .done),
          { s₂ with log := s₂.log ++ [.told (some name) (.payload (s₂.world.payload c))] })
    else listen (.value of) name teardown body s = (.error .missing, s₁) := by
  have hfind := Act.bind_of_ok (f := fun c ↦ (do
    expectTeardown teardown
    let ticket ← inWorld fun w => w.observe c (.handler ⟨some name, body⟩)
    retain name teardown (.ofCell c ticket)
    note (.told (some name) (.payload (← payload c)))
    answer .done)) hof
  have hexpect := expectTeardown_eq teardown s₁
  split
  next hthere =>
    rw [if_pos hthere] at hexpect
    obtain ⟨s₂, hretain, hlog, hpayload⟩ := retain_eq name (.ofCell c s₁.world.nextTicket)
      (s := { s₁ with world := (s₁.world.observe c (.handler ⟨some name, body⟩)).2 }) hthere
    refine ⟨s₂, hretain, hlog, (hpayload c).trans (payload_observe s₁.world c _ c), ?_⟩
    refine hfind.trans ((Act.bind_of_ok hexpect).trans ?_)
    exact Act.bind_of_ok hretain
  next hmissing =>
    rw [if_neg hmissing] at hexpect
    exact hfind.trans (Act.bind_of_error hexpect)

/-- **Who subscribes to a value is told what it holds**: the payload that the cell holds as the
observer is added, which it still holds when the subscription is kept. If the value or the teardown
is not there, nobody comes and nobody is told of anything. -/
theorem told_of_listen (of : Operand) (name : String) (teardown : Option String)
    (body : List (String × Command)) (s : Session) :
    (∀ u s', listen (.value of) name teardown body s = (.ok u, s') →
      ∃ c s₁, operand of s = (.ok c, s₁) ∧
        retain name teardown (.ofCell c s₁.world.nextTicket)
          { s₁ with world := (s₁.world.observe c (.handler ⟨some name, body⟩)).2 } =
            (.ok (), { s' with log := s.log }) ∧
        s'.log = s.log ++ [.told (some name) (.payload (s'.world.payload c))] ∧
        s'.world.payload c = s₁.world.payload c) ∧
      ∀ r s', listen (.value of) name teardown body s = (.error r, s') → s.Extends s' := by
  have hextends := extends_operand of s
  rcases hof : operand of s with ⟨r | c, s₁⟩
  · -- Without the value there is nothing to observe.
    have hfails : listen (.value of) name teardown body s = (.error r, s₁) := Act.bind_of_error hof
    rw [hof] at hextends
    rw [hfails]
    exact ⟨fun u s' h ↦ (nomatch congrArg Prod.fst h), fun r' s' h ↦ by cases h; exact hextends⟩
  · have hlisten := listen_eq hof name teardown body
    rw [hof] at hextends
    split at hlisten
    · obtain ⟨s₂, hretain, hlog, hpayload, hlisten⟩ := hlisten
      rw [hlisten]
      refine ⟨fun u s' h ↦ ?_, fun r' s' h ↦ nomatch congrArg Prod.fst h⟩
      cases h
      have hlog' : s₂.log = s.log := hlog.trans hextends.log
      refine ⟨c, s₁, rfl, ?_, congrArg (· ++ _) hlog', hpayload⟩
      rw [hretain, ← hlog']
    · rw [hlisten]
      exact ⟨fun u s' h ↦ (nomatch congrArg Prod.fst h), fun r' s' h ↦ by cases h; exact hextends⟩

end Session

namespace Engine.Activity

/-- **Notification is exact.** Let anything at all be done in a world, beginning with one in which
nobody observes a cell: by callers, and by whoever is called in the middle of other calls. Then its
observers can rely on what `Notifies` says, from the change that begins a pass to the payload that
each of them was last shown; and who subscribes to a value is told at once what it holds. -/
theorem notification_exact {η : Type} {w : World η} {ms : List (Moment η)} {b : Activity η}
    (ho : w.Orderly) (hbare : ∀ c, w.observers c = []) (h : History anything ⟨w, []⟩ ms b) :
    Notifies ms b ∧
      ∀ (of : Session.Operand) (name : String) (teardown : Option String)
        (body : List (String × Session.Command)) (s : Session),
        (∀ u s', Session.listen (.value of) name teardown body s = (.ok u, s') →
          ∃ c s₁, Session.operand of s = (.ok c, s₁) ∧
            Session.retain name teardown (.ofCell c s₁.world.nextTicket)
              { s₁ with world := (s₁.world.observe c (.handler ⟨some name, body⟩)).2 } =
                (.ok (), { s' with log := s.log }) ∧
            s'.log = s.log ++ [.told (some name) (.payload (s'.world.payload c))] ∧
            s'.world.payload c = s₁.world.payload c) ∧
          ∀ r s', Session.listen (.value of) name teardown body s = (.error r, s') →
            s.Extends s' :=
  ⟨h.notifies ho hbare, Session.told_of_listen⟩

/-! ### A handler that meddles -/

/-- A world with a single cell. -/
def lone : World Unit := (start.create (.int 0)).2

/-- Three observe the cell and it changes. The first that is called changes it again, stops the
second, and lets a fourth observe; then all that is left is done. -/
def meddling : List (Option (Deed Unit)) :=
  [some (.observe 0 (.handler ())), some (.observe 0 (.handler ())), some (.observe 0 (.handler ())),
    some (.write 0 (.int 1)), none, some (.write 0 (.int 2)), some (.cancel (.ofCell 0 1)),
    some (.observe 0 (.handler ()))] ++ List.replicate 7 none

/-- Of the pass that is begun last, the first and the third are called, and of the other then the
third; all that observe the cell at last have been shown what it holds. -/
theorem notification_exact_meddling :
    ((follow meddling ⟨lone, []⟩).1.filterMap (·.called 0)).map Observer.ticket = [0, 0, 2, 2] ∧
      ∀ ticket ∈ [0, 2, 3], lastShown 0 ticket (follow meddling ⟨lone, []⟩).1 = some (.int 2) := by
  have hlone : Run anything ⟨start, []⟩ _ ⟨lone, []⟩ :=
    (Run.refl _).deed (.create (.int 0)) trivial trivial
  have hbare : ∀ c, lone.observers c = [] := fun c ↦ observers_create orderly_start (.int 0) c
  have hhistory : History anything _ _ _ := History.ofPlan meddling ⟨lone, []⟩ (by decide)
  obtain ⟨hexact, -⟩ := notification_exact (hlone.orderly orderly_start) hbare hhistory
  have hdone : (follow meddling ⟨lone, []⟩).2.stack = [] := rfl
  have hlast := hexact.quiet 0 fun current rest hmem ↦ by
    rw [hdone] at hmem
    exact absurd hmem List.not_mem_nil
  refine ⟨by decide, fun ticket hmem ↦ ?_⟩
  have hobserves : (follow meddling ⟨lone, []⟩).2.world.observes 0 ticket = true := by
    revert ticket
    decide
  obtain ⟨o, ho, rfl⟩ := observes_iff.1 hobserves
  exact hlast o ho

end Engine.Activity

end LiveTemplate
