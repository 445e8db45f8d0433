import LiveTemplate.Engine.Work

/-!
# Completion

What a piece of work comes to if no handler that is called does anything. A turn then leaves only work
of a lower rank: telling a cell's observers leaves less telling and the turning of signals, updates
leave fewer updates and the telling of cells. So work comes to an end, and `World.complete` needs no
bound. Moving the clock is the exception, since each timer leaves the move itself to be done again;
`World.pass` counts the timers instead.
-/

namespace LiveTemplate.Engine

variable {η : Type}

namespace Work

/-- The sorts of work in the order in which they leave each other. -/
def level : Work η → Nat
  | tellCell _ _ _ => 2
  | tellSignal _ _ _ => 0
  | tellProblem _ _ => 0
  | tellPublished _ => 0
  | settle _ _ => 1
  | letGo _ => 0
  | advance _ => 4
  | perform _ _ => 3

/-- How much of its sort is left to do. -/
def size : Work η → Nat
  | tellCell _ _ rest => rest.length
  | tellSignal _ _ rest => rest.length
  | tellProblem _ rest => rest.length
  | tellPublished rest => rest.length
  | perform updates _ => Update.weightAll updates
  | _ => 0

/-- Whether a piece of work has a lower rank than another. -/
def Below (x y : Work η) : Prop := x.level < y.level ∨ x.level = y.level ∧ x.size < y.size

end Work

namespace World

/-! ### What changes leave to be done -/

theorem level_of_mem_setTerm {w : World η} {s : SignalId} {place : Nat} {f : LiveTerm → LiveTerm}
    {x : Work η} (h : x ∈ (w.setTerm s place f).2) : x.level = 0 := by
  unfold setTerm at h
  split at h
  · simp at h
  · dsimp only at h
    split at h
    · simp at h
    · simp only [List.mem_cons, List.not_mem_nil, or_false] at h
      rcases h with rfl | rfl <;> rfl

theorem level_of_mem_settle {w : World η} {s : SignalId} {place : Nat} {x : Work η}
    (h : x ∈ (w.settle s place).2) : x.level = 0 := by
  unfold settle at h
  split at h
  · split at h
    · exact level_of_mem_setTerm h
    · exact level_of_mem_setTerm h
  · simp at h

theorem level_of_mem_refresh {w : World η} {s : SignalId} {place : Nat} {x : Work η}
    (h : x ∈ (w.refresh s place).2) : x.level ≤ 1 := by
  have turned {w' : World η} {f : LiveTerm → LiveTerm} (h : x ∈ (w'.setTerm s place f).2) :
      x.level ≤ 1 := by
    rw [level_of_mem_setTerm h]
    exact Nat.zero_le 1
  unfold refresh at h
  split at h
  · simp at h
  · split at h
    · exact turned h
    · dsimp only at h
      split at h
      · rcases List.mem_append.1 h with h | h
        · exact turned h
        · simp only [List.mem_cons, List.not_mem_nil, or_false] at h
          rcases h with rfl | rfl
          · exact Nat.le_refl 1
          · exact Nat.zero_le 1
      · rcases List.mem_append.1 h with h | h
        · exact turned h
        · simp only [List.mem_cons, List.not_mem_nil, or_false] at h
          subst h
          exact Nat.le_refl 1

theorem level_of_mem_write {w : World η} {c : CellId} {p : Payload} {x : Work η}
    (h : x ∈ (w.write c p).2.2) : x.level = 2 := by
  unfold write at h
  split at h
  · simp at h
  · simp only [List.mem_cons, List.not_mem_nil, or_false] at h
    subst h
    rfl

/-- A result that comes of two steps comes of a first one that succeeds. -/
theorem exists_of_bind_eq_ok {α β : Type} {first : Except Problem α}
    {second : α → Except Problem β} {b : β} (h : first >>= second = .ok b) :
    ∃ a, first = .ok a ∧ second a = .ok b := by
  cases first with
  | error e => cases h
  | ok a => exact ⟨a, rfl, h⟩

theorem level_of_mem_foldInto {w w' : World η} {locals : ValueMap} {name : String}
    {target source : Reference CellId} {mode : Payload.FoldMode} {works : List (Work η)}
    (h : w.foldInto locals name target source mode = .ok (w', works)) {x : Work η}
    (hx : x ∈ works) : x.level = 2 := by
  unfold foldInto at h
  obtain ⟨found, -, h⟩ := exists_of_bind_eq_ok h
  cases found with
  | none =>
    cases h
    simp at hx
  | some from_ =>
    obtain ⟨into, -, h⟩ := exists_of_bind_eq_ok h
    cases hf : w.fold into from_ mode with
    | none =>
      rw [hf] at h
      cases h
    | some done =>
      rw [hf] at h
      cases h
      obtain ⟨p, -, hp⟩ := Option.map_eq_some_iff.1 hf
      have : (w.write into p).2.2 = works := congrArg Prod.snd hp
      exact level_of_mem_write (this ▸ hx)

theorem level_of_mem_assignReference {w w' : World η} {locals : ValueMap} {a : Assignment}
    {target source : Reference CellId} {works : List (Work η)}
    (h : w.assignReference locals a target source = .ok (w', works)) {x : Work η}
    (hx : x ∈ works) : x.level = 2 := by
  unfold assignReference at h
  split at h
  · obtain ⟨into, -, h⟩ := exists_of_bind_eq_ok h
    split at h
    · exact level_of_mem_foldInto h hx
    · cases h
      simp at hx
  · exact level_of_mem_foldInto h hx

theorem level_of_mem_clearReference {w w' : World η} {locals : ValueMap}
    {target : Reference CellId} {works : List (Work η)}
    (h : w.clearReference locals target = .ok (w', works)) {x : Work η} (hx : x ∈ works) :
    x.level = 2 := by
  unfold clearReference at h
  obtain ⟨into, -, h⟩ := exists_of_bind_eq_ok h
  have : (w.reset into).2.2 = works := congrArg Prod.snd (Except.ok.inj h)
  exact level_of_mem_write (this ▸ hx)

theorem eq_or_eq_of_choice {w : World η} {locals : ValueMap} {condition : Predicate CellId}
    {updates otherwise us : List (Update CellId)}
    (h : (w.choice locals condition updates otherwise).1 = .ok us) :
    us = updates ∨ us = otherwise := by
  unfold choice at h
  split at h
  · cases h
  · cases h
    exact .inl rfl
  · cases h
    exact .inr rfl

theorem weightAll_le_of_chosenCase {w w' : World η} {locals : ValueMap}
    {cases : List (Case CellId)} {updates : List (Update CellId)}
    (h : w.chosenCase locals cases = (.ok updates, w')) :
    Update.weightAll updates ≤ Update.weightCases cases := by
  induction cases generalizing w with
  | nil =>
    simp only [chosenCase, Prod.mk.injEq, Except.ok.injEq] at h
    simp [← h.1, Update.weightAll]
  | cons c rest ih =>
    obtain ⟨condition, us⟩ := c
    unfold chosenCase at h
    split at h
    · simp at h
    · simp only [Prod.mk.injEq, Except.ok.injEq] at h
      rw [← h.1]
      exact Nat.le_add_right _ _
    · exact Nat.le_trans (ih h) (Nat.le_add_left _ _)

/-! ### A turn leaves less to do -/

theorem below_of_mem_primitive {w : World η} {done : Except Problem (World η × List (Work η))}
    {rest updates : List (Update CellId)} {locals : ValueMap}
    (hdone : ∀ w' works, done = .ok (w', works) → ∀ x ∈ works, Work.level x = 2)
    (hless : Update.weightAll rest < Update.weightAll updates) {x : Work η}
    (hx : x ∈ (w.primitive done rest locals).next) : x.Below (.perform updates locals) := by
  unfold primitive at hx
  split at hx
  · simp [Turn.ending] at hx
  · rename_i w' works
    simp only [Turn.goOn, List.mem_append, List.mem_cons, List.not_mem_nil, or_false] at hx
    rcases hx with hx | rfl
    · exact .inl (by rw [hdone w' works rfl x hx]; exact Nat.lt_succ_self 2)
    · exact .inr ⟨rfl, hless⟩

theorem below_of_mem_branch {chosen : Except Problem (List (Update CellId)) × World η}
    {rest updates : List (Update CellId)} {locals : ValueMap}
    (hless : ∀ us, chosen.1 = .ok us → Update.weightAll us + Update.weightAll rest <
      Update.weightAll updates) {x : Work η}
    (hx : x ∈ (branch chosen rest locals).next) : x.Below (.perform updates locals) := by
  unfold branch at hx
  split at hx
  · simp [Turn.ending] at hx
  · rename_i us w'
    simp only [Turn.goOn, List.mem_cons, List.not_mem_nil, or_false] at hx
    subst hx
    exact .inr ⟨rfl, by rw [Work.size, Update.weightAll_append]; exact hless us rfl⟩

theorem below_of_mem_perform {w : World η} {updates : List (Update CellId)} {locals : ValueMap}
    {x : Work η} (hx : x ∈ (w.perform updates locals).next) :
    x.Below (.perform updates locals) := by
  unfold perform at hx
  split at hx
  · simp [Turn.ending] at hx
  · refine below_of_mem_primitive (fun _ _ h x hx => level_of_mem_assignReference h hx) ?_ hx
    simp [Update.weightAll, Update.weight]
  · simp only [Turn.goOn, List.mem_cons, List.not_mem_nil, or_false] at hx
    subst hx
    exact .inr ⟨rfl, by simp [Work.size, Update.weightAll, Update.weight]⟩
  · refine below_of_mem_primitive (fun _ _ h x hx => level_of_mem_clearReference h hx) ?_ hx
    simp [Update.weightAll, Update.weight]
  · simp only [Turn.goOn, List.mem_cons, List.not_mem_nil, or_false] at hx
    subst hx
    refine .inr ⟨rfl, ?_⟩
    simp only [Work.size, Update.weightAll, Update.weight, Update.weightAll_append]
    omega
  · refine below_of_mem_branch (fun us h => ?_) hx
    rcases eq_or_eq_of_choice h with rfl | rfl <;>
      simp only [Update.weightAll, Update.weight] <;> omega
  · refine below_of_mem_branch (fun us h => ?_) hx
    rcases eq_or_eq_of_choice h with rfl | rfl <;>
      simp only [Update.weightAll, Update.weight] <;> omega
  · rename_i cases rest
    refine below_of_mem_branch (fun us h => ?_) hx
    have hchosen : w.chosenCase locals cases = (.ok us, (w.chosenCase locals cases).2) :=
      Prod.ext h rfl
    have := weightAll_le_of_chosenCase hchosen
    simp only [Update.weightAll, Update.weight]
    omega

/-- A turn leaves only work below the piece that was begun, unless that was to move the clock. -/
theorem below_of_mem_turn {w : World η} {x y : Work η} (hx : x.level < 4)
    (hy : y ∈ (w.turn x).next) : y.Below x := by
  cases x with
  | tellCell c current rest =>
    cases rest with
    | nil => simp [turn, Turn.goOn] at hy
    | cons o rest =>
      have after : (Work.tellCell c (some o) rest).Below (.tellCell c current (o :: rest)) :=
        .inr ⟨rfl, Nat.lt_succ_self _⟩
      simp only [turn] at hy
      split at hy
      · split at hy
        · simp only [Turn.calling, List.mem_cons, List.not_mem_nil, or_false] at hy
          exact hy ▸ after
        · simp only [Turn.calling, List.mem_cons, List.not_mem_nil, or_false] at hy
          exact hy ▸ after
        · simp only [Turn.goOn, List.mem_append, List.mem_cons, List.not_mem_nil, or_false] at hy
          rcases hy with hy | rfl
          · exact .inl (Nat.lt_succ_of_le (level_of_mem_refresh hy))
          · exact after
      · simp only [Turn.goOn, List.mem_cons, List.not_mem_nil, or_false] at hy
        exact hy ▸ after
  | tellSignal s truth rest =>
    cases rest with
    | nil => simp [turn, Turn.goOn] at hy
    | cons e rest =>
      have after : (Work.tellSignal s truth rest).Below (.tellSignal s truth (e :: rest)) :=
        .inr ⟨rfl, Nat.lt_succ_self _⟩
      simp only [turn] at hy
      split at hy
      · simp only [Turn.calling, List.mem_cons, List.not_mem_nil, or_false] at hy
        exact hy ▸ after
      · simp only [Turn.goOn, List.mem_cons, List.not_mem_nil, or_false] at hy
        exact hy ▸ after
  | tellProblem p rest =>
    cases rest with
    | nil => simp [turn, Turn.goOn] at hy
    | cons e rest =>
      have after : (Work.tellProblem p rest).Below (.tellProblem p (e :: rest)) :=
        .inr ⟨rfl, Nat.lt_succ_self _⟩
      simp only [turn] at hy
      split at hy
      · simp only [Turn.calling, List.mem_cons, List.not_mem_nil, or_false] at hy
        exact hy ▸ after
      · simp only [Turn.goOn, List.mem_cons, List.not_mem_nil, or_false] at hy
        exact hy ▸ after
  | tellPublished rest =>
    cases rest with
    | nil => simp [turn, Turn.goOn] at hy
    | cons h rest =>
      simp only [turn, Turn.calling, List.mem_cons, List.not_mem_nil, or_false] at hy
      subst hy
      exact .inr ⟨rfl, Nat.lt_succ_self _⟩
  | settle s place => exact .inl (by rw [level_of_mem_settle hy]; exact Nat.lt_succ_self 0)
  | letGo s => simp [turn, Turn.goOn] at hy
  | advance target => simp [Work.level] at hx
  | perform updates locals => exact below_of_mem_perform hy

end World

/-! ### Completing work -/

/-- The world when work is done, the calls that were made, the first first, and how updates
ended. -/
structure Completion (η : Type) where
  world : World η
  calls : List (Call η)
  outcome : Except Problem Unit

namespace World

/-- Does a piece of work, and all that it leaves to be done. To move the clock is left alone. -/
def complete (w : World η) (x : Work η) : Completion η :=
  if hx : x.level < 4 then
    let t := w.turn x
    t.next.attach.foldl
      (fun done y =>
        have := below_of_mem_turn hx y.2
        let more := done.world.complete y.1
        ⟨more.world, done.calls ++ more.calls, done.outcome.bind fun _ => more.outcome⟩)
      ⟨t.world, t.call.toList, t.outcome.getD (.ok ())⟩
  else ⟨w, [], .ok ()⟩
termination_by (x.level, x.size)
decreasing_by
  rcases this with h | ⟨h, h'⟩
  · exact Prod.Lex.left _ _ h
  · rw [h]
    exact Prod.Lex.right _ h'

/-- Does several pieces of work, the first first. -/
def completeAll (w : World η) (xs : List (Work η)) : Completion η :=
  xs.foldl
    (fun done x =>
      let more := done.world.complete x
      ⟨more.world, done.calls ++ more.calls, done.outcome.bind fun _ => more.outcome⟩)
    ⟨w, [], .ok ()⟩

/-- Runs updates over a map of local values. -/
def apply (w : World η) (updates : List (Update CellId)) (locals : ValueMap) : Completion η :=
  w.complete (.perform updates locals)

/-- Moves the clock on to a time, past at most `n` timers. -/
def pass : Nat → World η → UInt64 → Completion η
  | 0, w, target => ⟨{ w with clock := w.clock.moveTo target }, [], .ok ()⟩
  | n + 1, w, target =>
    match w.clock.takeDue? target with
    | none => ⟨{ w with clock := w.clock.moveTo target }, [], .ok ()⟩
    | some (timer, clock) =>
      let first : Completion η :=
        match timer.task with
        | .handler h => ⟨{ w with clock }, [⟨h, .due clock.now⟩], .ok ()⟩
        | .expire s place =>
          let (w', works) := { w with clock }.expire s place
          w'.completeAll works
      let more := pass n first.world target
      ⟨more.world, first.calls ++ more.calls, .ok ()⟩

/-- Moves the clock on by some milliseconds, past all timers that come due. -/
def wait (w : World η) (ms : UInt64) : Completion η :=
  pass w.clock.pending w (addUpTo w.clock.now ms)

end World

end LiveTemplate.Engine
