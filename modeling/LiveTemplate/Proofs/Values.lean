import LiveTemplate.Proofs.Amendment
import LiveTemplate.Proofs.Binding

/-!
# What a world holds

References, predicates and updates see of a world what its cells hold and what its global state is
(`World.values`), and nothing of who observes what. So what they come to is the same in two worlds
that hold the same. Of all work only updates change what a world holds (`values_turn`); what other
work can do in a turn is said once (`worked_turn`).
-/

namespace LiveTemplate.Engine

variable {η : Type}

/-- What the cells of a world hold, and its global state. -/
structure Values where
  store : CellId → Option Payload
  globals : ValueMap
  published : Bool

/-- Whether a piece of work is to tell somebody something. -/
def Work.notifies : Work η → Bool
  | .tellCell _ _ _ | .tellSignal _ _ _ | .tellProblem _ _ | .tellPublished _ => true
  | _ => false

namespace World

/-- What a world holds. -/
def values (w : World η) : Values where
  store := fun c ↦ (w.cells.get? c).map Cell.payload
  globals := w.globals
  published := w.published

variable {w w' : World η} {locals : ValueMap}

/-! ### What depends on values only -/

section Congruence

variable (h : w'.values = w.values)
include h

theorem payload_of_values (c : CellId) : w'.payload c = w.payload c := by
  have hstore := congrArg (fun v ↦ (Values.store v c).getD .empty) h
  exact hstore

theorem globals_of_values : w'.globals = w.globals := congrArg Values.globals h

theorem published_of_values : w'.published = w.published := congrArg Values.published h

theorem payloads_of_values : w'.payload = w.payload := funext (payload_of_values h)

theorem resolve_of_values (locals : ValueMap) (r : Reference CellId) :
    w'.resolve locals r = w.resolve locals r := by
  cases r with
  | fromGlobal key => simp only [resolve, global?, globals_of_values h, published_of_values h]
  | _ => rfl

theorem describe_of_values : w'.describe = w.describe := by
  funext c
  rw [describe, describe, payload_of_values h]

theorem describeMap_of_values (m : ValueMap) : w'.describeMap m = w.describeMap m := by
  rw [describeMap, describeMap, payloads_of_values h]

theorem operand_of_values (locals : ValueMap) (term : String) (r : Reference CellId) :
    w'.operand locals term r = w.operand locals term r := by
  rw [operand, operand, resolve_of_values h, describe_of_values h, describeMap_of_values h]

theorem bind_of_values (locals : ValueMap) (p : Predicate CellId) :
    w'.bind locals p = w.bind locals p := by
  have hoperand : w'.operand locals = w.operand locals :=
    funext fun term ↦ funext fun r ↦ operand_of_values h locals term r
  rw [bind, bind, hoperand]

end Congruence

/-! ### What keeps values -/

/-- A world holds the same if the same cells have the same payloads, and the global state is the
same. -/
theorem values_ext (hcell : ∀ c, w'.HasCell c ↔ w.HasCell c)
    (hpayload : ∀ c, w'.payload c = w.payload c) (hglobals : w'.globals = w.globals)
    (hpublished : w'.published = w.published) : w'.values = w.values := by
  have hstore : w'.values.store = w.values.store := by
    funext c
    have hc := hcell c
    have hp := hpayload c
    rw [HasCell, HasCell] at hc
    rw [payload, payload] at hp
    show (w'.cells.get? c).map Cell.payload = (w.cells.get? c).map Cell.payload
    cases hget : w.cells.get? c <;> cases hget' : w'.cells.get? c <;> simp_all
  rw [values, values, Values.mk.injEq]
  exact ⟨hstore, hglobals, hpublished⟩

theorem hasCell_of_values (h : w'.values = w.values) (c : CellId) :
    w'.HasCell c ↔ w.HasCell c := by
  have hstore := congrArg (fun v ↦ (Values.store v c).isSome) h
  simp only [values, Option.isSome_map] at hstore
  rw [HasCell, HasCell, hstore]

theorem values_openSignal (w : World η) (f : Formula (Term CellId)) :
    (w.openSignal f).2.values = w.values := by
  have hattach := w.attaches_openSignal f
  exact values_ext hattach.hasCell hattach.payload hattach.globals hattach.published

theorem values_without (w : World η) (s : SignalId) (sig : Signal η) :
    (w.without s sig).values = w.values := by
  have hw : (w.without s sig).cells =
    sweep s (sig.circuit.leaves.flatMap fun t ↦ t.term.operands) w.cells := rfl
  exact values_ext (fun c ↦ (payload_sweep hw c).1) (fun c ↦ (payload_sweep hw c).2) rfl rfl

theorem values_letGo (w : World η) (s : SignalId) : (w.letGo s).values = w.values := by
  unfold letGo
  split
  · rfl
  · rename_i sig hsig
    split
    · rw [dispose_eq hsig]
      exact values_without w s sig
    · rfl

/-- **To evaluate a predicate changes no value.** -/
theorem values_evaluate (w : World η) (locals : ValueMap) (p : Predicate CellId) :
    (w.evaluate locals p).2.values = w.values := by
  rw [evaluate, observePredicate]
  cases w.bind locals p with
  | error e => rfl
  | ok f => exact (values_letGo _ _).trans (values_openSignal w f)

/-- **What a predicate comes to** is the truth of its formula over what the cells hold. -/
theorem evaluate_eq (w : World η) (locals : ValueMap) (p : Predicate CellId) :
    (w.evaluate locals p).1 = (w.bind locals p).map fun f ↦ f.eval (·.holds w.payload) := by
  cases hbind : w.bind locals p with
  | error e => rw [evaluate, observePredicate, hbind]; rfl
  | ok f => exact evaluate_of_bind hbind

theorem values_setTerm (w : World η) (s : SignalId) (place : Nat) (f : LiveTerm → LiveTerm) :
    (w.setTerm s place f).1.values = w.values := by
  unfold setTerm
  split
  · rfl
  · dsimp only
    split <;> rfl

theorem values_refresh (w : World η) (s : SignalId) (place : Nat) :
    (w.refresh s place).1.values = w.values := by
  unfold refresh
  split
  · rfl
  · split
    · exact values_setTerm w s place _
    · dsimp only
      split
      · exact values_setTerm _ s place _
      · exact values_setTerm _ s place _

theorem values_settle (w : World η) (s : SignalId) (place : Nat) :
    (w.settle s place).1.values = w.values := by
  unfold settle
  split
  · split
    · exact values_setTerm w s place _
    · exact values_setTerm _ s place _
  · rfl

/-- What a turn of work can come to, unless the work is to run updates. -/
inductive Worked (w : World η) : Work η → Turn η → Prop
  /-- Somebody is told something or passed over, or nobody is left to be told. -/
  | told {x : Work η} (call : Option (Call η)) {next : List (Work η)}
      (hnext : ∀ y ∈ next, y.notifies = true) : Worked w x ⟨w, call, next, none⟩
  /-- A term of a signal looks at a change. -/
  | looked (c : CellId) (current : Option (Observer η)) (o : Observer η) (rest : List (Observer η))
      (s : SignalId) (place : Nat) :
      Worked w (.tellCell c current (o :: rest))
        ⟨(w.refresh s place).1, none, (w.refresh s place).2 ++ [.tellCell c (some o) rest], none⟩
  /-- The answer of a term to a change is over. -/
  | settled (s : SignalId) (place : Nat) :
      Worked w (.settle s place) ⟨(w.settle s place).1, none, (w.settle s place).2, none⟩
  /-- A signal is let go of. -/
  | letGo (s : SignalId) : Worked w (.letGo s) ⟨w.letGo s, none, [], none⟩
  /-- The clock arrives where it is moved. -/
  | arrived (target : UInt64) :
      Worked w (.advance target) ⟨{ w with clock := w.clock.moveTo target }, none, [], none⟩
  /-- A timer rings for somebody. -/
  | rung (target : UInt64) (clock : Clock (Task η)) (call : Call η) :
      Worked w (.advance target) ⟨{ w with clock }, some call, [.advance target], none⟩
  /-- The window of a term is over. -/
  | expired (target : UInt64) (clock : Clock (Task η)) (s : SignalId) (place : Nat) :
      Worked w (.advance target)
        ⟨(World.expire { w with clock } s place).1, none,
          (World.expire { w with clock } s place).2 ++ [.advance target], none⟩

theorem worked_turn (w : World η) {x : Work η} (hx : ∀ us locals, x ≠ .perform us locals) :
    Worked w x (w.turn x) := by
  have hnone : ∀ y ∈ ([] : List (Work η)), y.notifies = true := fun _ hy ↦
    absurd hy List.not_mem_nil
  have hone : ∀ {y : Work η}, y.notifies = true → ∀ z ∈ [y], z.notifies = true := fun hy z hz ↦
    List.mem_singleton.1 hz ▸ hy
  cases x with
  | tellCell c current rest =>
    cases rest with
    | nil => exact .told none hnone
    | cons o rest =>
      simp only [turn]
      split
      · split
        · exact .told _ (hone rfl)
        · exact .told _ (hone rfl)
        · exact .looked c current o rest _ _
      · exact .told _ (hone rfl)
  | tellSignal s truth rest =>
    cases rest with
    | nil => exact .told none hnone
    | cons e rest =>
      simp only [turn]
      split <;> exact .told _ (hone rfl)
  | tellProblem p rest =>
    cases rest with
    | nil => exact .told none hnone
    | cons e rest =>
      simp only [turn]
      split <;> exact .told _ (hone rfl)
  | tellPublished rest =>
    cases rest with
    | nil => exact .told none hnone
    | cons h rest => exact .told _ (hone rfl)
  | settle s place => exact .settled s place
  | letGo s => exact .letGo s
  | advance target =>
    simp only [turn]
    split
    · exact .arrived target
    · rename_i timer clock _
      split
      · exact .rung target clock _
      · exact .expired target clock _ _
  | perform us locals => exact absurd rfl (hx us locals)

/-- **Of all work only updates change what a world holds.** -/
theorem values_turn (w : World η) {x : Work η} (hx : ∀ us locals, x ≠ .perform us locals) :
    (w.turn x).world.values = w.values := by
  have hworked := worked_turn w hx
  generalize w.turn x = t at *
  cases hworked with
  | told => rfl
  | looked => exact values_refresh w _ _
  | settled => exact values_settle w _ _
  | letGo => exact values_letGo w _
  | arrived => rfl
  | rung => rfl
  | expired => exact values_setTerm _ _ _ _

end World

end LiveTemplate.Engine
