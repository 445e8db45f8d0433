import LiveTemplate.Proofs.Applying

/-!
# The effect of updates

What updates do, apart from who is told what, depends on the world in which they begin only, and can
be read off their tree (`effectAll`): one is executed after the other, each in the world that those
before it have left, up to the first problem, and conditions are asked where they stand.

This is what the moves of the tree come to (`Plays.effect_eq`), and so what updates that are applied
leave behind, whatever those do meanwhile who change no values (`Applied.effect`). Two lists of
updates that have the same effect can thus take each other's place.
-/

namespace LiveTemplate.Engine

open World Update

variable {η : Type}

/-- What comes of updates: how they end, which cells have changed in which order, and what is
left. -/
structure Effect (η : Type) where
  outcome : Except Problem Unit
  changed : List CellId
  world : World η

namespace Effect

/-- Nothing is done. -/
def none (w : World η) : Effect η := ⟨.ok (), [], w⟩

/-- Nothing is done, because of a problem. -/
def failed (w : World η) (p : Problem) : Effect η := ⟨.error p, [], w⟩

/-- One thing after another, unless that fails. -/
def andThen : Effect η → (World η → Effect η) → Effect η
  | ⟨.ok (), changed, w⟩, next => ⟨(next w).outcome, changed ++ (next w).changed, (next w).world⟩
  | ⟨.error p, changed, w⟩, _ => ⟨.error p, changed, w⟩

/-- One thing or another, as a condition is answered. -/
def ofAnswer (w : World η) (answer : Except Problem Bool) (yes no : Effect η) : Effect η :=
  match answer with
  | .ok true => yes
  | .ok false => no
  | .error p => failed w p

theorem none_andThen (w : World η) (next : World η → Effect η) :
    (none w).andThen next = next w := rfl

theorem andThen_none (r : Effect η) : r.andThen none = r := by
  obtain ⟨_ | _, changed, w⟩ := r
  · rfl
  · exact congrArg (Effect.mk _ · w) (List.append_nil changed)

theorem andThen_assoc (r : Effect η) (next later : World η → Effect η) :
    (r.andThen next).andThen later = r.andThen fun w ↦ (next w).andThen later := by
  obtain ⟨_ | _, changed, w⟩ := r
  · rfl
  · simp only [andThen]
    obtain ⟨_ | _, changed', w'⟩ := next w
    · rfl
    · exact congrArg (Effect.mk _ · _) (List.append_assoc ..)

end Effect

namespace World

open Effect

variable {w w' : World η} {locals : ValueMap} {ms : List (Move CellId)}

/-! ### Reading it off the tree -/

/-- The effect of a primitive. -/
def effectOf (w : World η) (locals : ValueMap) (primitive : Primitive CellId) : Effect η :=
  match w.editOf locals primitive with
  | .ok e => ⟨.ok (), w.altered e, (w.edit e).1⟩
  | .error p => failed w p

/-- The effect of clearing targets one by one. -/
def effectClears (locals : ValueMap) : List (Reference CellId) → World η → Effect η
  | [], w => none w
  | target :: targets, w => (w.effectOf locals (.clear target)).andThen (effectClears locals targets)

mutual

/-- The effect of an update. -/
def effect (locals : ValueMap) : Update CellId → World η → Effect η
  | .assign a target source, w => w.effectOf locals (.assign a target source)
  | .clear targets, w => effectClears locals targets w
  | .sequence us, w => effectAll locals us w
  | .when condition us, w =>
    ofAnswer w (w.evaluate locals condition).1 (effectAll locals us w) (none w)
  | .choose condition us otherwise, w =>
    ofAnswer w (w.evaluate locals condition).1 (effectAll locals us w)
      (effectAll locals otherwise w)
  | .switch cases, w => effectCases locals cases w

/-- The effect of updates, one after the other. -/
def effectAll (locals : ValueMap) : List (Update CellId) → World η → Effect η
  | [], w => none w
  | u :: us, w => (effect locals u w).andThen (effectAll locals us)

/-- The effect of the first case whose condition holds. -/
def effectCases (locals : ValueMap) : List (Case CellId) → World η → Effect η
  | [], w => none w
  | .mk condition us :: cases, w =>
    ofAnswer w (w.evaluate locals condition).1 (effectAll locals us w) (effectCases locals cases w)

end

theorem effectAll_append (locals : ValueMap) (us vs : List (Update CellId)) (w : World η) :
    effectAll locals (us ++ vs) w = (effectAll locals us w).andThen (effectAll locals vs) := by
  induction us generalizing w with
  | nil => exact (none_andThen w _).symm
  | cons u us ih =>
    rw [List.cons_append, effectAll, effectAll, andThen_assoc]
    exact congrArg _ (funext ih)

theorem effectAll_singleton (locals : ValueMap) (u : Update CellId) (w : World η) :
    effectAll locals [u] w = effect locals u w := andThen_none _

/-! ### Moves have this effect -/

/-- Moves, made in a world, have an effect. -/
def Brings (w : World η) (locals : ValueMap) (ms : List (Move CellId)) (r : Effect η) : Prop :=
  Plays locals w ms r.outcome r.changed r.world

theorem brings_effectOf (w : World η) (locals : ValueMap) (primitive : Primitive CellId) :
    w.Brings locals [.carry primitive] (w.effectOf locals primitive) := by
  rw [effectOf]
  cases he : w.editOf locals primitive with
  | error p => exact .fail [] he
  | ok e =>
    have hplays := Plays.carry he (.done (w.edit e).1)
    rwa [List.append_nil] at hplays

variable {S S' : List (Move CellId) → Prop}

theorem Brings.andThen {r : Effect η} (h : w.Brings locals ms r) {next : World η → Effect η}
    (hnext : ∀ w' : World η, ∃ rest, S rest ∧ w'.Brings locals rest (next w')) :
    ∃ rest, S rest ∧ w.Brings locals (ms ++ rest) (r.andThen next) := by
  obtain ⟨o, changed, w'⟩ := r
  obtain ⟨rest, hrest, hplays⟩ := hnext w'
  refine ⟨rest, hrest, ?_⟩
  cases o with
  | ok _ => exact Plays.append h hplays
  | error p => exact Plays.append_of_error h rest

theorem exists_brings_ofAnswer (condition : Predicate CellId) {yes no : Effect η}
    (hyes : ∃ rest, S rest ∧ w.Brings locals rest yes)
    (hno : ∃ rest, S' rest ∧ w.Brings locals rest no) :
    ∃ answer rest, (if answer = true then S rest else S' rest) ∧
      w.Brings locals (.ask condition answer :: rest)
        (ofAnswer w (w.evaluate locals condition).1 yes no) := by
  obtain ⟨rest, hrest, hplays⟩ := hyes
  obtain ⟨rest', hrest', hplays'⟩ := hno
  cases ha : (w.evaluate locals condition).1 with
  | error p => exact ⟨true, rest, hrest, .fail rest ha⟩
  | ok answer =>
    cases answer with
    | true => exact ⟨true, rest, hrest, .ask ha hplays⟩
    | false => exact ⟨false, rest', hrest', .ask ha hplays'⟩

theorem brings_effectClears (locals : ValueMap) (targets : List (Reference CellId)) (w : World η) :
    w.Brings locals (targets.map fun target ↦ .carry (.clear target))
      (effectClears locals targets w) := by
  induction targets generalizing w with
  | nil => exact .done w
  | cons target targets ih =>
    obtain ⟨_, rfl, hplays⟩ := (w.brings_effectOf locals (.clear target)).andThen
      fun w' ↦ ⟨_, rfl, ih w'⟩
    exact hplays

mutual

/-- **Some moves of a tree have its effect.** -/
theorem exists_brings_effect (locals : ValueMap) : ∀ (u : Update CellId) (w : World η),
    ∃ ms, Makes u ms ∧ w.Brings locals ms (effect locals u w)
  | .assign a target source, w => ⟨_, rfl, w.brings_effectOf locals _⟩
  | .clear targets, w => ⟨_, rfl, w.brings_effectClears locals targets⟩
  | .sequence us, w => exists_brings_effectAll locals us w
  | .when condition us, w => by
    have hnone : ∃ rest, rest = [] ∧ w.Brings locals rest (none w) := ⟨[], rfl, .done w⟩
    obtain ⟨answer, rest, hrest, hplays⟩ := exists_brings_ofAnswer condition
      (exists_brings_effectAll locals us w) hnone
    exact ⟨_, ⟨answer, rest, rfl, hrest⟩, hplays⟩
  | .choose condition us otherwise, w => by
    obtain ⟨answer, rest, hrest, hplays⟩ := exists_brings_ofAnswer condition
      (exists_brings_effectAll locals us w) (exists_brings_effectAll locals otherwise w)
    exact ⟨_, ⟨answer, rest, rfl, hrest⟩, hplays⟩
  | .switch cases, w => exists_brings_effectCases locals cases w

theorem exists_brings_effectAll (locals : ValueMap) : ∀ (us : List (Update CellId)) (w : World η),
    ∃ ms, MakesAll us ms ∧ w.Brings locals ms (effectAll locals us w)
  | [], w => ⟨[], rfl, .done w⟩
  | u :: us, w => by
    obtain ⟨first, hfirst, hplays⟩ := exists_brings_effect locals u w
    obtain ⟨rest, hrest, hplays'⟩ := hplays.andThen (exists_brings_effectAll locals us)
    exact ⟨_, ⟨first, rest, rfl, hfirst, hrest⟩, hplays'⟩

theorem exists_brings_effectCases (locals : ValueMap) : ∀ (cases : List (Case CellId))
    (w : World η), ∃ ms, MakesCases cases ms ∧ w.Brings locals ms (effectCases locals cases w)
  | [], w => ⟨[], rfl, .done w⟩
  | .mk condition us :: cases, w => by
    obtain ⟨answer, rest, hrest, hplays⟩ := exists_brings_ofAnswer condition
      (exists_brings_effectAll locals us w) (exists_brings_effectCases locals cases w)
    exact ⟨_, ⟨answer, rest, rfl, hrest⟩, hplays⟩

end

/-- **Whatever moves of a tree are made**, what they come to is the effect of the tree. -/
theorem Plays.effect_eq {us : List (Update CellId)} {o : Except Problem Unit} {cells : List CellId}
    (h : Plays locals w ms o cells w') (hmakes : MakesAll us ms) :
    effectAll locals us w = ⟨o, cells, w'⟩ := by
  obtain ⟨ms', hmakes', hplays⟩ := exists_brings_effectAll locals us w
  obtain ⟨ho, hcells, hw⟩ := h.unique (parts_of_makesAll us hmakes hmakes') hplays
  rw [ho, hcells, hw]

end World

namespace Activity

variable {w w' : World η} {us : List (Update CellId)} {locals : ValueMap} {base : List (Work η)}
  {ms : List (Moment η)} {o : Except Problem Unit}

/-- **Updates that are applied have their effect.** -/
theorem Applied.effect (h : Applied w us locals base ms o w') (ho : w.Orderly)
    (hpublished : w.published = true) (hf : w.Furnished us locals) :
    o = (effectAll locals us w).outcome ∧
      changedCells (ms.flatMap Moment.news) = (effectAll locals us w).changed ∧
      ∀ c, w.HasCell c → w'.payload c = (effectAll locals us w).world.payload c := by
  obtain ⟨moves, v, hmakes, hplays, hpayload⟩ := h.exists_plays ho hpublished hf
  rw [hplays.effect_eq hmakes]
  exact ⟨rfl, rfl, hpayload⟩

end Activity

end LiveTemplate.Engine
