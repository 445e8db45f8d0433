import LiveTemplate.Proofs.Repetition

/-!
# How updates are executed

Apart from who is told what, to execute updates is to make a finite list of *moves*: to carry out a
*primitive*, which is an assignment or the clearing of one target, or to ask a condition. Which
lists of moves are those of a tree of updates is read off the tree and the answers (`Makes`): what
is asked is asked in the order of the tree, an answer decides which part of the tree is next, and of
a switch only the updates of the first case whose condition holds are executed.

`Plays` makes moves one after the other, each in the world that the moves before it have left, and
stops at the first that fails, with its problem and no change. Since two lists of moves of one tree
part only where a condition is answered differently (`parts_of_makesAll`), what they come to is
determined (`Plays.unique`).

One turn of updates in the engine makes a few of these moves and leaves updates that make the rest
(`stepped_perform`).
-/

namespace LiveTemplate

variable {α : Type}

theorem OrderedMap.map_id (m : OrderedMap α) : m.map id = m := by
  rw [map, mk.injEq]
  exact List.map_id _

/-- A part of an update that changes at most one value. -/
inductive Primitive (α : Type)
  | assign (a : Assignment) (target source : Reference α)
  | clear (target : Reference α)

/-- A move in the execution of updates. -/
inductive Move (α : Type)
  | carry (p : Primitive α)
  | ask (condition : Predicate α) (answer : Bool)

/-- The reference that a primitive writes to. -/
def Primitive.target : Primitive α → Reference α
  | assign _ target _ => target
  | clear target => target

/-- The references in a primitive. -/
def Primitive.references : Primitive α → List (Reference α)
  | assign _ target source => [target, source]
  | clear target => [target]

theorem Primitive.target_mem_references (p : Primitive α) : p.target ∈ p.references := by
  cases p <;> exact List.mem_cons_self

namespace Move

/-- The references in a move. -/
def references : Move α → List (Reference α)
  | carry p => p.references
  | ask condition _ => condition.references

/-- The references that a move writes to. -/
def targets : Move α → List (Reference α)
  | carry p => [p.target]
  | ask _ _ => []

/-- Two lists of moves are the same, up to a condition that is answered differently. -/
inductive Parts : List (Move α) → List (Move α) → Prop
  | nil : Parts [] []
  | cons (m : Move α) {ms ms' : List (Move α)} (h : Parts ms ms') : Parts (m :: ms) (m :: ms')
  | ask (condition : Predicate α) (answer : Bool) (ms ms' : List (Move α)) :
      Parts (.ask condition answer :: ms) (.ask condition (!answer) :: ms')

theorem Parts.refl : ∀ ms : List (Move α), Parts ms ms
  | [] => .nil
  | m :: ms => .cons m (refl ms)

theorem Parts.append {ms ms' rest rest' : List (Move α)} (h : Parts ms ms')
    (hrest : Parts rest rest') : Parts (ms ++ rest) (ms' ++ rest') := by
  induction h with
  | nil => exact hrest
  | cons m _ ih => exact .cons m ih
  | ask condition answer => exact .ask condition answer _ _

theorem Parts.ofAnswers (condition : Predicate α) {answer answer' : Bool} {ms ms' : List (Move α)}
    (h : answer = answer' → Parts ms ms') :
    Parts (.ask condition answer :: ms) (.ask condition answer' :: ms') := by
  by_cases heq : answer = answer'
  · subst heq
    exact .cons _ (h rfl)
  · obtain rfl : answer' = !answer := Bool.eq_not_of_ne (Ne.symm heq)
    exact .ask condition answer ms ms'

end Move

namespace Update

/-! ### The moves of a tree -/

mutual

/-- Whether a list of moves is one that an update makes, as its conditions are answered. -/
def Makes : Update α → List (Move α) → Prop
  | assign a target source, ms => ms = [.carry (.assign a target source)]
  | clear targets, ms => ms = targets.map fun target ↦ .carry (.clear target)
  | sequence updates, ms => MakesAll updates ms
  | when condition updates, ms => ∃ answer rest, ms = .ask condition answer :: rest ∧
      if answer then MakesAll updates rest else rest = []
  | choose condition updates otherwise, ms => ∃ answer rest, ms = .ask condition answer :: rest ∧
      if answer then MakesAll updates rest else MakesAll otherwise rest
  | switch cases, ms => MakesCases cases ms

/-- Whether a list of moves is one that updates make, one after the other. -/
def MakesAll : List (Update α) → List (Move α) → Prop
  | [], ms => ms = []
  | u :: us, ms => ∃ first rest, ms = first ++ rest ∧ Makes u first ∧ MakesAll us rest

/-- Whether a list of moves is one that cases make: conditions are asked until one of them holds,
and the updates of that case are executed. -/
def MakesCases : List (Case α) → List (Move α) → Prop
  | [], ms => ms = []
  | .mk condition updates :: cases, ms => ∃ answer rest, ms = .ask condition answer :: rest ∧
      if answer then MakesAll updates rest else MakesCases cases rest

end

/-- The moves of updates that follow others follow theirs. -/
theorem makesAll_append {us vs : List (Update α)} {ms : List (Move α)} :
    MakesAll (us ++ vs) ms ↔
      ∃ first rest, ms = first ++ rest ∧ MakesAll us first ∧ MakesAll vs rest := by
  induction us generalizing ms with
  | nil =>
    constructor
    · exact fun h ↦ ⟨[], ms, rfl, rfl, h⟩
    · rintro ⟨first, rest, rfl, hfirst, hrest⟩
      obtain rfl : first = [] := hfirst
      exact hrest
  | cons u us ih =>
    constructor
    · rintro ⟨first, rest, rfl, hu, hrest⟩
      obtain ⟨middle, last, rfl, hus, hvs⟩ := ih.1 hrest
      exact ⟨first ++ middle, last, (List.append_assoc ..).symm, ⟨first, middle, rfl, hu, hus⟩, hvs⟩
    · rintro ⟨first, rest, rfl, ⟨head, middle, rfl, hu, hus⟩, hvs⟩
      exact ⟨head, middle ++ rest, List.append_assoc .., hu, ih.2 ⟨middle, rest, rfl, hus, hvs⟩⟩

mutual

/-- Every update makes some list of moves. -/
theorem exists_makes : ∀ u : Update α, ∃ ms, Makes u ms
  | assign _ _ _ => ⟨_, rfl⟩
  | clear _ => ⟨_, rfl⟩
  | sequence us => exists_makesAll us
  | when condition _ => ⟨[.ask condition false], false, [], rfl, rfl⟩
  | choose condition us _ =>
    let ⟨ms, h⟩ := exists_makesAll us
    ⟨.ask condition true :: ms, true, ms, rfl, h⟩
  | switch cases => exists_makesCases cases

theorem exists_makesAll : ∀ us : List (Update α), ∃ ms, MakesAll us ms
  | [] => ⟨[], rfl⟩
  | u :: us =>
    let ⟨first, hfirst⟩ := exists_makes u
    let ⟨rest, hrest⟩ := exists_makesAll us
    ⟨first ++ rest, first, rest, rfl, hfirst, hrest⟩

theorem exists_makesCases : ∀ cases : List (Case α), ∃ ms, MakesCases cases ms
  | [] => ⟨[], rfl⟩
  | .mk condition us :: _ =>
    let ⟨ms, h⟩ := exists_makesAll us
    ⟨.ask condition true :: ms, true, ms, rfl, h⟩

end

mutual

/-- **The moves of an update part only at a condition** that is answered differently. -/
theorem parts_of_makes : ∀ (u : Update α) {ms ms' : List (Move α)}, Makes u ms → Makes u ms' →
    Move.Parts ms ms'
  | assign _ _ _, _, _, rfl, rfl => .refl _
  | clear _, _, _, rfl, rfl => .refl _
  | sequence us, _, _, h, h' => parts_of_makesAll us h h'
  | when condition us, _, _, ⟨answer, _, rfl, h⟩, ⟨_, _, rfl, h'⟩ =>
    .ofAnswers condition fun heq ↦ by
      subst heq
      cases answer with
      | true => exact parts_of_makesAll us h h'
      | false =>
        obtain ⟨rfl, rfl⟩ : _ = [] ∧ _ = [] := ⟨h, h'⟩
        exact .nil
  | choose condition us vs, _, _, ⟨answer, _, rfl, h⟩, ⟨_, _, rfl, h'⟩ =>
    .ofAnswers condition fun heq ↦ by
      subst heq
      cases answer with
      | true => exact parts_of_makesAll us h h'
      | false => exact parts_of_makesAll vs h h'
  | switch cases, _, _, h, h' => parts_of_makesCases cases h h'

theorem parts_of_makesAll : ∀ (us : List (Update α)) {ms ms' : List (Move α)}, MakesAll us ms →
    MakesAll us ms' → Move.Parts ms ms'
  | [], _, _, rfl, rfl => .nil
  | u :: us, _, _, ⟨_, _, rfl, hu, hus⟩, ⟨_, _, rfl, hu', hus'⟩ =>
    (parts_of_makes u hu hu').append (parts_of_makesAll us hus hus')

theorem parts_of_makesCases : ∀ (cases : List (Case α)) {ms ms' : List (Move α)},
    MakesCases cases ms → MakesCases cases ms' → Move.Parts ms ms'
  | [], _, _, rfl, rfl => .nil
  | .mk condition us :: rest, _, _, ⟨answer, _, rfl, h⟩, ⟨_, _, rfl, h'⟩ =>
    .ofAnswers condition fun heq ↦ by
      subst heq
      cases answer with
      | true => exact parts_of_makesAll us h h'
      | false => exact parts_of_makesCases rest h h'

end

/-- Moves refer to nothing, and write to nothing, but what is given. -/
structure Touches (ms : List (Move α)) (references targets : List (Reference α)) : Prop where
  references : ms.flatMap Move.references ⊆ references
  targets : ms.flatMap Move.targets ⊆ targets

theorem Touches.mono {ms : List (Move α)} {rs rs' ts ts' : List (Reference α)}
    (h : Touches ms rs ts) (hrs : rs ⊆ rs') (hts : ts ⊆ ts') : Touches ms rs' ts' :=
  ⟨List.Subset.trans h.references hrs, List.Subset.trans h.targets hts⟩

theorem Touches.append {ms ms' : List (Move α)} {rs rs' ts ts' : List (Reference α)}
    (h : Touches ms rs ts) (h' : Touches ms' rs' ts') :
    Touches (ms ++ ms') (rs ++ rs') (ts ++ ts') where
  references := by
    rw [List.flatMap_append]
    exact List.append_subset.2 ⟨List.subset_append_of_subset_left _ h.references,
      List.subset_append_of_subset_right _ h'.references⟩
  targets := by
    rw [List.flatMap_append]
    exact List.append_subset.2 ⟨List.subset_append_of_subset_left _ h.targets,
      List.subset_append_of_subset_right _ h'.targets⟩

theorem Touches.ask (condition : Predicate α) (answer : Bool) {ms : List (Move α)}
    {rs ts : List (Reference α)} (h : Touches ms rs ts) :
    Touches (.ask condition answer :: ms) (condition.references ++ rs) ts where
  references := by
    rw [List.flatMap_cons]
    exact List.append_subset.2 ⟨List.subset_append_left _ _,
      List.subset_append_of_subset_right _ h.references⟩
  targets := h.targets

theorem touches_nil (rs ts : List (Reference α)) : Touches [] rs ts :=
  ⟨List.nil_subset _, List.nil_subset _⟩

mutual

/-- **The moves of an update** refer to nothing, and write to nothing, that the update does not. -/
theorem touches_of_makes : ∀ (u : Update α) {ms : List (Move α)}, Makes u ms →
    Touches ms u.references u.targets
  | assign _ _ _, _, rfl => ⟨List.Subset.refl _, List.Subset.refl _⟩
  | clear ts, _, rfl => by
    constructor <;> simp [Move.references, Move.targets, Primitive.references, Primitive.target,
      references, targets, List.flatMap_map]
  | sequence us, _, h => touches_of_makesAll us h
  | when condition us, _, ⟨answer, _, rfl, h⟩ => by
    refine .ask condition answer ?_
    cases answer with
    | true => exact touches_of_makesAll us h
    | false =>
      obtain rfl : _ = [] := h
      exact touches_nil _ _
  | choose condition us vs, _, ⟨answer, _, rfl, h⟩ => by
    rw [references, List.append_assoc]
    refine .ask condition answer ?_
    cases answer with
    | true =>
      exact (touches_of_makesAll us h).mono (List.subset_append_left _ _)
        (List.subset_append_left _ _)
    | false =>
      exact (touches_of_makesAll vs h).mono (List.subset_append_right _ _)
        (List.subset_append_right _ _)
  | switch cases, _, h => touches_of_makesCases cases h

theorem touches_of_makesAll : ∀ (us : List (Update α)) {ms : List (Move α)}, MakesAll us ms →
    Touches ms (allReferences us) (allTargets us)
  | [], _, rfl => touches_nil _ _
  | u :: us, _, ⟨_, _, rfl, hu, hus⟩ => (touches_of_makes u hu).append (touches_of_makesAll us hus)

theorem touches_of_makesCases : ∀ (cases : List (Case α)) {ms : List (Move α)},
    MakesCases cases ms → Touches ms (caseReferences cases) (caseTargets cases)
  | [], _, rfl => touches_nil _ _
  | .mk condition us :: rest, _, ⟨answer, _, rfl, h⟩ => by
    rw [caseReferences, List.append_assoc]
    refine .ask condition answer ?_
    cases answer with
    | true =>
      exact (touches_of_makesAll us h).mono (List.subset_append_left _ _)
        (List.subset_append_left _ _)
    | false =>
      exact (touches_of_makesCases rest h).mono (List.subset_append_right _ _)
        (List.subset_append_right _ _)

end

end Update

namespace Engine.World

variable {η : Type}

/-! ### What an edit leaves as it is -/

section Edit

variable {w' : World η} {c : CellId}

theorem hasCell_edit (w : World η) (e : Edit) (c : CellId) :
    (w.edit e).1.HasCell c ↔ w.HasCell c := by
  obtain _ | ⟨c', p⟩ := e
  · rfl
  · show (w.write c' p).2.1.HasCell c ↔ _
    cases hne : w.payload c' == p with
    | true => rw [write_of_eq hne]
    | false => rw [write_of_ne hne]; exact hasCell_put w c' p c

/-- What a cell holds after an edit. What already equals the new payload stays as it is. -/
theorem payload_edit (w : World η) (c' : CellId) (p : Payload) (c : CellId) :
    (w.edit (some (c', p))).1.payload c =
      if c = c' ∧ w.HasCell c' ∧ (w.payload c' == p) = false then p else w.payload c := by
  show (w.write c' p).2.1.payload c = _
  cases hne : w.payload c' == p with
  | true => rw [write_of_eq hne, if_neg fun h ↦ Bool.noConfusion h.2.2]
  | false => simp only [write_of_ne hne, payload_put, and_true]

theorem payload_edit_of_ne (w : World η) {e : Edit} (h : ∀ p, e ≠ some (c, p)) :
    (w.edit e).1.payload c = w.payload c := by
  obtain _ | ⟨c', p⟩ := e
  · rfl
  · refine (payload_edit w c' p c).trans (if_neg ?_)
    rintro ⟨rfl, -⟩
    exact h p rfl

theorem globals_edit (w : World η) (e : Edit) :
    (w.edit e).1.globals = w.globals ∧ (w.edit e).1.published = w.published := by
  obtain _ | ⟨c', p⟩ := e
  · exact ⟨rfl, rfl⟩
  · show (w.write c' p).2.1.globals = _ ∧ (w.write c' p).2.1.published = _
    cases hne : w.payload c' == p with
    | true => rw [write_of_eq hne]; exact ⟨rfl, rfl⟩
    | false => rw [write_of_ne hne]; exact ⟨rfl, rfl⟩

/-- To carry out an edit comes to the same where the same is held. -/
theorem values_edit {w : World η} (h : w'.values = w.values) (e : Edit) :
    (w'.edit e).1.values = (w.edit e).1.values := by
  obtain ⟨hglobals, hpublished⟩ := globals_edit w e
  obtain ⟨hglobals', hpublished'⟩ := globals_edit w' e
  refine values_ext (fun c ↦ ?_) (fun c ↦ ?_) ?_ ?_
  · rw [hasCell_edit, hasCell_edit, hasCell_of_values h]
  · obtain _ | ⟨c', p⟩ := e
    · exact payload_of_values h c
    · simp only [payload_edit, hasCell_of_values h, payload_of_values h]
  · rw [hglobals', hglobals, globals_of_values h]
  · rw [hpublished', hpublished, published_of_values h]

end Edit

/-! ### Making moves -/

/-- The edit of a primitive. -/
def editOf (w : World η) (locals : ValueMap) : Primitive CellId → Except Problem Edit
  | .assign a target source => w.assignEdit locals a target source
  | .clear target => w.clearEdit locals target

/-- What the edit of a primitive can be: none, if its source is not found or its target need not be
set, or to put something into its target that comes of what is there. -/
inductive Edits (w : World η) (locals : ValueMap) : Primitive CellId → Edit → Prop
  | skip {a : Assignment} {target source : Reference CellId}
      (hsource : w.resolve locals source = .ok none)
      (hempty : a = .setIfEmpty →
        ∃ c, w.resolve locals target = .ok (some c) ∧ (w.payload c).isZero = true) :
      Edits w locals (.assign a target source) none
  | keep {target : Reference CellId} {c : CellId} (source : Reference CellId)
      (htarget : w.resolve locals target = .ok (some c)) (hzero : (w.payload c).isZero = false) :
      Edits w locals (.assign .setIfEmpty target source) none
  | fold {a : Assignment} {target source : Reference CellId} {c from_ : CellId} {p : Payload}
      (hsource : w.resolve locals source = .ok (some from_))
      (htarget : w.resolve locals target = .ok (some c))
      (hfold : Payload.fold a.mode (w.payload c) (w.payload from_) = some p)
      (hempty : a = .setIfEmpty → (w.payload c).isZero = true) :
      Edits w locals (.assign a target source) (some (c, p))
  | clear {target : Reference CellId} {c : CellId}
      (htarget : w.resolve locals target = .ok (some c)) :
      Edits w locals (.clear target) (some (c, (w.payload c).zero))

section Edits

variable {w : World η} {locals : ValueMap} {e : Edit} {target source : Reference CellId}

theorem target_eq_ok {name : String} {c : CellId} :
    w.target locals name target = .ok c ↔ w.resolve locals target = .ok (some c) := by
  refine ⟨resolve_of_target, fun h ↦ ?_⟩
  rw [World.target, h]
  rfl

theorem foldEdit_eq_ok {name : String} {mode : Payload.FoldMode} :
    w.foldEdit locals name target source mode = .ok e ↔
      w.resolve locals source = .ok none ∧ e = none ∨
        ∃ from_ c p, w.resolve locals source = .ok (some from_) ∧
          w.resolve locals target = .ok (some c) ∧
          Payload.fold mode (w.payload c) (w.payload from_) = some p ∧ e = some (c, p) := by
  constructor
  · intro h
    obtain ⟨found, hsource, h⟩ := exists_of_bind_eq_ok h
    cases found with
    | none =>
      cases h
      exact .inl ⟨hsource, rfl⟩
    | some from_ =>
      obtain ⟨c, htarget, h⟩ := exists_of_bind_eq_ok h
      split at h
      · rename_i p hfold
        cases h
        exact .inr ⟨from_, c, p, hsource, target_eq_ok.1 htarget, hfold, rfl⟩
      · cases h
  · rintro (⟨hsource, rfl⟩ | ⟨from_, c, p, hsource, htarget, hfold, rfl⟩)
    · rw [foldEdit, hsource]
      rfl
    · have hinto : w.target locals name target = .ok c := target_eq_ok.2 htarget
      simp only [foldEdit, hsource, hinto, Bind.bind, Except.bind, hfold]
      rfl

/-- Only to set a value if it is empty depends on more than the fold. -/
theorem assignEdit_eq {a : Assignment}
    (hempty : a = .setIfEmpty →
      ∃ c, w.resolve locals target = .ok (some c) ∧ (w.payload c).isZero = true) :
    w.assignEdit locals a target source = w.foldEdit locals a.name target source a.mode := by
  cases a with
  | setIfEmpty =>
    obtain ⟨c, htarget, hzero⟩ := hempty rfl
    rw [assignEdit, target_eq_ok.2 htarget]
    show (if (w.payload c).isZero then _ else _) = _
    rw [hzero]
    rfl
  | _ => rfl

theorem edits_of_foldEdit {a : Assignment}
    (h : w.foldEdit locals a.name target source a.mode = .ok e)
    (hempty : a = .setIfEmpty →
      ∃ c, w.resolve locals target = .ok (some c) ∧ (w.payload c).isZero = true) :
    Edits w locals (.assign a target source) e := by
  obtain ⟨hsource, rfl⟩ | ⟨from_, c, p, hsource, htarget, hfold, rfl⟩ := foldEdit_eq_ok.1 h
  · exact .skip hsource hempty
  · refine .fold hsource htarget hfold fun ha ↦ ?_
    obtain ⟨c', htarget', hzero⟩ := hempty ha
    cases htarget.symm.trans htarget'
    exact hzero

/-- **The edit of a primitive** is one of these, and each of these is the edit. -/
theorem editOf_eq_ok {primitive : Primitive CellId} :
    w.editOf locals primitive = .ok e ↔ Edits w locals primitive e := by
  constructor
  · intro h
    cases primitive with
    | clear target =>
      obtain ⟨c, htarget, h⟩ := exists_of_bind_eq_ok h
      cases h
      exact .clear (target_eq_ok.1 htarget)
    | assign a target source =>
      cases a with
      | setIfEmpty =>
        obtain ⟨c, htarget, h⟩ := exists_of_bind_eq_ok h
        cases hzero : (w.payload c).isZero with
        | true =>
          rw [hzero] at h
          exact edits_of_foldEdit h fun _ ↦ ⟨c, target_eq_ok.1 htarget, hzero⟩
        | false =>
          rw [hzero] at h
          cases h
          exact .keep source (target_eq_ok.1 htarget) hzero
      | _ => exact edits_of_foldEdit h nofun
  · rintro (⟨hsource, hempty⟩ | ⟨source, htarget, hzero⟩ |
      ⟨hsource, htarget, hfold, hempty⟩ | ⟨htarget⟩)
    · rw [editOf, assignEdit_eq hempty]
      exact foldEdit_eq_ok.2 (.inl ⟨hsource, rfl⟩)
    · rw [editOf, assignEdit, target_eq_ok.2 htarget]
      show (if (w.payload _).isZero then _ else _) = _
      rw [hzero]
      rfl
    · rw [editOf, assignEdit_eq fun ha ↦ ⟨_, htarget, hempty ha⟩]
      exact foldEdit_eq_ok.2 (.inr ⟨_, _, _, hsource, htarget, hfold, rfl⟩)
    · rw [editOf, clearEdit, target_eq_ok.2 htarget]
      rfl

/-- A primitive writes to its target, and to a payload of the same kind. -/
theorem Edits.some {primitive : Primitive CellId} {c : CellId} {p : Payload}
    (h : Edits w locals primitive (some (c, p))) :
    w.resolve locals primitive.target = .ok (some c) ∧ p.kind = (w.payload c).kind := by
  cases h with
  | fold _ htarget hfold => exact ⟨htarget, Payload.kind_fold hfold⟩
  | clear htarget => exact ⟨htarget, Payload.kind_zero _⟩

end Edits

/-- The cell that an edit changes, if what it puts there differs. -/
def altered (w : World η) : Edit → List CellId
  | none => []
  | some (c, p) => if w.payload c == p then [] else [c]

theorem altered_congr {w w' : World η} {e : Edit}
    (h : ∀ c p, e = some (c, p) → w'.payload c = w.payload c) : w'.altered e = w.altered e := by
  obtain _ | ⟨c, p⟩ := e
  · rfl
  · rw [altered, altered, h c p rfl]

/-- A move fails in a world: there is a problem with what is carried out or asked. -/
def Fails (w : World η) (locals : ValueMap) (p : Problem) : Move CellId → Prop
  | .carry primitive => w.editOf locals primitive = .error p
  | .ask condition _ => (w.evaluate locals condition).1 = .error p

/-- Moves are made one after the other, as long as none fails, each in the world that the ones
before it have left: what comes of them, which cells have changed, and the world that is left. -/
inductive Plays (locals : ValueMap) :
    World η → List (Move CellId) → Except Problem Unit → List CellId → World η → Prop
  | done (w : World η) : Plays locals w [] (.ok ()) [] w
  | fail {w : World η} {m : Move CellId} {p : Problem} (ms : List (Move CellId))
      (h : w.Fails locals p m) : Plays locals w (m :: ms) (.error p) [] w
  | carry {w w' : World η} {primitive : Primitive CellId} {e : Edit} {ms : List (Move CellId)}
      {o : Except Problem Unit} {cells : List CellId} (he : w.editOf locals primitive = .ok e)
      (h : Plays locals (w.edit e).1 ms o cells w') :
      Plays locals w (.carry primitive :: ms) o (w.altered e ++ cells) w'
  | ask {w w' : World η} {condition : Predicate CellId} {answer : Bool} {ms : List (Move CellId)}
      {o : Except Problem Unit} {cells : List CellId}
      (ha : (w.evaluate locals condition).1 = .ok answer) (h : Plays locals w ms o cells w') :
      Plays locals w (.ask condition answer :: ms) o cells w'

section Plays

variable {w w' w'' : World η} {locals : ValueMap} {ms ms' : List (Move CellId)}
  {o o' : Except Problem Unit} {cells cells' : List CellId} {m : Move CellId} {p : Problem}

/-- What moves come to that follow others. -/
theorem Plays.append (h : Plays locals w ms (.ok ()) cells w')
    (h' : Plays locals w' ms' o cells' w'') :
    Plays locals w (ms ++ ms') o (cells ++ cells') w'' := by
  generalize hok : (Except.ok () : Except Problem Unit) = first at h
  induction h with
  | done => exact h'
  | fail => cases hok
  | carry he _ ih =>
    rw [List.append_assoc]
    exact .carry he (ih h' hok)
  | ask ha _ ih => exact .ask ha (ih h' hok)

/-- Moves after one that fails make no difference. -/
theorem Plays.append_of_error (h : Plays locals w ms (.error p) cells w')
    (later : List (Move CellId)) : Plays locals w (ms ++ later) (.error p) cells w' := by
  generalize hfails : (Except.error p : Except Problem Unit) = o at h ⊢
  induction h with
  | done => cases hfails
  | fail ms hfail => exact .fail (ms ++ later) hfail
  | carry he _ ih => exact .carry he (ih hfails)
  | ask ha _ ih => exact .ask ha (ih hfails)

/-- A move that is made does not fail. -/
theorem not_fails_of_ask {condition : Predicate CellId} {answer answer' : Bool}
    (ha : (w.evaluate locals condition).1 = .ok answer) :
    ¬w.Fails locals p (.ask condition answer') := by
  intro hfails
  rw [Fails, ha] at hfails
  cases hfails

theorem not_fails_of_carry {primitive : Primitive CellId} {e : Edit}
    (he : w.editOf locals primitive = .ok e) : ¬w.Fails locals p (.carry primitive) := by
  intro hfails
  rw [Fails, he] at hfails
  cases hfails

theorem Fails.unique {p' : Problem} (h : w.Fails locals p m) (h' : w.Fails locals p' m) :
    p = p' := by
  cases m <;> cases h.symm.trans h' <;> rfl

/-- **What moves come to is determined** by the world in which they begin, also if they part where
a condition is answered. -/
theorem Plays.unique (h : Plays locals w ms o cells w') (hparts : Move.Parts ms ms')
    (h' : Plays locals w ms' o' cells' w'') : o = o' ∧ cells = cells' ∧ w' = w'' := by
  induction h generalizing ms' cells' with
  | done =>
    cases hparts
    cases h'
    exact ⟨rfl, rfl, rfl⟩
  | @fail _ _ p ms hfail =>
    cases h' with
    | done => cases hparts
    | @fail _ _ p' ms' hfail' =>
      -- Whether a condition fails does not depend on the answer.
      have hsame : p = p' := by
        cases hparts with
        | cons m => exact Fails.unique hfail hfail'
        | ask condition answer => exact Fails.unique (m := .ask condition answer) hfail hfail'
      subst hsame
      exact ⟨rfl, rfl, rfl⟩
    | carry he =>
      cases hparts
      exact absurd hfail (not_fails_of_carry he)
    | ask ha =>
      cases hparts with
      | cons => exact absurd hfail (not_fails_of_ask ha)
      | ask => exact absurd hfail (not_fails_of_ask ha)
  | carry he _ ih =>
    cases hparts with
    | cons _ hparts =>
      cases h' with
      | fail _ hfail => exact absurd hfail (not_fails_of_carry he)
      | carry he' h' =>
        cases he.symm.trans he'
        obtain ⟨ho, rfl, hw⟩ := ih hparts h'
        exact ⟨ho, rfl, hw⟩
  | ask ha _ ih =>
    cases hparts with
    | cons _ hparts =>
      cases h' with
      | fail _ hfail => exact absurd hfail (not_fails_of_ask ha)
      | ask ha' h' => exact ih hparts h'
    | ask =>
      cases h' with
      | fail _ hfail => exact absurd hfail (not_fails_of_ask ha)
      | ask ha' =>
        have hanswer := Except.ok.inj (ha.symm.trans ha')
        exact ((Bool.eq_not_self _).1 hanswer).elim

/-- **Moves that fail** do so after some that have been made and before some that are not. -/
theorem Plays.exists_prefix (h : Plays locals w ms (.error p) cells w') :
    ∃ done m later, ms = done ++ m :: later ∧ Plays locals w done (.ok ()) cells w' ∧
      w'.Fails locals p m := by
  generalize hfails : (Except.error p : Except Problem Unit) = o at h
  induction h with
  | done => cases hfails
  | fail ms hfail =>
    cases hfails
    exact ⟨[], _, ms, rfl, .done _, hfail⟩
  | carry he _ ih =>
    obtain ⟨done, m, later, rfl, hdone, hm⟩ := ih hfails
    exact ⟨_ :: done, m, later, rfl, .carry he hdone, hm⟩
  | ask ha _ ih =>
    obtain ⟨done, m, later, rfl, hdone, hm⟩ := ih hfails
    exact ⟨_ :: done, m, later, rfl, .ask ha hdone, hm⟩

/-! ### Moves in worlds that are alike -/

theorem Edit.rename_id (e : Edit) : e.rename id = e := by cases e <;> rfl

section Alike

variable {P : CellId → Prop} {v : World η} (halike : Alike id P w v)
  (hlocals : ∀ c ∈ locals.values, P c)
include halike hlocals

theorem editOf_of_alike {primitive : Primitive CellId} (hstay : Stay id P primitive.references) :
    v.editOf locals primitive = w.editOf locals primitive ∧
      ∀ e, w.editOf locals primitive = .ok e → e.Of P := by
  have hsame : SameEdit id P (w.editOf locals primitive) (v.editOf (locals.map id) primitive) := by
    cases primitive with
    | assign a target source => exact sameEdit_assignEdit halike hlocals a hstay
    | clear target => exact sameEdit_clearEdit halike hlocals hstay
  have hrename : Edit.rename id = id := funext Edit.rename_id
  refine ⟨?_, hsame.of⟩
  have heq := hsame.eq
  rw [OrderedMap.map_id, hrename] at heq
  rw [heq]
  cases w.editOf locals primitive <;> rfl

theorem evaluate_of_alike_id {condition : Predicate CellId}
    (hstay : Stay id P condition.references) :
    (v.evaluate locals condition).1 = (w.evaluate locals condition).1 := by
  have heq := evaluate_of_alike halike hlocals hstay
  rwa [OrderedMap.map_id] at heq

/-- **Moves come to the same** in worlds that are alike over all that they refer to. -/
theorem Plays.of_alike (h : Plays locals w ms o cells w')
    (hstay : Stay id P (ms.flatMap Move.references)) :
    ∃ v', Plays locals v ms o cells v' ∧ Alike id P w' v' := by
  induction h generalizing v with
  | done => exact ⟨v, .done v, halike⟩
  | fail ms hfails =>
    have hm := hstay.mono (List.subset_append_left _ _)
    refine ⟨v, .fail ms ?_, halike⟩
    rename_i m _
    cases m with
    | carry primitive => exact (editOf_of_alike halike hlocals hm).1.trans hfails
    | ask condition answer => exact (evaluate_of_alike_id halike hlocals hm).trans hfails
  | carry he _ ih =>
    obtain ⟨hedit, hof⟩ := editOf_of_alike halike hlocals (hstay.mono (List.subset_append_left _ _))
    have hnext := halike.edit (hof _ he)
    rw [Edit.rename_id] at hnext
    obtain ⟨v', hplays, halike'⟩ := ih hnext (hstay.mono (List.subset_append_right _ _))
    refine ⟨v', ?_, halike'⟩
    rw [← altered_congr fun c p heq ↦ halike.payload c (hof _ he c p heq)]
    exact .carry (hedit.trans he) hplays
  | ask ha _ ih =>
    have hm := hstay.mono (List.subset_append_left _ _)
    obtain ⟨v', hplays, halike'⟩ := ih halike (hstay.mono (List.subset_append_right _ _))
    exact ⟨v', .ask ((evaluate_of_alike_id halike hlocals hm).trans ha) hplays, halike'⟩

end Alike

end Plays

/-! ### The moves of a turn -/

open Update (MakesAll MakesCases Makes makesAll_append exists_makesAll)

/-- What a turn of updates comes to: they end, or they go on after an edit, and leave updates that
make the rest of their moves. -/
inductive Stepped (w : World η) (locals : ValueMap) (us : List (Update CellId)) : Turn η → Prop
  | ending {w' : World η} {ms : List (Move CellId)} {o : Except Problem Unit}
      (hmakes : MakesAll us ms) (hplays : Plays locals w ms o [] w)
      (hvalues : w'.values = w.values) : Stepped w locals us (.ending w' o)
  | on {w' : World η} {ms : List (Move CellId)} {e : Edit} {us' : List (Update CellId)}
      (hmakes : ∀ rest, MakesAll us' rest → MakesAll us (ms ++ rest))
      (hplays : Plays locals w ms (.ok ()) (w.altered e) (w.edit e).1)
      (hvalues : w'.values = w.values) :
      Stepped w locals us (.goOn (w'.edit e).1 ((w'.edit e).2 ++ [.perform us' locals]))

section Stepped

variable {w w' : World η} {locals : ValueMap} {us us' rest : List (Update CellId)} {p : Problem}

theorem evaluate_of_values (h : w'.values = w.values) (locals : ValueMap)
    (condition : Predicate CellId) :
    (w'.evaluate locals condition).1 = (w.evaluate locals condition).1 := by
  rw [evaluate_eq, evaluate_eq, bind_of_values h, payloads_of_values h]

theorem stepped_primitive (w : World η) (locals : ValueMap) (primitive : Primitive CellId)
    (hmakes : ∀ ms, MakesAll rest ms → MakesAll us (.carry primitive :: ms)) :
    Stepped w locals us
      (w.primitive ((w.editOf locals primitive).map w.edit) rest locals) := by
  cases hedit : w.editOf locals primitive with
  | error p =>
    obtain ⟨later, hlater⟩ := exists_makesAll rest
    exact .ending (hmakes later hlater) (.fail later hedit) rfl
  | ok e =>
    have hplays : Plays locals w [.carry primitive] (.ok ()) (w.altered e ++ []) (w.edit e).1 :=
      .carry hedit (.done _)
    rw [List.append_nil] at hplays
    exact .on hmakes hplays rfl

section Branch

variable {chosen : Except Problem (List (Update CellId)) × World η} {ms : List (Move CellId)}
  (hvalues : chosen.2.values = w.values)
include hvalues

theorem stepped_branch_error (h : chosen.1 = .error p) (hmakes : MakesAll us ms)
    (hplays : Plays locals w ms (.error p) [] w) :
    Stepped w locals us (branch chosen rest locals) := by
  obtain ⟨outcome, w'⟩ := chosen
  obtain rfl : outcome = .error p := h
  exact .ending hmakes hplays hvalues

theorem stepped_branch_ok (h : chosen.1 = .ok us') (hplays : Plays locals w ms (.ok ()) [] w)
    (hmakes : ∀ later, MakesAll (us' ++ rest) later → MakesAll us (ms ++ later)) :
    Stepped w locals us (branch chosen rest locals) := by
  obtain ⟨outcome, w'⟩ := chosen
  obtain rfl : outcome = .ok us' := h
  have hplays' : Plays locals w ms (.ok ()) (w.altered none) (w.edit none).1 := hplays
  exact .on hmakes hplays' hvalues

end Branch

theorem fst_choice (w : World η) (locals : ValueMap) (condition : Predicate CellId)
    (us vs : List (Update CellId)) :
    (w.choice locals condition us vs).1 =
      (w.evaluate locals condition).1.map fun answer ↦ if answer then us else vs := by
  unfold choice
  split <;> simp_all [Except.map]

/-- A choice is made by asking a condition. -/
theorem stepped_choice (w : World η) (locals : ValueMap) {condition : Predicate CellId}
    {vs ws : List (Update CellId)}
    (hmakes : ∀ answer ms, MakesAll ((if answer then vs else ws) ++ rest) ms →
      MakesAll us (.ask condition answer :: ms)) :
    Stepped w locals us (branch (w.choice locals condition vs ws) rest locals) := by
  have hvalues := (w.evaluated_choice locals condition vs ws).values
  have hchoice := fst_choice w locals condition vs ws
  cases hasked : (w.evaluate locals condition).1 with
  | error p =>
    rw [hasked] at hchoice
    obtain ⟨later, hlater⟩ := exists_makesAll ((if false then vs else ws) ++ rest)
    exact stepped_branch_error hvalues hchoice (hmakes false later hlater) (.fail later hasked)
  | ok answer =>
    rw [hasked] at hchoice
    exact stepped_branch_ok hvalues hchoice (.ask hasked (.done w)) (hmakes answer)

/-- A case is chosen by asking conditions until one of them holds. -/
theorem asked_of_chosenCase (locals : ValueMap) (cases : List (Case CellId))
    (hvalues : w'.values = w.values) :
    (∃ us' asks, (w'.chosenCase locals cases).1 = .ok us' ∧ Plays locals w asks (.ok ()) [] w ∧
      ∀ ms, MakesAll us' ms → MakesCases cases (asks ++ ms)) ∨
    ∃ p ms, (w'.chosenCase locals cases).1 = .error p ∧ Plays locals w ms (.error p) [] w ∧
      MakesCases cases ms := by
  induction cases generalizing w' with
  | nil => exact .inl ⟨[], [], rfl, .done w, fun _ h ↦ h⟩
  | cons first rest ih =>
    obtain ⟨condition, updates⟩ := first
    have hnext := (values_evaluate w' locals condition).trans hvalues
    have heval := evaluate_of_values hvalues locals condition
    unfold chosenCase
    generalize w'.evaluate locals condition = found at *
    obtain ⟨outcome, w₁⟩ := found
    cases outcome with
    | error p =>
      obtain ⟨ms, hms⟩ := exists_makesAll updates
      have hfails : w.Fails locals p (.ask condition true) := heval.symm
      exact .inr ⟨p, _, rfl, .fail ms hfails, true, ms, rfl, hms⟩
    | ok answer =>
      cases answer with
      | true =>
        exact .inl ⟨updates, _, rfl, .ask heval.symm (.done w), fun ms hms ↦ ⟨true, ms, rfl, hms⟩⟩
      | false =>
        rcases ih hnext with ⟨us', asks, hchosen, hplays, hmakes⟩ | ⟨p, ms, hchosen, hplays, hmakes⟩
        · exact .inl ⟨us', _, hchosen, .ask heval.symm hplays,
            fun ms hms ↦ ⟨false, asks ++ ms, rfl, hmakes ms hms⟩⟩
        · exact .inr ⟨p, _, hchosen, .ask heval.symm hplays, false, ms, rfl, hmakes⟩

/-- **A turn of updates makes some of their moves**, and leaves updates that make the rest. -/
theorem stepped_perform (w : World η) (us : List (Update CellId)) (locals : ValueMap) :
    Stepped w locals us (w.perform us locals) := by
  -- Updates that only give way to others have made no move.
  have hgives : ∀ {us us'}, (∀ ms, MakesAll us' ms → MakesAll us ([] ++ ms)) →
      Stepped w locals us (.goOn (w.edit none).1 ((w.edit none).2 ++ [.perform us' locals])) :=
    fun hmakes ↦ .on hmakes (.done w) rfl
  match us with
  | [] =>
    have hnone : MakesAll ([] : List (Update CellId)) [] := rfl
    exact .ending hnone (.done w) rfl
  | .assign a target source :: rest =>
    rw [perform, assignReference_eq]
    exact stepped_primitive w locals (.assign a target source) fun ms hms ↦ ⟨[_], ms, rfl, rfl, hms⟩
  | .clear [] :: rest => exact hgives fun ms hms ↦ ⟨[], ms, rfl, rfl, hms⟩
  | .clear (target :: others) :: rest =>
    rw [perform, clearReference_eq]
    refine stepped_primitive w locals (.clear target) fun ms hms ↦ ?_
    obtain ⟨first, last, rfl, rfl, hlast⟩ := hms
    exact ⟨_ :: _, last, rfl, rfl, hlast⟩
  | .sequence us :: rest =>
    refine hgives fun ms hms ↦ ?_
    obtain ⟨first, last, rfl, hfirst, hlast⟩ := makesAll_append.1 hms
    exact ⟨first, last, rfl, hfirst, hlast⟩
  | .when condition us :: rest =>
    refine stepped_choice w locals fun answer ms hms ↦ ?_
    obtain ⟨first, last, rfl, hfirst, hlast⟩ := makesAll_append.1 hms
    refine ⟨_ :: first, last, rfl, ⟨answer, first, rfl, ?_⟩, hlast⟩
    cases answer <;> exact hfirst
  | .choose condition us vs :: rest =>
    refine stepped_choice w locals fun answer ms hms ↦ ?_
    obtain ⟨first, last, rfl, hfirst, hlast⟩ := makesAll_append.1 hms
    refine ⟨_ :: first, last, rfl, ⟨answer, first, rfl, ?_⟩, hlast⟩
    cases answer <;> exact hfirst
  | .switch cases :: rest =>
    have hvalues : (w.chosenCase locals cases).2.values = w.values :=
      (Evaluated.refl.chosenCase cases).values
    have hsame : w.values = w.values := rfl
    rcases asked_of_chosenCase locals cases hsame with
      ⟨us', asks, hchosen, hplays, hmakes⟩ | ⟨p, ms, hchosen, hplays, hmakes⟩
    · refine stepped_branch_ok hvalues hchosen hplays fun ms hms ↦ ?_
      obtain ⟨first, last, rfl, hfirst, hlast⟩ := makesAll_append.1 hms
      exact ⟨asks ++ first, last, (List.append_assoc ..).symm, hmakes first hfirst, hlast⟩
    · obtain ⟨later, hlater⟩ := exists_makesAll rest
      exact stepped_branch_error hvalues hchosen ⟨ms, later, rfl, hmakes, hlater⟩
        (hplays.append_of_error later)

end Stepped

end Engine.World

end LiveTemplate
