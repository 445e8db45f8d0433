import LiveTemplate.Proofs.Completing
import LiveTemplate.Proofs.Likeness

/-!
# Updates in worlds that are alike

Updates that are run in worlds that are alike, over maps of local values that hold the same, end
alike: with the same outcome, and in worlds that are alike again (`apply_of_alike`). What an update
does to a cell is first said as an edit, which says what is put where.
-/

namespace LiveTemplate.Engine.World

variable {η : Type}

/-- What is put where, if anything is. -/
abbrev Edit := Option (CellId × Payload)

/-- Carries out an edit. -/
def edit (w : World η) : Edit → World η × List (Work η)
  | none => (w, [])
  | some (c, p) => (w.write c p).2

/-- The edit that folds one reference into another. -/
def foldEdit (w : World η) (locals : ValueMap) (update : String) (target source : Reference CellId)
    (mode : Payload.FoldMode) : Except Problem Edit := do
  match ← w.resolve locals source with
  | none => pure none
  | some from_ =>
    let into ← w.target locals update target
    match Payload.fold mode (w.payload into) (w.payload from_) with
    | some p => pure (some (into, p))
    | none => .error (.cannotFold update (w.payload from_).kind (w.payload into).kind)

/-- The edit of an assignment. -/
def assignEdit (w : World η) (locals : ValueMap) (a : Assignment)
    (target source : Reference CellId) : Except Problem Edit :=
  match a with
  | .setIfEmpty => do
    let into ← w.target locals a.name target
    if (w.payload into).isZero then w.foldEdit locals a.name target source a.mode else pure none
  | _ => w.foldEdit locals a.name target source a.mode

/-- The edit that brings a target back to zero. -/
def clearEdit (w : World η) (locals : ValueMap) (target : Reference CellId) :
    Except Problem Edit := do
  let into ← w.target locals "clear" target
  pure (some (into, (w.payload into).zero))

section Edits

variable (w : World η) (locals : ValueMap) (target source : Reference CellId)

theorem foldInto_eq (update : String) (mode : Payload.FoldMode) :
    w.foldInto locals update target source mode =
      (w.foldEdit locals update target source mode).map w.edit := by
  unfold foldInto foldEdit
  cases w.resolve locals source with
  | error e => rfl
  | ok found =>
    cases found with
    | none => rfl
    | some from_ =>
      cases w.target locals update target with
      | error e => rfl
      | ok into =>
        simp only [fold, Bind.bind, Except.bind]
        cases Payload.fold mode (w.payload into) (w.payload from_) <;> rfl

theorem assignReference_eq (a : Assignment) :
    w.assignReference locals a target source =
      (w.assignEdit locals a target source).map w.edit := by
  cases a with
  | setIfEmpty =>
    rw [assignReference, assignEdit]
    cases w.target locals Assignment.setIfEmpty.name target with
    | error e => rfl
    | ok into =>
      show (if (w.payload into).isZero then _ else _) =
        Except.map _ (if (w.payload into).isZero then _ else _)
      split
      · exact foldInto_eq w locals target source _ _
      · rfl
  | _ => exact foldInto_eq w locals target source _ _

theorem clearReference_eq :
    w.clearReference locals target = (w.clearEdit locals target).map w.edit := by
  unfold clearReference clearEdit
  cases w.target locals "clear" target <;> rfl

end Edits

variable {w w' : World η} {g : CellId → CellId} {P : CellId → Prop} {locals : ValueMap}

/-! ### Edits in worlds that are alike -/

/-- An edit of other cells. -/
def Edit.rename (g : CellId → CellId) (e : Edit) : Edit := Option.map (fun e ↦ (g e.1, e.2)) e

/-- An edit is of some cells. -/
def Edit.Of (P : CellId → Prop) (e : Edit) : Prop := ∀ c p, e = some (c, p) → P c

theorem Edit.of_none : Edit.Of P none := fun _ _ h ↦ nomatch h

theorem Edit.of_some {c : CellId} (h : P c) (p : Payload) : Edit.Of P (some (c, p)) :=
  fun _ _ heq ↦ by
    cases heq
    exact h

/-- To put a payload into a cell keeps worlds alike. -/
theorem Alike.put (h : Alike g P w w') {c : CellId} (hc : P c) (p : Payload) :
    Alike g P (w.put c p) (w'.put (g c) p) where
  payload c' hc' := by
    have hname : g c' = g c ↔ c' = c := ⟨h.injective c' c hc' hc, congrArg g⟩
    simp only [payload_put, hname, h.hasCell c hc, h.payload c' hc']
  hasCell c' hc' := by rw [hasCell_put, hasCell_put, h.hasCell c' hc']
  injective := h.injective
  published := h.published
  get? := h.get?
  global := h.global

/-- **To carry out an edit keeps worlds alike.** -/
theorem Alike.edit (h : Alike g P w w') {e : Edit} (he : e.Of P) :
    Alike g P (w.edit e).1 (w'.edit (e.rename g)).1 := by
  obtain _ | ⟨c, p⟩ := e
  · exact h
  · have hc : P c := he c p rfl
    show Alike g P (w.write c p).2.1 (w'.write (g c) p).2.1
    have hpayload := h.payload c hc
    cases hne : w.payload c == p with
    | true =>
      rw [write_of_eq hne, write_of_eq (hpayload ▸ hne)]
      exact h
    | false =>
      rw [write_of_ne hne, write_of_ne (hpayload ▸ hne)]
      exact h.put hc p

/-- Two updates have the same problem, or are the same edit of cells by other names. -/
structure SameEdit (g : CellId → CellId) (P : CellId → Prop) (done done' : Except Problem Edit) :
    Prop where
  eq : done' = done.map (Edit.rename g)
  of : ∀ e, done = .ok e → e.Of P

section Alike

variable (h : Alike g P w w') (hlocals : ∀ c ∈ locals.values, P c)
include h hlocals

theorem mem_of_target {name : String} {r : Reference CellId}
    (hr : ∀ c ∈ r.literals, P c ∧ g c = c) {c : CellId} (hc : w.target locals name r = .ok c) :
    P c := mem_of_resolve h hlocals hr (resolve_of_target hc)

theorem sameEdit_foldEdit (update : String) (mode : Payload.FoldMode)
    {target source : Reference CellId} (hstay : Stay g P [target, source]) :
    SameEdit g P (w.foldEdit locals update target source mode)
      (w'.foldEdit (locals.map g) update target source mode) := by
  have htarget := hstay target List.mem_cons_self
  have hsource := hstay source (List.mem_cons_of_mem _ List.mem_cons_self)
  constructor
  · rw [foldEdit, foldEdit, resolve_of_alike h hsource]
    refine Formula.bind_map fun found hfound ↦ ?_
    cases found with
    | none => rfl
    | some from_ =>
      show w'.target (locals.map g) update target >>= _ = _
      rw [target_of_alike h update htarget]
      refine Formula.bind_map fun into hinto ↦ ?_
      have hfrom := h.payload from_ (mem_of_resolve h hlocals hsource hfound)
      have hinto' := h.payload into (mem_of_target h hlocals htarget hinto)
      rw [hfrom, hinto']
      cases Payload.fold mode (w.payload into) (w.payload from_) <;> rfl
  · intro e he
    obtain ⟨found, -, he⟩ := exists_of_bind_eq_ok he
    cases found with
    | none =>
      cases he
      exact Edit.of_none
    | some from_ =>
      obtain ⟨into, hinto, he⟩ := exists_of_bind_eq_ok he
      split at he
      · cases he
        exact Edit.of_some (mem_of_target h hlocals htarget hinto) _
      · cases he

theorem sameEdit_assignEdit (a : Assignment) {target source : Reference CellId}
    (hstay : Stay g P [target, source]) :
    SameEdit g P (w.assignEdit locals a target source)
      (w'.assignEdit (locals.map g) a target source) := by
  cases a with
  | setIfEmpty =>
    have htarget := hstay target List.mem_cons_self
    have hfold := sameEdit_foldEdit h hlocals Assignment.setIfEmpty.name
      Assignment.setIfEmpty.mode hstay
    constructor
    · rw [assignEdit, assignEdit, target_of_alike h _ htarget]
      refine Formula.bind_map fun into hinto ↦ ?_
      rw [h.payload into (mem_of_target h hlocals htarget hinto)]
      split
      · exact hfold.eq
      · rfl
    · intro e he
      obtain ⟨into, -, he⟩ := exists_of_bind_eq_ok he
      split at he
      · exact hfold.of e he
      · cases he
        exact Edit.of_none
  | _ => exact sameEdit_foldEdit h hlocals _ _ hstay

theorem sameEdit_clearEdit {target : Reference CellId} (hstay : Stay g P [target]) :
    SameEdit g P (w.clearEdit locals target) (w'.clearEdit (locals.map g) target) := by
  have htarget := hstay target List.mem_cons_self
  constructor
  · rw [clearEdit, clearEdit, target_of_alike h _ htarget]
    refine Formula.bind_map fun into hinto ↦ ?_
    rw [h.payload into (mem_of_target h hlocals htarget hinto)]
    rfl
  · intro e he
    obtain ⟨into, hinto, he⟩ := exists_of_bind_eq_ok he
    cases he
    exact Edit.of_some (mem_of_target h hlocals htarget hinto) _

/-! ### Choices in worlds that are alike -/

theorem choice_of_alike {condition : Predicate CellId} (hstay : Stay g P condition.references)
    (updates otherwise : List (Update CellId)) :
    (w'.choice (locals.map g) condition updates otherwise).1 =
      (w.choice locals condition updates otherwise).1 := by
  have heval := evaluate_of_alike h hlocals hstay
  unfold choice
  split <;> split <;> simp_all

theorem chosenCase_of_alike {cases : List (Case CellId)}
    (hstay : Stay g P (Update.caseReferences cases)) :
    (w'.chosenCase (locals.map g) cases).1 = (w.chosenCase locals cases).1 := by
  induction cases generalizing w w' with
  | nil => rfl
  | cons first rest ih =>
    obtain ⟨condition, updates⟩ := first
    have hcondition : Stay g P condition.references :=
      hstay.mono fun r hr ↦ List.mem_append_left _ (List.mem_append_left _ hr)
    have hrest : Stay g P (Update.caseReferences rest) :=
      hstay.mono fun r hr ↦ List.mem_append_right _ hr
    have heval := evaluate_of_alike h hlocals hcondition
    have halike := h.of_values (values_evaluate w locals condition)
      (values_evaluate w' (locals.map g) condition)
    unfold chosenCase
    generalize w.evaluate locals condition = found at *
    generalize w'.evaluate (locals.map g) condition = found' at *
    obtain ⟨outcome, w₁⟩ := found
    obtain ⟨outcome', w₁'⟩ := found'
    cases heval
    cases outcome with
    | error e => rfl
    | ok truth =>
      cases truth with
      | true => rfl
      | false => exact ih halike hrest

/-! ### Turns in worlds that are alike -/

omit h hlocals in
/-- Updates end with the same outcome, or go on after the same edit. -/
inductive SameTurn (g : CellId → CellId) (P : CellId → Prop) (locals : ValueMap) :
    Turn η → Turn η → Prop
  | ending {w w' : World η} (h : Alike g P w w') (outcome : Except Problem Unit) :
      SameTurn g P locals (.ending w outcome) (.ending w' outcome)
  | on {w w' : World η} (h : Alike g P w w') {e : Edit} (he : e.Of P)
      (us : List (Update CellId)) :
      SameTurn g P locals (.goOn (w.edit e).1 ((w.edit e).2 ++ [.perform us locals]))
        (.goOn (w'.edit (e.rename g)).1
          ((w'.edit (e.rename g)).2 ++ [.perform us (locals.map g)]))

omit hlocals in
theorem sameTurn_primitive {done done' : Except Problem Edit} (hdone : SameEdit g P done done')
    (rest : List (Update CellId)) :
    SameTurn g P locals (w.primitive (done.map w.edit) rest locals)
      (w'.primitive (done'.map w'.edit) rest (locals.map g)) := by
  rw [hdone.eq]
  cases done with
  | error p => exact .ending h (.error p)
  | ok e => exact .on h (hdone.of e rfl) rest

omit h hlocals in
theorem sameTurn_branch {chosen chosen' : Except Problem (List (Update CellId)) × World η}
    (h : Alike g P chosen.2 chosen'.2) (hchosen : chosen'.1 = chosen.1)
    (rest : List (Update CellId)) :
    SameTurn g P locals (branch chosen rest locals) (branch chosen' rest (locals.map g)) := by
  obtain ⟨outcome, w⟩ := chosen
  obtain ⟨outcome', w'⟩ := chosen'
  cases hchosen
  cases outcome with
  | error p => exact .ending h (.error p)
  | ok us => exact .on h Edit.of_none (us ++ rest)

/-- **Updates do the same in a turn.** -/
theorem sameTurn_perform {us : List (Update CellId)} (hstay : Stay g P (Update.allReferences us)) :
    SameTurn g P locals (w.perform us locals) (w'.perform us (locals.map g)) := by
  cases us with
  | nil => exact .ending h (.ok ())
  | cons u rest =>
    have hu : Stay g P u.references := hstay.mono (List.subset_append_left _ _)
    cases u with
    | assign a target source =>
      rw [perform, perform, assignReference_eq, assignReference_eq]
      exact sameTurn_primitive h (sameEdit_assignEdit h hlocals a hu) rest
    | clear targets =>
      cases targets with
      | nil => exact .on h Edit.of_none rest
      | cons target others =>
        rw [perform, perform, clearReference_eq, clearReference_eq]
        have htarget := hu.mono (List.cons_subset_cons target (List.nil_subset others))
        exact sameTurn_primitive h (sameEdit_clearEdit h hlocals htarget) (.clear others :: rest)
    | sequence us => exact .on h Edit.of_none (us ++ rest)
    | when condition us =>
      have hcondition := hu.mono (List.subset_append_left _ _)
      exact sameTurn_branch (h.of_values (w.evaluated_choice _ _ _ _).values
        (w'.evaluated_choice _ _ _ _).values)
        (choice_of_alike h hlocals hcondition us []) rest
    | choose condition us vs =>
      have hcondition := (hu.mono (List.subset_append_left _ _)).mono (List.subset_append_left _ _)
      exact sameTurn_branch (h.of_values (w.evaluated_choice _ _ _ _).values
        (w'.evaluated_choice _ _ _ _).values)
        (choice_of_alike h hlocals hcondition us vs) rest
    | switch cases =>
      exact sameTurn_branch (h.of_values (Evaluated.refl.chosenCase cases).values
        (Evaluated.refl.chosenCase cases).values)
        (chosenCase_of_alike h hlocals hu) rest

end Alike

/-! ### Updates that are completed -/

theorem level_of_mem_edit {e : Edit} {x : Work η} (hx : x ∈ (w.edit e).2) : x.level < 3 := by
  obtain _ | ⟨c, p⟩ := e
  · cases hx
  · rw [level_of_mem_write hx]
    exact Nat.lt_succ_self 2

/-- **Updates do the same** in worlds that are alike: they end with the same outcome, and the worlds
are alike again. -/
theorem apply_of_alike (h : Alike g P w w') (ho : w.Orderly) (hlocals : ∀ c ∈ locals.values, P c)
    {us : List (Update CellId)} (hstay : Stay g P (Update.allReferences us)) :
    (w'.apply us (locals.map g)).outcome = (w.apply us locals).outcome ∧
      Alike g P (w.apply us locals).world (w'.apply us (locals.map g)).world := by
  induction hn : Update.weightAll us using Nat.strongRecOn generalizing w w' us with
  | ind n ih =>
    subst hn
    have hturn := sameTurn_perform h hlocals hstay
    generalize ht : w.perform us locals = t at *
    generalize ht' : w'.perform us (locals.map g) = t' at *
    cases hturn with
    | ending halike outcome =>
      rw [apply_of_ending ht, apply_of_ending ht']
      exact ⟨rfl, halike⟩
    | on halike he us' =>
      have hgoes : GoesOn w us locals _ _ us' := ⟨ht, fun _ hx ↦ level_of_mem_edit hx⟩
      have hgoes' : GoesOn w' us (locals.map g) _ _ us' := ⟨ht', fun _ hx ↦ level_of_mem_edit hx⟩
      have halike' := (halike.edit he).of_values hgoes.values hgoes'.values
      obtain ⟨houtcome, hworld⟩ := ih _ hgoes.weightAll_lt halike' (hgoes.leads.orderly ho)
        (hstay.mono hgoes.within.references) rfl
      rw [hgoes.outcome_eq, hgoes'.outcome_eq]
      refine ⟨houtcome, ?_⟩
      rw [hgoes.apply_eq, hgoes'.apply_eq]
      exact hworld

end LiveTemplate.Engine.World
