import LiveTemplate.Proofs.Outlines

/-!
# Declarations read back from their documentation

The text that documents a predicate or an update determines it, up to what is written of its
literals (`documentation_determines`). The outline can be told from the text, as every heading is on
one line of its own; and from an outline the declaration is read back, constructor by constructor
(`Formula.ofOutline?_outline`, `Update.ofOutline?_outline`). A literal is read back as the text that
describes it.
-/

namespace LiveTemplate

/-! ### Predicates -/

/-- What stands behind a word in a heading. -/
def Outline.behind? (word heading : String) : Option String :=
  (heading.toList.dropPrefix? word.toList).map String.ofList

theorem Outline.behind?_append (word s : String) : behind? word (word ++ s) = some s := by
  rw [behind?, String.toList_append,
    List.dropPrefix?_eq_some_iff.2 ⟨word.toList, rfl, beq_self_eq_true _⟩]
  simp

/-- The reference with a heading. -/
def Reference.ofOutline? : Outline → Option (Reference String)
  | .node heading [] =>
    (Outline.behind? "literal " heading).map .literal <|>
      (Outline.behind? "local-ref " heading).map .fromLocal <|>
        (Outline.behind? "global-ref " heading).map .fromGlobal
  | _ => none

theorem Reference.ofOutline?_outline (r : Reference String) :
    ofOutline? (r.outline id) = some r := by
  have hother : ∀ key, Outline.behind? "literal " ("local-ref " ++ key) = none := fun key ↦ by
    simp [Outline.behind?, List.dropPrefix?]
  have hother' : ∀ key, Outline.behind? "literal " ("global-ref " ++ key) = none ∧
      Outline.behind? "local-ref " ("global-ref " ++ key) = none := fun key ↦ by
    simp [Outline.behind?, List.dropPrefix?]
  cases r with
  | literal s =>
    simp [Reference.outline, describe, Outline.leaf, ofOutline?, Outline.behind?_append]
  | fromLocal key =>
    simp [Reference.outline, describe, Outline.leaf, ofOutline?, Outline.behind?_append, hother]
  | fromGlobal key =>
    simp [Reference.outline, describe, Outline.leaf, ofOutline?, Outline.behind?_append, hother']

/-- The window in the heading of a term. -/
def Term.window? (heading : String) : Option UInt64 :=
  if heading = "changed" then some 0
  else do
    let rest ← heading.toList.dropPrefix? "changed since ".toList
    let digits ← rest.dropSuffix? "ms".toList
    Decimal.uint64? digits

theorem Term.window?_since {window : UInt64} :
    window? ("changed since " ++ toString window.toNat ++ "ms") = some window := by
  have hne : "changed since " ++ toString window.toNat ++ "ms" ≠ "changed" := fun h ↦ by
    have hlength := congrArg (fun s : String ↦ s.toList.length) h
    simp at hlength
  have hbehind : ("changed since " ++ toString window.toNat ++ "ms").toList.dropPrefix?
      "changed since ".toList = some ((toString window.toNat).toList ++ "ms".toList) :=
    List.dropPrefix?_eq_some_iff.2 ⟨_, by simp, beq_self_eq_true _⟩
  have hfront : ((toString window.toNat).toList ++ "ms".toList).dropSuffix? "ms".toList =
      some (toString window.toNat).toList :=
    List.dropSuffix?_eq_some_iff.2 ⟨_, by simp, beq_self_eq_true _⟩
  rw [window?, if_neg hne, hbehind]
  simp only [Option.bind_eq_bind, Option.bind_some, hfront, Decimal.uint64?_toString]

/-- The term with an outline. -/
def Term.ofOutline? : Outline → Option (Term (Reference String))
  | .node heading [left, right] => do
    let r ← Relation.ofName? heading
    let a ← Reference.ofOutline? left
    let b ← Reference.ofOutline? right
    pure (.relation r a b)
  | .node heading [operand] => do
    let window ← Term.window? heading
    let a ← Reference.ofOutline? operand
    pure (.changed a window)
  | _ => none

theorem Term.ofOutline?_outline (t : Term (Reference String)) :
    ofOutline? (t.outline id) = some t := by
  cases t with
  | relation r a b =>
    simp [Term.outline, ofOutline?, Relation.ofName?_name, Reference.ofOutline?_outline]
  | changed a window =>
    by_cases hwindow : window = 0
    · subst hwindow
      simp [Term.outline, ofOutline?, window?, Reference.ofOutline?_outline]
    · rw [Term.outline, if_neg hwindow, ofOutline?, window?_since, Reference.ofOutline?_outline]
      rfl

/-- A heading that names neither a relation nor a window is that of no term. -/
theorem Term.ofOutline?_eq_none {heading : String} (hrelation : Relation.ofName? heading = none)
    (hwindow : window? heading = none) (parts : List Outline) :
    ofOutline? (.node heading parts) = none := by
  unfold ofOutline?
  split <;> simp_all

namespace Formula

mutual

/-- The predicate with an outline. -/
def ofOutline? : Outline → Option (Predicate String)
  | .node heading parts =>
    match Term.ofOutline? (.node heading parts) with
    | some t => some (.term t)
    | none =>
      match heading, parts with
      | "true", [] => some (.const true)
      | "false", [] => some (.const false)
      | "not", [o] => (ofOutline? o).map .not
      | "and", os => (allOfOutlines? os).map .and
      | "or", os => (allOfOutlines? os).map .or
      | _, _ => none

/-- The predicates with some outlines. -/
def allOfOutlines? : List Outline → Option (List (Predicate String))
  | [] => some []
  | o :: rest => do
    let p ← ofOutline? o
    let ps ← allOfOutlines? rest
    pure (p :: ps)

end

mutual

/-- **A predicate is read back from its outline.** -/
theorem ofOutline?_outline : ∀ p : Predicate String, ofOutline? (p.outline id) = some p
  | const true => by
    rw [outline, Outline.leaf, if_pos rfl]
    unfold ofOutline?
    rw [Term.ofOutline?_eq_none (by decide) (by decide)]
    rfl
  | const false => by
    rw [outline, Outline.leaf, if_neg (by decide)]
    unfold ofOutline?
    rw [Term.ofOutline?_eq_none (by decide) (by decide)]
    rfl
  | not p => by
    rw [outline, ofOutline?, Term.ofOutline?_eq_none (by decide) (by decide)]
    exact congrArg (Option.map not) (ofOutline?_outline p)
  | and ps => by
    rw [outline, ofOutline?, Term.ofOutline?_eq_none (by decide) (by decide)]
    exact congrArg (Option.map and) (allOfOutlines?_outlineAll ps)
  | or ps => by
    rw [outline, ofOutline?, Term.ofOutline?_eq_none (by decide) (by decide)]
    exact congrArg (Option.map or) (allOfOutlines?_outlineAll ps)
  | term t => by
    have ht := Term.ofOutline?_outline t
    rw [outline]
    generalize t.outline id = o at ht
    obtain ⟨heading, parts⟩ := o
    unfold ofOutline?
    rw [ht]

theorem allOfOutlines?_outlineAll : ∀ ps : List (Predicate String),
    allOfOutlines? (outlineAll id ps) = some ps
  | [] => rfl
  | p :: ps => by
    rw [outlineAll, allOfOutlines?, ofOutline?_outline p, allOfOutlines?_outlineAll ps]
    rfl

end

end Formula

namespace Update

mutual

/-- The update with an outline. -/
def ofOutline? : Outline → Option (Update String)
  | .node "clear" targets => (targets.mapM Reference.ofOutline?).map .clear
  | .node "do" parts => (allOfOutlines? parts).map .sequence
  | .node "if" [condition, .node "then" parts] => do
    let p ← Formula.ofOutline? condition
    let us ← allOfOutlines? parts
    pure (.when p us)
  | .node "if" [condition, .node "then" parts, .node "else" others] => do
    let p ← Formula.ofOutline? condition
    let us ← allOfOutlines? parts
    let vs ← allOfOutlines? others
    pure (.choose p us vs)
  | .node "switch" cases => (casesOfOutlines? cases).map .switch
  | .node heading [target, source] => do
    let a ← Assignment.ofName? heading
    let r ← Reference.ofOutline? target
    let s ← Reference.ofOutline? source
    pure (.assign a r s)
  | _ => none

/-- The updates with some outlines. -/
def allOfOutlines? : List Outline → Option (List (Update String))
  | [] => some []
  | o :: rest => do
    let u ← ofOutline? o
    let us ← allOfOutlines? rest
    pure (u :: us)

/-- The cases with some outlines. -/
def casesOfOutlines? : List Outline → Option (List (Case String))
  | [] => some []
  | .node "case" (condition :: parts) :: rest => do
    let p ← Formula.ofOutline? condition
    let us ← allOfOutlines? parts
    let cs ← casesOfOutlines? rest
    pure (.mk p us :: cs)
  | _ => none

end

mutual

/-- **An update is read back from its outline.** -/
theorem ofOutline?_outline : ∀ u : Update String, ofOutline? (u.outline id) = some u
  | assign a target source => by
    have hread : ofOutline? ((assign a target source).outline id) =
        (Assignment.ofName? a.name).bind fun a ↦ some (assign a target source) := by
      cases a <;> simp [outline, ofOutline?, Assignment.name, Reference.ofOutline?_outline]
    rw [hread, a.ofName?_name]
    rfl
  | clear targets => by
    have hread : (targets.map (Reference.outline id)).mapM Reference.ofOutline? = some targets := by
      rw [List.mapM_map, Function.comp_def]
      simp only [Reference.ofOutline?_outline]
      exact List.mapM_pure.trans (congrArg some (List.map_id' targets))
    rw [outline, ofOutline?, hread]
    rfl
  | sequence us => by
    rw [outline, ofOutline?, allOfOutlines?_outlineAll us]
    rfl
  | when p us => by
    rw [outline, ofOutline?, Formula.ofOutline?_outline p, allOfOutlines?_outlineAll us]
    rfl
  | choose p us vs => by
    rw [outline, ofOutline?, Formula.ofOutline?_outline p, allOfOutlines?_outlineAll us,
      allOfOutlines?_outlineAll vs]
    rfl
  | switch cs => by
    rw [outline, ofOutline?, casesOfOutlines?_outlineCases cs]
    rfl

theorem allOfOutlines?_outlineAll : ∀ us : List (Update String),
    allOfOutlines? (outlineAll id us) = some us
  | [] => rfl
  | u :: us => by
    rw [outlineAll, allOfOutlines?, ofOutline?_outline u, allOfOutlines?_outlineAll us]
    rfl

theorem casesOfOutlines?_outlineCases : ∀ cs : List (Case String),
    casesOfOutlines? (outlineCases id cs) = some cs
  | [] => rfl
  | .mk p us :: cs => by
    rw [outlineCases, casesOfOutlines?, Formula.ofOutline?_outline p, allOfOutlines?_outlineAll us,
      casesOfOutlines?_outlineCases cs]
    rfl

end

end Update

/-! ### Headings are legible -/

/-- Whether the key of a reference has no line feed in it. -/
def Reference.OneLine {α : Type} : Reference α → Prop
  | .literal _ => True
  | .fromLocal key => '\n' ∉ key.toList
  | .fromGlobal key => '\n' ∉ key.toList

variable {α : Type} {text : α → String}

section Legible

open Outline

variable {level : Nat} {heading : String} {parts : List Outline}

theorem allLegible_node (h : Legible heading) (hparts : AllLegible (allLines (level + 1) parts)) :
    AllLegible ((Outline.node heading parts).lines level) := by
  rw [Outline.lines]
  exact List.forall_mem_cons.2 ⟨h, hparts⟩

theorem allLegible_nil : AllLegible (allLines level []) := fun _ hmem ↦ nomatch hmem

theorem allLegible_cons {o : Outline} (ho : AllLegible (o.lines level))
    (hparts : AllLegible (allLines level parts)) : AllLegible (allLines level (o :: parts)) := by
  rw [allLines]
  exact List.forall_mem_append.2 ⟨ho, hparts⟩

theorem legible_describe (htext : ∀ a, '\n' ∉ (text a).toList) {r : Reference α} (h : r.OneLine) :
    Legible (r.describe text) := by
  cases r with
  | literal a => exact ⟨by simp [Reference.describe, htext], by simp [Reference.describe]⟩
  | fromLocal key =>
    have hkey : '\n' ∉ key.toList := h
    exact ⟨by simp [Reference.describe, hkey], by simp [Reference.describe]⟩
  | fromGlobal key =>
    have hkey : '\n' ∉ key.toList := h
    exact ⟨by simp [Reference.describe, hkey], by simp [Reference.describe]⟩

theorem allLegible_reference (htext : ∀ a, '\n' ∉ (text a).toList) {r : Reference α}
    (h : r.OneLine) : AllLegible ((r.outline text).lines level) :=
  allLegible_node (legible_describe htext h) allLegible_nil

theorem allLegible_references (htext : ∀ a, '\n' ∉ (text a).toList) {rs : List (Reference α)}
    (h : ∀ r ∈ rs, r.OneLine) :
    AllLegible (allLines level (rs.map (Reference.outline text))) := by
  induction rs with
  | nil => exact allLegible_nil
  | cons r rs ih =>
    rw [List.forall_mem_cons] at h
    exact allLegible_cons (allLegible_reference htext h.1) (ih h.2)

theorem allLegible_term (htext : ∀ a, '\n' ∉ (text a).toList) {t : Term (Reference α)}
    (h : ∀ r ∈ t.operands, r.OneLine) : AllLegible ((t.outline text).lines level) := by
  have hoperands : AllLegible (allLines (level + 1) (t.operands.map (Reference.outline text))) :=
    allLegible_references htext h
  cases t with
  | relation r a b =>
    have hname : Legible r.name := by cases r <;> exact ⟨by decide, by decide⟩
    exact allLegible_node hname hoperands
  | changed a window =>
    have hnumber : '\n' ∉ Nat.toDigits 10 window.toNat :=
      Decimal.newline_not_mem_toDigits (by decide) (by decide) _
    have hsince : Legible ("changed since " ++ toString window.toNat ++ "ms") :=
      ⟨by simp [hnumber], by simp⟩
    exact allLegible_node (iteInduction (fun _ ↦ ⟨by decide, by decide⟩) fun _ ↦ hsince) hoperands

mutual

/-- **The headings of a predicate are legible** if its keys are on one line each. -/
theorem allLegible_predicate (htext : ∀ a, '\n' ∉ (text a).toList) :
    ∀ (p : Predicate α) {level : Nat}, (∀ r ∈ p.references, r.OneLine) →
      AllLegible ((Formula.outline text p).lines level)
  | .const true, _, _ => allLegible_node ⟨by decide, by decide⟩ allLegible_nil
  | .const false, _, _ => allLegible_node ⟨by decide, by decide⟩ allLegible_nil
  | .not p, _, h => allLegible_node ⟨by decide, by decide⟩
    (allLegible_cons (allLegible_predicate htext p h) allLegible_nil)
  | .and ps, _, h => allLegible_node ⟨by decide, by decide⟩ (allLegible_predicates htext ps h)
  | .or ps, _, h => allLegible_node ⟨by decide, by decide⟩ (allLegible_predicates htext ps h)
  | .term t, _, h =>
    allLegible_term htext fun r hr ↦ h r (List.mem_flatMap.2 ⟨t, List.mem_singleton_self t, hr⟩)

theorem allLegible_predicates (htext : ∀ a, '\n' ∉ (text a).toList) :
    ∀ (ps : List (Predicate α)) {level : Nat},
      (∀ r ∈ (Formula.allTerms ps).flatMap Term.operands, r.OneLine) →
        AllLegible (allLines level (Formula.outlineAll text ps))
  | [], _, _ => allLegible_nil
  | p :: ps, _, h => by
    rw [Formula.allTerms, List.flatMap_append, List.forall_mem_append] at h
    exact allLegible_cons (allLegible_predicate htext p h.1) (allLegible_predicates htext ps h.2)

end

mutual

/-- **The headings of an update are legible** if its keys are on one line each. -/
theorem allLegible_update (htext : ∀ a, '\n' ∉ (text a).toList) :
    ∀ (u : Update α) {level : Nat}, (∀ r ∈ u.references, r.OneLine) →
      AllLegible ((u.outline text).lines level)
  | .assign a target source, _, h => by
    have hname : Legible a.name := by cases a <;> exact ⟨by decide, by decide⟩
    exact allLegible_node hname (allLegible_references htext h)
  | .clear targets, _, h =>
    allLegible_node ⟨by decide, by decide⟩ (allLegible_references htext h)
  | .sequence us, _, h => allLegible_node ⟨by decide, by decide⟩ (allLegible_updates htext us h)
  | .when p us, level, h => by
    rw [Update.references, List.forall_mem_append] at h
    have hthen : AllLegible ((Outline.node "then" (Update.outlineAll text us)).lines (level + 1)) :=
      allLegible_node ⟨by decide, by decide⟩ (allLegible_updates htext us h.2)
    exact allLegible_node ⟨by decide, by decide⟩
      (allLegible_cons (allLegible_predicate htext p h.1) (allLegible_cons hthen allLegible_nil))
  | .choose p us vs, level, h => by
    rw [Update.references, List.forall_mem_append, List.forall_mem_append] at h
    have hthen : AllLegible ((Outline.node "then" (Update.outlineAll text us)).lines (level + 1)) :=
      allLegible_node ⟨by decide, by decide⟩ (allLegible_updates htext us h.1.2)
    have helse : AllLegible ((Outline.node "else" (Update.outlineAll text vs)).lines (level + 1)) :=
      allLegible_node ⟨by decide, by decide⟩ (allLegible_updates htext vs h.2)
    exact allLegible_node ⟨by decide, by decide⟩
      (allLegible_cons (allLegible_predicate htext p h.1.1)
        (allLegible_cons hthen (allLegible_cons helse allLegible_nil)))
  | .switch cs, _, h => allLegible_node ⟨by decide, by decide⟩ (allLegible_cases htext cs h)

theorem allLegible_updates (htext : ∀ a, '\n' ∉ (text a).toList) :
    ∀ (us : List (Update α)) {level : Nat}, (∀ r ∈ Update.allReferences us, r.OneLine) →
      AllLegible (allLines level (Update.outlineAll text us))
  | [], _, _ => allLegible_nil
  | u :: us, _, h => by
    rw [Update.allReferences, List.forall_mem_append] at h
    exact allLegible_cons (allLegible_update htext u h.1) (allLegible_updates htext us h.2)

theorem allLegible_cases (htext : ∀ a, '\n' ∉ (text a).toList) :
    ∀ (cs : List (Case α)) {level : Nat}, (∀ r ∈ Update.caseReferences cs, r.OneLine) →
      AllLegible (allLines level (Update.outlineCases text cs))
  | [], _, _ => allLegible_nil
  | .mk p us :: cs, _, h => by
    rw [Update.caseReferences, List.forall_mem_append, List.forall_mem_append] at h
    exact allLegible_cons (allLegible_node ⟨by decide, by decide⟩
      (allLegible_cons (allLegible_predicate htext p h.1.1) (allLegible_updates htext us h.1.2)))
      (allLegible_cases htext cs h.2)

end

end Legible

/-! ### Declarations and their texts -/

variable {β : Type} {text' : β → String}

/-- A predicate and its outline determine each other, up to what is written of the literals. -/
theorem Formula.outline_eq_iff {p : Predicate α} {q : Predicate β} :
    p.outline text = q.outline text' ↔ p.mapLiterals text = q.mapLiterals text' := by
  have hp : outline id (p.mapLiterals text) = p.outline text := outline_map text id p
  have hq : outline id (q.mapLiterals text') = q.outline text' := outline_map text' id q
  rw [← hp, ← hq]
  refine ⟨fun h ↦ Option.some.inj ?_, congrArg _⟩
  rw [← ofOutline?_outline, h, ofOutline?_outline]

/-- An update and its outline determine each other, up to what is written of the literals. -/
theorem Update.outline_eq_iff {u : Update α} {v : Update β} :
    u.outline text = v.outline text' ↔ u.mapLiterals text = v.mapLiterals text' := by
  have hu : (u.mapLiterals text).outline id = u.outline text := outline_mapLiterals text id u
  have hv : (v.mapLiterals text').outline id = v.outline text' := outline_mapLiterals text' id v
  rw [← hu, ← hv]
  refine ⟨fun h ↦ Option.some.inj ?_, congrArg _⟩
  rw [← ofOutline?_outline, h, ofOutline?_outline]

/-- **The documentation of a declaration determines it.** Two predicates whose keys are on one line
each are documented by the same text if and only if they are the same but for literals that are
described alike, and so are two updates; and whatever is documented, the writer is at the level at
which it was before. -/
theorem documentation_determines (f : α → Payload) (g : β → Payload) :
    (∀ (p : Predicate α) (q : Predicate β),
      (∀ r ∈ p.references, r.OneLine) → (∀ r ∈ q.references, r.OneLine) →
        ((p.outline fun a ↦ (f a).describe).render = (q.outline fun b ↦ (g b).describe).render ↔
          p.mapLiterals (fun a ↦ (f a).describe) = q.mapLiterals fun b ↦ (g b).describe)) ∧
      (∀ (u : Update α) (v : Update β),
        (∀ r ∈ u.references, r.OneLine) → (∀ r ∈ v.references, r.OneLine) →
          ((u.outline fun a ↦ (f a).describe).render = (v.outline fun b ↦ (g b).describe).render ↔
            u.mapLiterals (fun a ↦ (f a).describe) = v.mapLiterals fun b ↦ (g b).describe)) ∧
      ∀ (o : Outline) (w : Writer), (o.write w).depth = w.depth := by
  have hf : ∀ a, '\n' ∉ (f a).describe.toList := fun a ↦ (f a).newline_not_mem_describe
  have hg : ∀ b, '\n' ∉ (g b).describe.toList := fun b ↦ (g b).newline_not_mem_describe
  refine ⟨fun p q hp hq ↦ ?_, fun u v hu hv ↦ ?_, fun o w ↦ (o.wrote_write w).1⟩
  · rw [← Formula.outline_eq_iff]
    exact ⟨Outline.render_inj (allLegible_predicate hf p hp) (allLegible_predicate hg q hq),
      congrArg _⟩
  · rw [← Update.outline_eq_iff]
    exact ⟨Outline.render_inj (allLegible_update hf u hu) (allLegible_update hg v hv), congrArg _⟩

/-- A choice with nothing to do otherwise has another text than one without otherwise. -/
theorem documentation_determines_empty_else :
    let condition : Predicate Payload := .term (.changed (.fromGlobal "g") 5)
    let u : Update Payload := .choose condition [] []
    let v : Update Payload := .when condition []
    ((∀ r ∈ u.references, r.OneLine) ∧ ∀ r ∈ v.references, r.OneLine) ∧
      (u.outline Payload.describe).render ≠ (v.outline Payload.describe).render := by
  intro condition u v
  have hkey : Reference.OneLine (.fromGlobal "g" : Reference Payload) := by
    show '\n' ∉ "g".toList
    decide
  have hu : ∀ r ∈ u.references, r.OneLine := List.forall_mem_singleton.2 hkey
  have hv : ∀ r ∈ v.references, r.OneLine := List.forall_mem_singleton.2 hkey
  refine ⟨⟨hu, hv⟩, fun h ↦ ?_⟩
  exact nomatch ((documentation_determines id id).2.1 u v hu hv).1 h

end LiveTemplate
