import LiveTemplate.Expr.Documentation

/-!
# The references in a declaration

All the references in a predicate or an update, at whatever depth they stand, and among them those
that an update writes to, its targets. When the literals of a declaration are replaced, its
references stay where they are (`Update.mapLiterals`), and so does the outline that documents it.
-/

namespace LiveTemplate

variable {α β : Type}

namespace Reference

theorem eq_literal_of_mem {r : Reference α} {a : α} (h : a ∈ r.literals) : r = literal a := by
  cases r with
  | literal b => rw [List.mem_singleton.1 h]
  | _ => cases h

theorem describe_map (g : α → β) (text : β → String) (r : Reference α) :
    (r.map g).describe text = r.describe (text ∘ g) := by cases r <;> rfl

end Reference

/-! ### Formulas whose terms are replaced -/

namespace Formula

variable {τ υ : Type}

mutual

theorem terms_map (g : τ → υ) : ∀ f : Formula τ, (f.map g).terms = f.terms.map g
  | const _ => rfl
  | not f => terms_map g f
  | and fs => allTerms_mapAll g fs
  | or fs => allTerms_mapAll g fs
  | term _ => rfl

theorem allTerms_mapAll (g : τ → υ) :
    ∀ fs : List (Formula τ), allTerms (mapAll g fs) = (allTerms fs).map g
  | [] => rfl
  | f :: fs => by
    rw [mapAll, allTerms, allTerms, List.map_append, terms_map g f, allTerms_mapAll g fs]

end

mutual

theorem outline_map (g : α → β) (text : β → String) : ∀ p : Predicate α,
    outline text (p.mapLiterals g) = outline (text ∘ g) p
  | const _ => rfl
  | not p => by
    have ih := outline_map g text p
    rw [Predicate.mapLiterals] at ih
    rw [Predicate.mapLiterals, map, outline, outline, ih]
  | and ps => by rw [Predicate.mapLiterals, map, outline, outline, outlineAll_map g text ps]
  | or ps => by rw [Predicate.mapLiterals, map, outline, outline, outlineAll_map g text ps]
  | term t => by
    cases t <;> simp [Predicate.mapLiterals, map, outline, Term.map, Term.outline,
      Reference.outline, Reference.describe_map]

theorem outlineAll_map (g : α → β) (text : β → String) : ∀ ps : List (Predicate α),
    outlineAll text (mapAll (Term.map (Reference.map g)) ps) = outlineAll (text ∘ g) ps
  | [] => rfl
  | p :: ps => by
    have ih := outline_map g text p
    rw [Predicate.mapLiterals] at ih
    rw [mapAll, outlineAll, outlineAll, ih, outlineAll_map g text ps]

end

end Formula

namespace Predicate

/-- The references in a predicate, from left to right. -/
def references (p : Predicate α) : List (Reference α) := (Formula.terms p).flatMap Term.operands

theorem literals_eq (p : Predicate α) : p.literals = p.references.flatMap Reference.literals :=
  List.flatMap_assoc.symm

theorem references_mapLiterals (g : α → β) (p : Predicate α) :
    (p.mapLiterals g).references = p.references.map (Reference.map g) := by
  have hoperands : ∀ t : Term (Reference α),
      (t.map (Reference.map g)).operands = t.operands.map (Reference.map g) := by
    intro t
    cases t <;> rfl
  rw [references, references, mapLiterals, Formula.terms_map, List.flatMap_map, List.map_flatMap]
  simp only [hoperands]

end Predicate

namespace Update

mutual

/-- The references in an update, from left to right. -/
def references : Update α → List (Reference α)
  | assign _ target source => [target, source]
  | clear targets => targets
  | sequence updates => allReferences updates
  | when condition updates => condition.references ++ allReferences updates
  | choose condition updates otherwise =>
    condition.references ++ allReferences updates ++ allReferences otherwise
  | switch cases => caseReferences cases

/-- The references in a list of updates. -/
def allReferences : List (Update α) → List (Reference α)
  | [] => []
  | u :: rest => u.references ++ allReferences rest

/-- The references in a list of cases. -/
def caseReferences : List (Case α) → List (Reference α)
  | [] => []
  | .mk condition updates :: rest =>
    condition.references ++ allReferences updates ++ caseReferences rest

end

mutual

/-- The references that an update writes to. -/
def targets : Update α → List (Reference α)
  | assign _ target _ => [target]
  | clear targets => targets
  | sequence updates => allTargets updates
  | when _ updates => allTargets updates
  | choose _ updates otherwise => allTargets updates ++ allTargets otherwise
  | switch cases => caseTargets cases

/-- The references that a list of updates writes to. -/
def allTargets : List (Update α) → List (Reference α)
  | [] => []
  | u :: rest => u.targets ++ allTargets rest

/-- The references that the updates of a list of cases write to. -/
def caseTargets : List (Case α) → List (Reference α)
  | [] => []
  | .mk _ updates :: rest => allTargets updates ++ caseTargets rest

end

theorem allReferences_append (us vs : List (Update α)) :
    allReferences (us ++ vs) = allReferences us ++ allReferences vs := by
  induction us with
  | nil => rfl
  | cons u us ih => rw [List.cons_append, allReferences, ih, allReferences, List.append_assoc]

theorem allTargets_append (us vs : List (Update α)) :
    allTargets (us ++ vs) = allTargets us ++ allTargets vs := by
  induction us with
  | nil => rfl
  | cons u us ih => rw [List.cons_append, allTargets, ih, allTargets, List.append_assoc]

mutual

theorem literals_eq : ∀ u : Update α, u.literals = u.references.flatMap Reference.literals
  | assign _ _ _ => by simp [literals, references]
  | clear _ => rfl
  | sequence us => allLiterals_eq us
  | when p us => by
    rw [literals, references, List.flatMap_append, allLiterals_eq us, p.literals_eq]
  | choose p us vs => by
    rw [literals, references, List.flatMap_append, List.flatMap_append, allLiterals_eq us,
      allLiterals_eq vs, p.literals_eq]
  | switch cs => caseLiterals_eq cs

theorem allLiterals_eq : ∀ us : List (Update α),
    allLiterals us = (allReferences us).flatMap Reference.literals
  | [] => rfl
  | u :: us => by
    rw [allLiterals, allReferences, List.flatMap_append, literals_eq u, allLiterals_eq us]

theorem caseLiterals_eq : ∀ cs : List (Case α),
    caseLiterals cs = (caseReferences cs).flatMap Reference.literals
  | [] => rfl
  | .mk p us :: cs => by
    rw [caseLiterals, caseReferences, List.flatMap_append, List.flatMap_append, allLiterals_eq us,
      caseLiterals_eq cs, p.literals_eq]

end

mutual

/-- What an update writes to is among its references. -/
theorem targets_subset : ∀ u : Update α, u.targets ⊆ u.references
  | assign _ _ _ => List.cons_subset_cons _ (List.nil_subset _)
  | clear _ => List.Subset.refl _
  | sequence us => allTargets_subset us
  | when _ us => List.subset_append_of_subset_right _ (allTargets_subset us)
  | choose _ us vs => List.append_subset.2
    ⟨List.subset_append_of_subset_left _
      (List.subset_append_of_subset_right _ (allTargets_subset us)),
    List.subset_append_of_subset_right _ (allTargets_subset vs)⟩
  | switch cs => caseTargets_subset cs

theorem allTargets_subset : ∀ us : List (Update α), allTargets us ⊆ allReferences us
  | [] => List.Subset.refl _
  | u :: us => List.append_subset.2
    ⟨List.subset_append_of_subset_left _ (targets_subset u),
      List.subset_append_of_subset_right _ (allTargets_subset us)⟩

theorem caseTargets_subset : ∀ cs : List (Case α), caseTargets cs ⊆ caseReferences cs
  | [] => List.Subset.refl _
  | .mk _ us :: cs => List.append_subset.2
    ⟨List.subset_append_of_subset_left _
      (List.subset_append_of_subset_right _ (allTargets_subset us)),
    List.subset_append_of_subset_right _ (caseTargets_subset cs)⟩

end

/-! ### Literals that are replaced -/

mutual

/-- Applies a function to every literal of an update. -/
def mapLiterals (g : α → β) : Update α → Update β
  | assign a target source => assign a (target.map g) (source.map g)
  | clear targets => clear (targets.map (Reference.map g))
  | sequence updates => sequence (mapAll g updates)
  | when condition updates => when (condition.mapLiterals g) (mapAll g updates)
  | choose condition updates otherwise =>
    choose (condition.mapLiterals g) (mapAll g updates) (mapAll g otherwise)
  | switch cases => switch (mapCases g cases)

/-- Applies a function to every literal of a list of updates. -/
def mapAll (g : α → β) : List (Update α) → List (Update β)
  | [] => []
  | u :: rest => u.mapLiterals g :: mapAll g rest

/-- Applies a function to every literal of a list of cases. -/
def mapCases (g : α → β) : List (Case α) → List (Case β)
  | [] => []
  | .mk condition updates :: rest =>
    .mk (condition.mapLiterals g) (mapAll g updates) :: mapCases g rest

end

mutual

theorem references_mapLiterals (g : α → β) : ∀ u : Update α,
    (u.mapLiterals g).references = u.references.map (Reference.map g)
  | assign _ _ _ => rfl
  | clear _ => rfl
  | sequence us => allReferences_mapAll g us
  | when p us => by
    rw [mapLiterals, references, references, List.map_append, p.references_mapLiterals,
      allReferences_mapAll g us]
  | choose p us vs => by
    rw [mapLiterals, references, references, List.map_append, List.map_append,
      p.references_mapLiterals, allReferences_mapAll g us, allReferences_mapAll g vs]
  | switch cs => caseReferences_mapCases g cs

theorem allReferences_mapAll (g : α → β) : ∀ us : List (Update α),
    allReferences (mapAll g us) = (allReferences us).map (Reference.map g)
  | [] => rfl
  | u :: us => by
    rw [mapAll, allReferences, allReferences, List.map_append, references_mapLiterals g u,
      allReferences_mapAll g us]

theorem caseReferences_mapCases (g : α → β) : ∀ cs : List (Case α),
    caseReferences (mapCases g cs) = (caseReferences cs).map (Reference.map g)
  | [] => rfl
  | .mk p us :: cs => by
    rw [mapCases, caseReferences, caseReferences, List.map_append, List.map_append,
      p.references_mapLiterals, allReferences_mapAll g us, caseReferences_mapCases g cs]

end

mutual

/-- **What documents an update** depends on its literals only through what is written of them. -/
theorem outline_mapLiterals (g : α → β) (text : β → String) : ∀ u : Update α,
    (u.mapLiterals g).outline text = u.outline (text ∘ g)
  | assign _ _ _ => by simp [mapLiterals, outline, Reference.outline, Reference.describe_map]
  | clear _ => by
    simp [mapLiterals, outline, Function.comp_def, Reference.outline, Reference.describe_map]
  | sequence us => by rw [mapLiterals, outline, outline, outlineAll_mapAll g text us]
  | when p us => by
    rw [mapLiterals, outline, outline, Formula.outline_map g text p, outlineAll_mapAll g text us]
  | choose p us vs => by
    rw [mapLiterals, outline, outline, Formula.outline_map g text p, outlineAll_mapAll g text us,
      outlineAll_mapAll g text vs]
  | switch cs => by rw [mapLiterals, outline, outline, outlineCases_mapCases g text cs]

theorem outlineAll_mapAll (g : α → β) (text : β → String) : ∀ us : List (Update α),
    outlineAll text (mapAll g us) = outlineAll (text ∘ g) us
  | [] => rfl
  | u :: us => by
    rw [mapAll, outlineAll, outlineAll, outline_mapLiterals g text u, outlineAll_mapAll g text us]

theorem outlineCases_mapCases (g : α → β) (text : β → String) : ∀ cs : List (Case α),
    outlineCases text (mapCases g cs) = outlineCases (text ∘ g) cs
  | [] => rfl
  | .mk p us :: cs => by
    rw [mapCases, outlineCases, outlineCases, Formula.outline_map g text p,
      outlineAll_mapAll g text us, outlineCases_mapCases g text cs]

end

end Update

/-- Applies a function to every literal of an action. -/
def Action.mapLiterals (g : α → β) (a : Action α) : Action β :=
  ⟨a.target, a.kind, Update.mapAll g a.updates⟩

/-- Applies a function to every literal of a reaction. -/
def Reaction.mapLiterals (g : α → β) (r : Reaction α) : Reaction β :=
  ⟨r.target, r.kind, r.predicate.mapLiterals g⟩

namespace Interactions

variable {γ : Type}

/-- The references in actions and reactions. -/
def references (i : Interactions α γ) : List (Reference α) :=
  i.actions.flatMap (fun a ↦ Update.allReferences a.updates) ++
    i.reactions.flatMap fun r ↦ r.predicate.references

/-- The literals in actions and reactions. -/
def literals (i : Interactions α γ) : List α :=
  i.actions.flatMap (fun a ↦ Update.allLiterals a.updates) ++
    i.reactions.flatMap fun r ↦ r.predicate.literals

theorem literals_eq (i : Interactions α γ) :
    i.literals = i.references.flatMap Reference.literals := by
  rw [literals, references, List.flatMap_append, List.flatMap_assoc, List.flatMap_assoc]
  simp only [Update.allLiterals_eq, Predicate.literals_eq]

/-- The references that actions write to. -/
def targets (i : Interactions α γ) : List (Reference α) :=
  i.actions.flatMap fun a ↦ Update.allTargets a.updates

/-- The updates of the action bound to a target and a kind; none if there is no such action. -/
def updates (i : Interactions α γ) (target kind : String) : List (Update α) :=
  ((i.action? target kind).map Action.updates).getD []

/-- The updates of an action are those of one that is declared. -/
theorem updates_eq_nil_or (i : Interactions α γ) (target kind : String) :
    i.updates target kind = [] ∨ ∃ a ∈ i.actions, i.updates target kind = a.updates := by
  unfold updates
  cases h : i.action? target kind with
  | none => exact .inl rfl
  | some a => exact .inr ⟨a, List.mem_of_find?_eq_some h, rfl⟩

theorem references_updates (i : Interactions α γ) (target kind : String) :
    Update.allReferences (i.updates target kind) ⊆ i.references := by
  rcases i.updates_eq_nil_or target kind with h | ⟨a, ha, h⟩
  · rw [h]
    exact List.nil_subset _
  · rw [h]
    exact fun r hr ↦ List.mem_append_left _ (List.mem_flatMap.2 ⟨a, ha, hr⟩)

theorem targets_updates (i : Interactions α γ) (target kind : String) :
    Update.allTargets (i.updates target kind) ⊆ i.targets := by
  rcases i.updates_eq_nil_or target kind with h | ⟨a, ha, h⟩
  · rw [h]
    exact List.nil_subset _
  · rw [h]
    exact fun r hr ↦ List.mem_flatMap.2 ⟨a, ha, hr⟩

end Interactions

end LiveTemplate
