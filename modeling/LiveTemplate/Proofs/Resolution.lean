import LiveTemplate.Proofs.Acting
import LiveTemplate.Proofs.Installation
import LiveTemplate.Proofs.Scoping

/-!
# A document does not fail on its globals

A document is put to use, and anything is done to it, but that no updates are run except those of its
actions. Then at any time every reference of an action or a reaction to a global is found. So there
are three problems that can come of an action: an operand is missing from the map of local values, a
target is missing from it, or a value does not fit into another. Of a reaction only the first can
come (`resolved_of_ofElement`).
-/

namespace LiveTemplate

namespace Interactions

variable {α β γ δ : Type}

/-- The references of a declaration are those of the declaration that is read back from it. -/
theorem references_of_mapLiterals {i : Interactions α γ} {j : Interactions β δ} {g : α → β}
    (hactions : i.actions.map (Action.mapLiterals g) = j.actions)
    (hreactions : i.reactions.map (Reaction.mapLiterals g) = j.reactions) :
    j.references = i.references.map (Reference.map g) := by
  rw [references, references, ← hactions, ← hreactions, List.map_append, List.flatMap_map,
    List.flatMap_map, List.map_flatMap, List.map_flatMap]
  refine congrArg₂ _ ?_ ?_
  · refine congrArg List.flatten (List.map_congr_left fun a _ ↦ ?_)
    exact Update.allReferences_mapAll g a.updates
  · refine congrArg List.flatten (List.map_congr_left fun r _ ↦ ?_)
    exact r.predicate.references_mapLiterals g

end Interactions

namespace Engine

open World Template

variable {η : Type}

/-! ### What may be missing -/

/-- What is wrong if an operand is missing from the map of local values. -/
def MissingOperand (rs : List (Reference CellId)) (w : World η) (locals : ValueMap) (p : Problem) :
    Prop :=
  ∃ term key, .fromLocal key ∈ rs ∧ locals.get? key = none ∧
    p = .unresolvedOperand term ((.fromLocal key : Reference CellId).describe w.describe)
      (w.describeMap locals) ∧
    p.severity = .error ∧ p.source = "predicate"

/-- What is wrong if a target is missing from the map of local values. -/
def MissingTarget (ts : List (Reference CellId)) (w : World η) (locals : ValueMap) (p : Problem) :
    Prop :=
  ∃ update key, .fromLocal key ∈ ts ∧ locals.get? key = none ∧
    p = .unresolvedTarget update ((.fromLocal key : Reference CellId).describe w.describe) ∧
    p.severity = .fatal ∧ p.source = "update"

/-- What is wrong if what one cell holds does not fit into another. -/
def Misfolded (w : World η) (p : Problem) : Prop :=
  ∃ a : Assignment, ∃ into from_, Payload.fold a.mode (w.payload into) (w.payload from_) = none ∧
    p = .cannotFold a.name (w.payload from_).kind (w.payload into).kind ∧
    p.severity = .error ∧ p.source = "update"

section Missing

variable {w : World η} {locals : ValueMap} {p : Problem} {i : Interactions CellId CellId}

theorem eq_fromLocal_of_resolve {r : Reference CellId} (hpublished : w.published = true)
    (h : w.resolve locals r = .ok none) : ∃ key, r = .fromLocal key ∧ locals.get? key = none := by
  cases r with
  | literal c => cases h
  | fromLocal key => exact ⟨key, rfl, Except.ok.inj h⟩
  | fromGlobal key =>
    have h : w.global? key = .ok none := h
    rw [global?, if_pos hpublished] at h
    split at h <;> cases h

theorem missing_of_unfound {rs : List (Reference CellId)} (hpublished : w.published = true)
    (hknown : ∀ r ∈ rs, r.Known w.globals.keys) (h : Unfound w locals rs p) :
    MissingOperand rs w locals p := by
  cases h with
  | unknown hmem _ hnone =>
    have hsome := OrderedMap.mem_keys_iff.1 (hknown _ hmem)
    rw [hnone] at hsome
    cases hsome
  | operand ht hr hnone =>
    obtain ⟨key, rfl, hkey⟩ := eq_fromLocal_of_resolve hpublished hnone
    exact ⟨_, key, ht hr, hkey, rfl, rfl, rfl⟩

/-- **What may come of updates that refer to known globals only.** -/
theorem missing_of_failure {us : List (Update CellId)} (hpublished : w.published = true)
    (hknown : ∀ r ∈ i.references, r.Known w.globals.keys) (hcovers : i.Covers us)
    (h : Failure w locals us p) :
    MissingOperand i.references w locals p ∨ MissingTarget i.targets w locals p ∨
      Misfolded w p := by
  cases h with
  | unfound h =>
    exact .inl (missing_of_unfound hpublished hknown (h.mono hcovers.references))
  | target hmem hnone =>
    obtain ⟨key, rfl, hkey⟩ := eq_fromLocal_of_resolve hpublished hnone
    exact .inr (.inl ⟨_, key, hcovers.targets hmem, hkey, rfl, rfl, rfl⟩)
  | fold h => exact .inr (.inr ⟨_, _, _, h, rfl, rfl, rfl⟩)

end Missing

/-! ### Documents in use -/

/-- **The references of a document in use are to globals that there are.** -/
theorem World.Installed.known {file : String} {root : Markup.Element} {d : Document}
    {i : Interactions CellId CellId} {w : World η} (hi : Installed d i w)
    (h : Document.ofElement file root = .ok d) : ∀ r ∈ i.references, r.Known w.globals.keys := by
  intro r hr
  have hkeys : w.globals.keys = d.globals.keys := by
    rw [OrderedMap.keys, OrderedMap.keys, ← hi.globals, List.map_map]
    rfl
  obtain ⟨hactions, hreactions⟩ := hi.reads w.payload hi.literals
  have hmem : r.map w.payload ∈ d.interactions.references := by
    rw [Interactions.references_of_mapLiterals hactions hreactions]
    exact List.mem_map_of_mem hr
  rw [hkeys, ← Reference.known_map]
  exact known_of_ofElement h _ hmem

namespace Activity

/-- **A document does not fail on its globals.** Let a template denote a document, and let anything
be done to the document in use, but that no updates are run except those of its actions. At any time
the references of actions and reactions to globals are found. If the updates of an action fail, then
an operand or a target is missing from the map of local values, or a value does not fit; and if a
reaction cannot be observed, an operand is missing. -/
theorem resolved_of_ofElement {file : String} {root : Markup.Element} {d : Document}
    {i : Interactions CellId CellId} {w : World η} {es : List Happening} {b : Activity η}
    (h : Document.ofElement file root = .ok d) (hdocument : ofDocument d = (i, w))
    (hrun : Run (acting i) ⟨w, []⟩ es b) :
    (∀ key locals, .fromGlobal key ∈ i.references →
      ∃ c, b.world.resolve locals (.fromGlobal key) = .ok (some c)) ∧
    (∀ us locals stack p, b.stack = .perform us locals :: stack →
      (b.world.turn (.perform us locals)).outcome = some (.error p) →
        MissingOperand i.references b.world locals p ∨ MissingTarget i.targets b.world locals p ∨
          Misfolded b.world p) ∧
    (∀ target kind locals p, (b.world.apply (i.updates target kind) locals).outcome = .error p →
      ∃ w' us, Leads b.world (i.updates target kind) locals w' us ∧
        (MissingOperand i.references w' locals p ∨ MissingTarget i.targets w' locals p ∨
          Misfolded w' p)) ∧
    ∀ r ∈ i.reactions, ∀ locals p, b.world.observePredicate locals r.predicate = .error p →
      MissingOperand r.predicate.references b.world locals p := by
  have hi := installed_of_ofDocument hdocument
  obtain ⟨hpublished, hglobals⟩ := hrun.globals hi.orderly hi.published
  have ho := hrun.orderly hi.orderly
  have hknown : ∀ r ∈ i.references, r.Known b.world.globals.keys := hglobals ▸ hi.known h
  refine ⟨fun key locals hmem ↦ ?_, fun us locals stack p hstack hp ↦ ?_,
    fun target kind locals p hp ↦ ?_, fun r hr locals p hp ↦ ?_⟩
  · obtain ⟨c, hc⟩ := Option.isSome_iff_exists.1 (OrderedMap.mem_keys_iff.1 (hknown _ hmem))
    refine ⟨c, ?_⟩
    rw [resolve, global?, if_pos hpublished, hc]
  · have hcovers := hrun.covers (hstack ▸ List.mem_cons_self)
    have hperformed := b.world.performed_perform us locals
    rw [turn] at hp
    generalize b.world.perform us locals = t at *
    cases hperformed with
    | failed _ hfailure =>
      cases hp
      exact missing_of_failure hpublished hknown hcovers hfailure
    | done => cases hp
    | on => cases hp
    | put => cases hp
  · obtain ⟨w', us, hleads, hwithin, hfailure⟩ := exists_of_apply_eq_error hp
    obtain ⟨es', hrun'⟩ := hleads anything []
    obtain ⟨hpublished', hglobals'⟩ := hrun'.globals ho hpublished
    refine ⟨w', us, hleads, missing_of_failure hpublished' ?_ ?_ hfailure⟩
    · rw [hglobals']
      exact hknown
    · exact covers_within (i.covers_updates target kind) hwithin
  · refine missing_of_unfound hpublished (fun r' hr' ↦ hknown r' ?_)
      (unfound_of_observePredicate hp)
    exact List.mem_append_right _ (List.mem_flatMap.2 ⟨r, hr, hr'⟩)

/-! ### A copy without a target -/

/-- A template of which an action copies a global to where the map of local values says. -/
def copying : Markup.Element :=
  .mk "traceviz" [] [
    .element (.mk "global-state" [] [
      .element (.mk "value" [⟨"key", "x"⟩] [
        .element (.mk "string" [] [.text "on" 4] 4)] 3)] 2),
    .element (.mk "interactions" [] [
      .element (.mk "action" [⟨"target", "a"⟩, ⟨"type", "b"⟩] [
        .element (.mk "set" [] [
          .element (.mk "local-ref" [⟨"key", "k"⟩] [] 8),
          .element (.mk "global-ref" [⟨"key", "x"⟩] [] 8)] 7)] 6)] 5)] 1

/-- What that template denotes, in use. -/
def copier : Interactions CellId CellId × World Unit :=
  ofDocument ⟨.ofList [("x", .string "on")],
    ⟨[⟨"a", "b", [.assign .set (.fromLocal "k") (.fromGlobal "x")]⟩], [], []⟩⟩

/-- Without local values the global is found, and the target is missing. -/
theorem resolved_of_ofElement_copying :
    (∃ c, copier.2.resolve .empty (.fromGlobal "x") = .ok (some c)) ∧
      (copier.2.turn (.perform (copier.1.updates "a" "b") .empty)).outcome =
        some (.error (.unresolvedTarget "set" "local-ref k")) ∧
      (MissingOperand copier.1.references copier.2 .empty (.unresolvedTarget "set" "local-ref k") ∨
        MissingTarget copier.1.targets copier.2 .empty (.unresolvedTarget "set" "local-ref k") ∨
        Misfolded copier.2 (.unresolvedTarget "set" "local-ref k")) := by
  have hrun : Run (acting copier.1) ⟨copier.2, []⟩ _
      ⟨copier.2, [.perform (copier.1.updates "a" "b") .empty]⟩ :=
    (Run.refl _).deed (.perform (copier.1.updates "a" "b") .empty) trivial
      fun _ _ heq ↦ ⟨"a", "b", by cases heq; rfl⟩
  have helement : Document.ofElement "t" copying = .ok _ := rfl
  obtain ⟨hglobal, hfailed, -⟩ := resolved_of_ofElement helement rfl hrun
  have hoperand : .fromGlobal "x" ∈ copier.1.references :=
    List.mem_cons_of_mem _ List.mem_cons_self
  exact ⟨hglobal "x" .empty hoperand, rfl, hfailed _ .empty [] _ rfl rfl⟩

end Activity

end Engine

end LiveTemplate
