import LiveTemplate.Engine.Completion
import LiveTemplate.Proofs.References
import LiveTemplate.Template.Document

/-!
# What a template may refer to

A template that denotes a document refers to no global that it does not declare, at whatever depth
of a predicate or an update the reference stands (`known_of_ofElement`). This is one half of what it
means that the predicates and updates of a template are well-formed (`wellFormed_of_predicate`,
`wellFormed_of_update`); the other is that nothing in them lacks what it must have (`Ample`,
`AmpleUpdate`).
-/

namespace LiveTemplate

/-- A reference to a global is to one of some keys. -/
def Reference.Known {α : Type} (keys : List String) : Reference α → Prop
  | .fromGlobal key => key ∈ keys
  | _ => True

theorem Reference.known_map {α β : Type} {keys : List String} {g : α → β} {r : Reference α} :
    (r.map g).Known keys ↔ r.Known keys := by cases r <;> rfl

namespace Template

open Markup
open Engine.World (exists_of_bind_eq_ok)

/-- What a result comes of that is passed through a function. -/
theorem exists_of_map_eq_ok {α β : Type} {first : Except Problem α} {f : α → β} {b : β}
    (h : first.map f = .ok b) : ∃ a, first = .ok a ∧ f a = b := by
  cases first with
  | error e => cases h
  | ok a => exact ⟨a, rfl, Except.ok.inj h⟩

/-! ### Well-formed trees -/

mutual

/-- Every conjunction and disjunction is of two predicates or more. -/
def Ample : Predicate Payload → Prop
  | .const _ => True
  | .not p => Ample p
  | .and ps => 2 ≤ ps.length ∧ AllAmple ps
  | .or ps => 2 ≤ ps.length ∧ AllAmple ps
  | .term _ => True

/-- `Ample` for each predicate of a list. -/
def AllAmple : List (Predicate Payload) → Prop
  | [] => True
  | p :: ps => Ample p ∧ AllAmple ps

end

mutual

/-- Something is cleared by every `<clear>`, every `<switch>` has a case, and all predicates are
ample. -/
def AmpleUpdate : Update Payload → Prop
  | .assign _ _ _ => True
  | .clear targets => targets ≠ []
  | .sequence us => AllAmpleUpdates us
  | .when p us => Ample p ∧ AllAmpleUpdates us
  | .choose p us vs => Ample p ∧ AllAmpleUpdates us ∧ AllAmpleUpdates vs
  | .switch cs => cs ≠ [] ∧ AmpleCases cs

/-- `AmpleUpdate` for each update of a list. -/
def AllAmpleUpdates : List (Update Payload) → Prop
  | [] => True
  | u :: us => AmpleUpdate u ∧ AllAmpleUpdates us

/-- The cases of a `<switch>` are ample. -/
def AmpleCases : List (Case Payload) → Prop
  | [] => True
  | .mk p us :: cs => Ample p ∧ AllAmpleUpdates us ∧ AmpleCases cs

end

/-- A predicate that can be written where some globals are known. -/
structure WellFormedPredicate (globals : List String) (p : Predicate Payload) : Prop where
  ample : Ample p
  known : ∀ r ∈ p.references, r.Known globals

/-- An update that can be written where some globals are known. -/
structure WellFormedUpdate (globals : List String) (u : Update Payload) : Prop where
  ample : AmpleUpdate u
  known : ∀ r ∈ u.references, r.Known globals

namespace Scope

variable {s : Scope} {e : Element}

theorem refuse_ne_ok {α : Type} {misuse : Misuse} {a : α} : s.refuse e misuse ≠ .ok a := nofun

theorem wrongCount_ne_ok {α : Type} {n : Nat} {a : α} : s.wrongCount e n ≠ .ok a := by
  unfold wrongCount
  split <;> exact refuse_ne_ok

/-! ### References -/

theorem known_of_globalRef {key : String} (h : s.globalRef e = .ok key) : key ∈ s.globals := by
  unfold globalRef at h
  obtain ⟨-, -, h⟩ := exists_of_bind_eq_ok h
  obtain ⟨found, -, h⟩ := exists_of_bind_eq_ok h
  split at h
  · rename_i hmem
    cases h
    exact List.contains_iff_mem.1 hmem
  · exact absurd h refuse_ne_ok

theorem known_of_reference {r : Reference Payload} (h : s.reference e = .ok r) :
    r.Known s.globals := by
  unfold reference at h
  split at h
  · obtain ⟨key, hkey, rfl⟩ := exists_of_map_eq_ok h
    exact known_of_globalRef hkey
  · obtain ⟨-, -, h⟩ := exists_of_bind_eq_ok h
    obtain ⟨key, -, h⟩ := exists_of_bind_eq_ok h
    cases h
    trivial
  · obtain ⟨p, -, rfl⟩ := exists_of_map_eq_ok h
    trivial

theorem known_of_operands {a b : Reference Payload} (h : s.operands e = .ok (a, b)) :
    ∀ r ∈ [a, b], r.Known s.globals := by
  unfold operands at h
  split at h
  · obtain ⟨left, hleft, h⟩ := exists_of_bind_eq_ok h
    obtain ⟨right, hright, h⟩ := exists_of_bind_eq_ok h
    cases h
    exact List.forall_mem_cons.2 ⟨known_of_reference hleft,
      List.forall_mem_singleton.2 (known_of_reference hright)⟩
  · exact absurd h wrongCount_ne_ok

/-! ### Predicates and updates -/

mutual

/-- **A predicate that an element denotes is well-formed.** -/
theorem wellFormed_of_predicate : ∀ {e : Element} {p : Predicate Payload}, s.predicate e = .ok p →
    WellFormedPredicate s.globals p
  | .mk name attrs children line, p, h => by
    unfold predicate at h
    split at h
    · obtain ⟨⟨a, b⟩, hab, rfl⟩ := exists_of_map_eq_ok h
      refine ⟨trivial, ?_⟩
      simpa [Predicate.references, Formula.terms, Term.operands] using known_of_operands hab
    · split at h
      · obtain ⟨-, -, rfl⟩ := exists_of_map_eq_ok h
        exact ⟨trivial, fun _ hr ↦ absurd hr List.not_mem_nil⟩
      · obtain ⟨-, -, rfl⟩ := exists_of_map_eq_ok h
        exact ⟨trivial, fun _ hr ↦ absurd hr List.not_mem_nil⟩
      · split at h
        · obtain ⟨q, hq, rfl⟩ := exists_of_map_eq_ok h
          obtain ⟨hample, hknown⟩ := wellFormed_of_predicate hq
          exact ⟨hample, hknown⟩
        · exact absurd h wrongCount_ne_ok
      · obtain ⟨-, -, h⟩ := exists_of_bind_eq_ok h
        obtain ⟨ps, hps, h⟩ := exists_of_bind_eq_ok h
        obtain ⟨hample, hknown⟩ := wellFormed_of_predicates hps
        split at h
        · exact absurd h refuse_ne_ok
        · rename_i hlength
          cases h
          exact ⟨⟨Nat.not_lt.1 hlength, hample⟩, hknown⟩
      · obtain ⟨-, -, h⟩ := exists_of_bind_eq_ok h
        obtain ⟨ps, hps, h⟩ := exists_of_bind_eq_ok h
        obtain ⟨hample, hknown⟩ := wellFormed_of_predicates hps
        split at h
        · exact absurd h refuse_ne_ok
        · rename_i hlength
          cases h
          exact ⟨⟨Nat.not_lt.1 hlength, hample⟩, hknown⟩
      · split at h
        · obtain ⟨window, -, h⟩ := exists_of_bind_eq_ok h
          obtain ⟨a, ha, h⟩ := exists_of_bind_eq_ok h
          cases h
          refine ⟨trivial, ?_⟩
          simpa [Predicate.references, Formula.terms, Term.operands] using known_of_reference ha
        · exact absurd h wrongCount_ne_ok
      · exact absurd h refuse_ne_ok

theorem wellFormed_of_predicates : ∀ {children : List Node} {ps : List (Predicate Payload)},
    s.predicates children = .ok ps → AllAmple ps ∧
      ∀ r ∈ (Formula.allTerms ps).flatMap Term.operands, r.Known s.globals
  | [], _, h => by
    rw [predicates] at h
    cases h
    exact ⟨trivial, fun _ hr ↦ absurd hr List.not_mem_nil⟩
  | .element e :: rest, _, h => by
    rw [predicates] at h
    obtain ⟨p, hp, h⟩ := exists_of_bind_eq_ok h
    obtain ⟨ps, hps, h⟩ := exists_of_bind_eq_ok h
    cases h
    obtain ⟨hample, hknown⟩ := wellFormed_of_predicate hp
    obtain ⟨hamples, hknowns⟩ := wellFormed_of_predicates hps
    rw [Formula.allTerms, List.flatMap_append]
    exact ⟨⟨hample, hamples⟩, List.forall_mem_append.2 ⟨hknown, hknowns⟩⟩
  | .text _ _ :: rest, _, h => by
    rw [predicates] at h
    exact wellFormed_of_predicates h

end

/-- What is read item by item is known if every item is. -/
theorem known_of_mapM {items : List Element} {rs : List (Reference Payload)}
    (h : items.mapM s.reference = .ok rs) : ∀ r ∈ rs, r.Known s.globals := by
  induction items generalizing rs with
  | nil =>
    cases h
    exact fun _ hr ↦ absurd hr List.not_mem_nil
  | cons item items ih =>
    rw [List.mapM_cons] at h
    obtain ⟨r, hr, h⟩ := exists_of_bind_eq_ok h
    obtain ⟨rs', hrs, h⟩ := exists_of_bind_eq_ok h
    cases h
    exact List.forall_mem_cons.2 ⟨known_of_reference hr, ih hrs⟩

mutual

/-- **An update that an element denotes is well-formed.** -/
theorem wellFormed_of_update : ∀ {e : Element} {u : Update Payload}, s.update e = .ok u →
    WellFormedUpdate s.globals u
  | .mk name attrs children line, u, h => by
    unfold update at h
    split at h
    · obtain ⟨⟨target, source⟩, hoperands, rfl⟩ := exists_of_map_eq_ok h
      exact ⟨trivial, known_of_operands hoperands⟩
    · split at h
      · obtain ⟨items, -, h⟩ := exists_of_bind_eq_ok h
        obtain ⟨targets, htargets, h⟩ := exists_of_bind_eq_ok h
        split at h
        · exact absurd h refuse_ne_ok
        · rename_i hne
          cases h
          exact ⟨fun hnil ↦ hne (List.isEmpty_iff.2 hnil), known_of_mapM htargets⟩
      · obtain ⟨-, -, h⟩ := exists_of_bind_eq_ok h
        obtain ⟨us, hus, h⟩ := exists_of_bind_eq_ok h
        cases h
        obtain ⟨hample, hknown⟩ := wellFormed_of_updates hus
        exact ⟨hample, hknown⟩
      · obtain ⟨items, -, h⟩ := exists_of_bind_eq_ok h
        split at h
        -- An `if` with a `then` only, one with an `else`, and one of another shape.
        · obtain ⟨p, hp, h⟩ := exists_of_bind_eq_ok h
          obtain ⟨hcondition, hknownCondition⟩ := wellFormed_of_predicate hp
          split at h
          · obtain ⟨-, -, h⟩ := exists_of_bind_eq_ok h
            obtain ⟨us, hus, h⟩ := exists_of_bind_eq_ok h
            cases h
            obtain ⟨hample, hknown⟩ := wellFormed_of_updates hus
            exact ⟨⟨hcondition, hample⟩, List.forall_mem_append.2 ⟨hknownCondition, hknown⟩⟩
          · exact absurd h refuse_ne_ok
        · obtain ⟨p, hp, h⟩ := exists_of_bind_eq_ok h
          obtain ⟨hcondition, hknownCondition⟩ := wellFormed_of_predicate hp
          split at h
          · obtain ⟨-, -, h⟩ := exists_of_bind_eq_ok h
            obtain ⟨us, hus, h⟩ := exists_of_bind_eq_ok h
            obtain ⟨hample, hknown⟩ := wellFormed_of_updates hus
            split at h
            · obtain ⟨-, -, h⟩ := exists_of_bind_eq_ok h
              obtain ⟨vs, hvs, h⟩ := exists_of_bind_eq_ok h
              cases h
              obtain ⟨hamples, hknowns⟩ := wellFormed_of_updates hvs
              exact ⟨⟨hcondition, hample, hamples⟩, List.forall_mem_append.2
                ⟨List.forall_mem_append.2 ⟨hknownCondition, hknown⟩, hknowns⟩⟩
            · exact absurd h refuse_ne_ok
          · exact absurd h refuse_ne_ok
        · exact absurd h refuse_ne_ok
      · obtain ⟨-, -, h⟩ := exists_of_bind_eq_ok h
        obtain ⟨cs, hcs, h⟩ := exists_of_bind_eq_ok h
        obtain ⟨hample, hknown⟩ := wellFormed_of_cases hcs
        split at h
        · exact absurd h refuse_ne_ok
        · rename_i hne
          cases h
          exact ⟨⟨fun hnil ↦ hne (List.isEmpty_iff.2 hnil), hample⟩, hknown⟩
      · exact absurd h refuse_ne_ok

theorem wellFormed_of_updates : ∀ {children : List Node} {us : List (Update Payload)},
    s.updates children = .ok us → AllAmpleUpdates us ∧
      ∀ r ∈ Update.allReferences us, r.Known s.globals
  | [], _, h => by
    rw [updates] at h
    cases h
    exact ⟨trivial, fun _ hr ↦ absurd hr List.not_mem_nil⟩
  | .element e :: rest, _, h => by
    rw [updates] at h
    obtain ⟨u, hu, h⟩ := exists_of_bind_eq_ok h
    obtain ⟨us, hus, h⟩ := exists_of_bind_eq_ok h
    cases h
    obtain ⟨hample, hknown⟩ := wellFormed_of_update hu
    obtain ⟨hamples, hknowns⟩ := wellFormed_of_updates hus
    exact ⟨⟨hample, hamples⟩, List.forall_mem_append.2 ⟨hknown, hknowns⟩⟩
  | .text _ _ :: rest, _, h => by
    rw [updates] at h
    exact wellFormed_of_updates h

theorem wellFormed_of_cases : ∀ {children : List Node} {cs : List (Case Payload)},
    s.cases children = .ok cs → AmpleCases cs ∧
      ∀ r ∈ Update.caseReferences cs, r.Known s.globals
  | [], _, h => by
    rw [cases] at h
    cases h
    exact ⟨trivial, fun _ hr ↦ absurd hr List.not_mem_nil⟩
  | .element (.mk name attrs children line) :: rest, _, h => by
    unfold cases at h
    split at h
    · obtain ⟨-, -, h⟩ := exists_of_bind_eq_ok h
      split at h
      · obtain ⟨p, hp, h⟩ := exists_of_bind_eq_ok h
        obtain ⟨us, hus, h⟩ := exists_of_bind_eq_ok h
        obtain ⟨c, hc, h⟩ := exists_of_bind_eq_ok h
        obtain ⟨cs, hcs, h⟩ := exists_of_bind_eq_ok h
        cases hc
        cases h
        obtain ⟨hcondition, hknownCondition⟩ := wellFormed_of_predicate hp
        obtain ⟨hample, hknown⟩ := wellFormed_of_updates hus
        obtain ⟨hamples, hknowns⟩ := wellFormed_of_cases hcs
        exact ⟨⟨hcondition, hample, hamples⟩, List.forall_mem_append.2
          ⟨List.forall_mem_append.2 ⟨hknownCondition, hknown⟩, hknowns⟩⟩
      · cases h
    · cases h
  | .text _ _ :: rest, _, h => by
    rw [cases] at h
    exact wellFormed_of_cases h

end

/-! ### Interactions -/

theorem known_of_action {a : Action Payload} (h : s.action e = .ok a) :
    ∀ r ∈ Update.allReferences a.updates, r.Known s.globals := by
  unfold action at h
  obtain ⟨target, -, h⟩ := exists_of_bind_eq_ok h
  obtain ⟨kind, -, h⟩ := exists_of_bind_eq_ok h
  obtain ⟨-, -, h⟩ := exists_of_bind_eq_ok h
  obtain ⟨us, hus, h⟩ := exists_of_bind_eq_ok h
  cases h
  exact (wellFormed_of_updates hus).2

theorem known_of_reaction {a : Reaction Payload} (h : s.reaction e = .ok a) :
    ∀ r ∈ a.predicate.references, r.Known s.globals := by
  unfold reaction at h
  obtain ⟨target, -, h⟩ := exists_of_bind_eq_ok h
  obtain ⟨kind, -, h⟩ := exists_of_bind_eq_ok h
  split at h
  · obtain ⟨p, hp, rfl⟩ := exists_of_map_eq_ok h
    exact (wellFormed_of_predicate hp).known
  · exact absurd h wrongCount_ne_ok

/-- A property of what has been gathered so far that every item keeps holds in the end. -/
theorem forall_of_foldlM {α σ : Type} {P : σ → Prop} {step : σ → α → Except Problem σ}
    (hstep : ∀ {a x b}, step a x = .ok b → P a → P b) {items : List α} {a b : σ}
    (h : items.foldlM step a = .ok b) (ha : P a) : P b := by
  induction items generalizing a with
  | nil =>
    cases h
    exact ha
  | cons x items ih =>
    rw [List.foldlM_cons] at h
    obtain ⟨a', ha', h⟩ := exists_of_bind_eq_ok h
    exact ih h (hstep ha' ha)

theorem known_of_interactions {i : Interactions Payload Watched} (h : s.interactions e = .ok i) :
    ∀ r ∈ i.references, r.Known s.globals := by
  unfold interactions at h
  obtain ⟨items, -, h⟩ := exists_of_bind_eq_ok h
  obtain ⟨declared, hdeclared, h⟩ := exists_of_bind_eq_ok h
  have hdeclared : ∀ r ∈ declared.references, r.Known s.globals := by
    refine forall_of_foldlM
      (P := fun i : Interactions Payload Watched ↦ ∀ r ∈ i.references, r.Known s.globals)
      (fun {i item i'} hstep hi ↦ ?_) hdeclared fun _ hr ↦ absurd hr List.not_mem_nil
    obtain ⟨hactions, hreactions⟩ := List.forall_mem_append.1 hi
    split at hstep
    · obtain ⟨action, haction, rfl⟩ := exists_of_map_eq_ok hstep
      rw [Interactions.references, List.flatMap_append, List.flatMap_singleton]
      exact List.forall_mem_append.2
        ⟨List.forall_mem_append.2 ⟨hactions, known_of_action haction⟩, hreactions⟩
    · obtain ⟨reaction, hreaction, rfl⟩ := exists_of_map_eq_ok hstep
      rw [Interactions.references, List.flatMap_append, List.flatMap_singleton]
      exact List.forall_mem_append.2
        ⟨hactions, List.forall_mem_append.2 ⟨hreactions, known_of_reaction hreaction⟩⟩
    · obtain ⟨watch, -, rfl⟩ := exists_of_map_eq_ok hstep
      exact hi
    · exact absurd hstep refuse_ne_ok
  split at h
  · cases h
  · cases h
    exact hdeclared

end Scope

/-- **A document refers to no global that it does not declare**, whatever the template that denotes
it. -/
theorem known_of_ofElement {file : String} {root : Element} {d : Document}
    (h : Document.ofElement file root = .ok d) :
    ∀ r ∈ d.interactions.references, r.Known d.globals.keys := by
  have hsome : ∀ {globals : OrderedMap Payload} {e : Element},
      ((⟨file, globals.keys⟩ : Scope).interactions e).map (fun i ↦ (⟨globals, i⟩ : Document)) =
        .ok d → ∀ r ∈ d.interactions.references, r.Known d.globals.keys := fun h ↦ by
    obtain ⟨i, hi, rfl⟩ := exists_of_map_eq_ok h
    exact Scope.known_of_interactions hi
  have hnone : ∀ {globals : OrderedMap Payload},
      (pure ⟨globals, .empty⟩ : Except Problem Document) = .ok d →
        ∀ r ∈ d.interactions.references, r.Known d.globals.keys := fun h ↦ by
    cases h
    exact fun _ hr ↦ absurd hr List.not_mem_nil
  unfold Document.ofElement at h
  -- Whatever the root is, the state and the interactions are looked for; then the state is read.
  split at h <;>
  · obtain ⟨⟨state, interactions⟩, -, h⟩ := exists_of_bind_eq_ok h
    cases state <;>
    · obtain ⟨globals, -, h⟩ := exists_of_bind_eq_ok h
      cases interactions with
      | some e => exact hsome h
      | none => exact hnone h

end Template

end LiveTemplate
