import LiveTemplate.Engine.Completion
import LiveTemplate.Proofs.Frame

/-!
# What references stand for

To bind a predicate is to find the cell of every operand. What is found depends on the local values,
and on the global state once that is published; from then on it stays the same
(`bind_of_published`). The formula that comes of it has terms that come of those of the predicate
(`Formula.exists_of_mem_terms`), so it asks for a recent change only if the predicate does.

To evaluate a predicate is to ask for the truth of that formula at rest (`evaluate_of_bind`).
-/

namespace LiveTemplate

/-! ### Traversals that succeed -/

namespace Formula

variable {τ υ : Type}

/-- A first step of a traversal that succeeds can be taken again. -/
theorem bind_eq_ok {α β : Type} {first first' : Except Problem α}
    {second second' : α → Except Problem β} {b : β} (h : first >>= second = .ok b)
    (hfirst : ∀ a, first = .ok a → first' = .ok a)
    (hsecond : ∀ a, second a = .ok b → second' a = .ok b) : first' >>= second' = .ok b := by
  obtain ⟨a, ha, hb⟩ := Engine.World.exists_of_bind_eq_ok h
  rw [hfirst a ha]
  exact hsecond a hb

mutual

/-- A traversal goes through if it does for every term. -/
theorem traverse_mono {g g' : τ → Except Problem υ} (hg : ∀ t u, g t = .ok u → g' t = .ok u) :
    ∀ {p : Formula τ} {f : Formula υ}, p.traverse g = .ok f → p.traverse g' = .ok f
  | const _, _, h => h
  | not _, _, h => bind_eq_ok h (fun _ ↦ traverse_mono hg) fun _ h ↦ h
  | and _, _, h => bind_eq_ok h (fun _ ↦ traverseAll_mono hg) fun _ h ↦ h
  | or _, _, h => bind_eq_ok h (fun _ ↦ traverseAll_mono hg) fun _ h ↦ h
  | term t, _, h => bind_eq_ok h (fun _ ↦ hg t _) fun _ h ↦ h

theorem traverseAll_mono {g g' : τ → Except Problem υ} (hg : ∀ t u, g t = .ok u → g' t = .ok u) :
    ∀ {ps : List (Formula τ)} {fs : List (Formula υ)},
      traverseAll g ps = .ok fs → traverseAll g' ps = .ok fs
  | [], _, h => h
  | _ :: _, _, h => bind_eq_ok h (fun _ ↦ traverse_mono hg) fun _ h ↦
    bind_eq_ok h (fun _ ↦ traverseAll_mono hg) fun _ h ↦ h

end

mutual

/-- The terms of a formula that comes of a traversal come of the terms of the one it began with. -/
theorem exists_of_mem_terms {g : τ → Except Problem υ} {u : υ} : ∀ {p : Formula τ} {f : Formula υ},
    p.traverse g = .ok f → u ∈ f.terms → ∃ t ∈ p.terms, g t = .ok u
  | const _, _, h, hu => by
    cases h
    cases hu
  | not p, _, h, hu => by
    obtain ⟨f, hf, h⟩ := Engine.World.exists_of_bind_eq_ok h
    cases h
    exact exists_of_mem_terms (p := p) hf hu
  | and _, _, h, hu => by
    obtain ⟨fs, hfs, h⟩ := Engine.World.exists_of_bind_eq_ok h
    cases h
    exact exists_of_mem_allTerms hfs hu
  | or _, _, h, hu => by
    obtain ⟨fs, hfs, h⟩ := Engine.World.exists_of_bind_eq_ok h
    cases h
    exact exists_of_mem_allTerms hfs hu
  | term t, _, h, hu => by
    obtain ⟨v, hv, h⟩ := Engine.World.exists_of_bind_eq_ok h
    cases h
    exact ⟨t, List.mem_singleton_self t, List.mem_singleton.1 hu ▸ hv⟩

theorem exists_of_mem_allTerms {g : τ → Except Problem υ} {u : υ} : ∀ {ps : List (Formula τ)}
    {fs : List (Formula υ)}, traverseAll g ps = .ok fs → u ∈ allTerms fs →
      ∃ t ∈ allTerms ps, g t = .ok u
  | [], _, h, hu => by
    cases h
    cases hu
  | p :: ps, _, h, hu => by
    obtain ⟨f, hf, h⟩ := Engine.World.exists_of_bind_eq_ok h
    obtain ⟨fs, hfs, h⟩ := Engine.World.exists_of_bind_eq_ok h
    cases h
    rw [allTerms, List.mem_append] at hu
    rcases hu with hu | hu
    · obtain ⟨t, ht, hg⟩ := exists_of_mem_terms (p := p) hf hu
      exact ⟨t, List.mem_append_left _ ht, hg⟩
    · obtain ⟨t, ht, hg⟩ := exists_of_mem_allTerms hfs hu
      exact ⟨t, List.mem_append_right _ ht, hg⟩

end

end Formula

/-! ### Terms that do not ask for changes -/

/-- Whether a term is a relation, and does not ask for a recent change. -/
def Term.isRelation {α : Type} : Term α → Bool
  | relation _ _ _ => true
  | changed _ _ => false

/-- Whether no term of a formula asks for a recent change. -/
def Formula.Timeless {α : Type} (f : Formula (Term α)) : Prop := ∀ t ∈ f.terms, t.isRelation = true

instance {α : Type} (f : Formula (Term α)) : Decidable f.Timeless :=
  inferInstanceAs (Decidable (∀ t ∈ f.terms, t.isRelation = true))

theorem Term.isRelation_of_traverse {α β : Type} {g : α → Except Problem β} {t : Term α}
    {u : Term β} (h : t.traverse g = .ok u) : u.isRelation = t.isRelation := by
  cases t with
  | relation r left right =>
    obtain ⟨_, -, h⟩ := Engine.World.exists_of_bind_eq_ok h
    obtain ⟨_, -, h⟩ := Engine.World.exists_of_bind_eq_ok h
    cases h
    rfl
  | changed a window =>
    obtain ⟨_, -, h⟩ := Engine.World.exists_of_bind_eq_ok h
    cases h
    rfl

namespace Engine.World

variable {η : Type} {w w' : World η} {locals : ValueMap} {p : Predicate CellId}
  {f : Formula (Term CellId)}

/-! ### Binding -/

/-- A predicate that does not ask for recent changes is bound to a formula that does not either. -/
theorem timeless_of_bind (hp : Formula.Timeless p) (h : w.bind locals p = .ok f) : f.Timeless := by
  intro u hu
  obtain ⟨t, ht, htraverse⟩ := Formula.exists_of_mem_terms h hu
  rw [Term.isRelation_of_traverse htraverse]
  exact hp t ht

/-- Once the global state is published, a reference goes on standing for what it stands for. -/
theorem resolve_of_published (hpublished : w.published = true) (hpublished' : w'.published = true)
    (hglobals : w'.globals = w.globals) (locals : ValueMap) (r : Reference CellId) :
    w'.resolve locals r = w.resolve locals r := by
  cases r with
  | literal c => rfl
  | fromLocal key => rfl
  | fromGlobal key =>
    show w'.global? key = w.global? key
    rw [global?, global?, hpublished, hpublished', hglobals]

theorem operand_of_published (hpublished : w.published = true) (hpublished' : w'.published = true)
    (hglobals : w'.globals = w.globals) (locals : ValueMap) (name : String) (r : Reference CellId)
    (c : CellId)
    (h : w.operand locals name r = .ok c) : w'.operand locals name r = .ok c := by
  have hresolve := resolve_of_published hpublished hpublished' hglobals locals r
  unfold operand at h ⊢
  rw [hresolve]
  obtain ⟨found, hfound, h⟩ := exists_of_bind_eq_ok h
  rw [hfound]
  cases found with
  | none => cases h
  | some c' => exact h

/-- **Once the global state is published, a predicate that was bound is bound to the same formula.**
-/
theorem bind_of_published (hpublished : w.published = true) (hpublished' : w'.published = true)
    (hglobals : w'.globals = w.globals) (h : w.bind locals p = .ok f) :
    w'.bind locals p = .ok f := by
  refine Formula.traverse_mono (fun t u htraverse ↦ ?_) h
  have hoperand := operand_of_published hpublished hpublished' hglobals locals t.name
  cases t with
  | relation r left right =>
    refine Formula.bind_eq_ok htraverse (fun c ↦ hoperand left c) fun _ h ↦ ?_
    exact Formula.bind_eq_ok h (fun c ↦ hoperand right c) fun _ h ↦ h
  | changed a window => exact Formula.bind_eq_ok htraverse (fun c ↦ hoperand a c) fun _ h ↦ h

/-! ### Evaluating -/

/-- A new circuit is as true as its formula is at rest. -/
theorem truth_build (w : World η) (f : Formula (Term CellId)) :
    (Circuit.build w.startTerm f).truth = f.eval (·.holds w.payload) := by
  refine (Circuit.keeps_build (fun _ ↦ rfl) f).truth_eq_eval fun live hlive ↦ ?_
  rw [Circuit.leaves_build] at hlive
  obtain ⟨t, -, rfl⟩ := List.mem_map.1 hlive
  rfl

/-- The new signal of a formula is as true as the formula is at rest. -/
theorem truth_openSignal (w : World η) (f : Formula (Term CellId)) :
    (w.openSignal f).2.truth w.signals.next = f.eval (·.holds w.payload) := by
  rw [truth, get?_openSignal, if_pos rfl]
  exact truth_build w f

/-- **To evaluate a predicate is to ask for the truth of its formula** over what its operands hold.
-/
theorem evaluate_of_bind (h : w.bind locals p = .ok f) :
    (w.evaluate locals p).1 = .ok (f.eval (·.holds w.payload)) := by
  rw [evaluate, observePredicate, h]
  exact congrArg Except.ok (truth_openSignal w f)

end Engine.World

end LiveTemplate
