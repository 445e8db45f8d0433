import LiveTemplate.Proofs.References
import LiveTemplate.Proofs.Values

/-!
# What a predicate sees

A predicate sees what its references hold, and not which cells hold it. So it comes to the same at
two moments at which the globals, the local values and its literals hold the same
(`evaluate_of_sameSight`), also if the map of local values is another one, with other cells.
-/

namespace LiveTemplate

namespace Formula

variable {τ υ ν : Type}

mutual

theorem eval_map (g : τ → υ) (v : υ → Bool) : ∀ f : Formula τ, (f.map g).eval v = f.eval (v ∘ g)
  | const _ => rfl
  | not f => by rw [map, eval, eval, eval_map g v f]
  | and fs => evalAll_mapAll g v fs
  | or fs => evalAny_mapAll g v fs
  | term _ => rfl

theorem evalAll_mapAll (g : τ → υ) (v : υ → Bool) :
    ∀ fs : List (Formula τ), evalAll v (mapAll g fs) = evalAll (v ∘ g) fs
  | [] => rfl
  | f :: fs => by rw [mapAll, evalAll, evalAll, eval_map g v f, evalAll_mapAll g v fs]

theorem evalAny_mapAll (g : τ → υ) (v : υ → Bool) :
    ∀ fs : List (Formula τ), evalAny v (mapAll g fs) = evalAny (v ∘ g) fs
  | [] => rfl
  | f :: fs => by rw [mapAll, evalAny, evalAny, eval_map g v f, evalAny_mapAll g v fs]

end

/-- What is computed and then passed on is replaced in the same way. -/
theorem bind_map {α β γ δ : Type} {first : Except Problem α} {second : α → Except Problem β}
    {second' : γ → Except Problem δ} {g : α → γ} {h : β → δ}
    (hsecond : ∀ a, first = .ok a → second' (g a) = (second a).map h) :
    first.map g >>= second' = (first >>= second).map h := by
  cases first with
  | error e => rfl
  | ok a => exact hsecond a rfl

mutual

/-- **Traversals that agree on the terms agree on the formula.** -/
theorem traverse_map {k : τ → Except Problem υ} {k' : τ → Except Problem ν} {g : υ → ν} :
    ∀ {p : Formula τ}, (∀ t ∈ p.terms, k' t = (k t).map g) →
      p.traverse k' = (p.traverse k).map (map g)
  | const _, _ => rfl
  | not p, h => by
    rw [traverse, traverse, traverse_map (p := p) h]
    exact bind_map fun _ _ ↦ rfl
  | and ps, h => by
    rw [traverse, traverse, traverseAll_map (l := ps) h]
    exact bind_map fun _ _ ↦ rfl
  | or ps, h => by
    rw [traverse, traverse, traverseAll_map (l := ps) h]
    exact bind_map fun _ _ ↦ rfl
  | term t, h => by
    rw [traverse, traverse, h t (List.mem_singleton_self t)]
    exact bind_map fun _ _ ↦ rfl

theorem traverseAll_map {k : τ → Except Problem υ} {k' : τ → Except Problem ν} {g : υ → ν} :
    ∀ {l : List (Formula τ)}, (∀ t ∈ allTerms l, k' t = (k t).map g) →
      traverseAll k' l = (traverseAll k l).map (mapAll g)
  | [], _ => rfl
  | p :: ps, h => by
    obtain ⟨hp, hps⟩ := List.forall_mem_append.1 h
    rw [traverseAll, traverseAll, traverse_map (p := p) hp, traverseAll_map (l := ps) hps]
    exact bind_map fun _ _ ↦ bind_map fun _ _ ↦ rfl

end

end Formula

namespace Term

variable {α β γ : Type}

theorem traverse_map {k : α → Except Problem β} {k' : α → Except Problem γ} {g : β → γ} {t : Term α}
    (h : ∀ a ∈ t.operands, k' a = (k a).map g) : t.traverse k' = (t.traverse k).map (map g) := by
  cases t with
  | relation r left right =>
    rw [traverse, traverse, h left List.mem_cons_self,
      h right (List.mem_cons_of_mem _ List.mem_cons_self)]
    exact Formula.bind_map fun _ _ ↦ Formula.bind_map fun _ _ ↦ rfl
  | changed a window =>
    rw [traverse, traverse, h a List.mem_cons_self]
    exact Formula.bind_map fun _ _ ↦ rfl

/-- The operands of a term that a traversal comes to are what it finds for operands. -/
theorem exists_of_mem_operands {k : α → Except Problem β} {t : Term α} {u : Term β} {b : β}
    (h : t.traverse k = .ok u) (hb : b ∈ u.operands) : ∃ a ∈ t.operands, k a = .ok b := by
  cases t with
  | relation r left right =>
    obtain ⟨b₁, hb₁, h⟩ := Engine.World.exists_of_bind_eq_ok h
    obtain ⟨b₂, hb₂, h⟩ := Engine.World.exists_of_bind_eq_ok h
    cases h
    rcases List.mem_pair.1 hb with rfl | rfl
    · exact ⟨left, List.mem_cons_self, hb₁⟩
    · exact ⟨right, List.mem_cons_of_mem _ List.mem_cons_self, hb₂⟩
  | changed a window =>
    obtain ⟨b₁, hb₁, h⟩ := Engine.World.exists_of_bind_eq_ok h
    cases h
    cases List.mem_singleton.1 hb
    exact ⟨a, List.mem_cons_self, hb₁⟩

end Term

namespace Engine.World

variable {η : Type} {w w' : World η} {locals locals' : ValueMap} {q : Predicate CellId}

/-! ### What is found -/

/-- The cells that a predicate is bound to are those that its references come upon. -/
theorem exists_of_mem_bind {f : Formula (Term CellId)} (hf : w.bind locals q = .ok f)
    {t : Term CellId} (ht : t ∈ f.terms) {c : CellId} (hc : c ∈ t.operands) :
    ∃ r ∈ q.references, w.resolve locals r = .ok (some c) := by
  obtain ⟨t', ht', htraverse⟩ := Formula.exists_of_mem_terms hf ht
  obtain ⟨r, hr, hoperand⟩ := Term.exists_of_mem_operands htraverse hc
  obtain ⟨found, hfound, hoperand⟩ := exists_of_bind_eq_ok hoperand
  cases found with
  | none => cases hoperand
  | some c' =>
    cases hoperand
    exact ⟨r, List.mem_flatMap.2 ⟨t', ht', hr⟩, hfound⟩

section Found

variable {P : CellId → Prop} (hglobals : ∀ key c, w.globals.get? key = some c → P c)
  (hlocals : ∀ c ∈ locals.values, P c)
include hglobals hlocals

/-- What holds of the globals, the local values and a literal holds of the cell that is found. -/
theorem of_resolve {r : Reference CellId} (hr : ∀ c ∈ r.literals, P c) {c : CellId}
    (hc : w.resolve locals r = .ok (some c)) : P c := by
  cases r with
  | literal c' =>
    cases hc
    exact hr c (List.mem_singleton_self c)
  | fromLocal key => exact hlocals c (OrderedMap.mem_values_of_get? (Except.ok.inj hc))
  | fromGlobal key =>
    have hc : w.global? key = .ok (some c) := hc
    unfold global? at hc
    split at hc
    · cases hget : w.globals.get? key with
      | none =>
        rw [hget] at hc
        cases hc
      | some c' =>
        rw [hget] at hc
        cases hc
        exact hglobals key c hget
    · cases hc

/-- **What holds of the globals, the local values and the literals of a predicate** holds of the
cells that it is bound to. -/
theorem of_bind (hq : ∀ r ∈ q.references, ∀ c ∈ r.literals, P c) {f : Formula (Term CellId)}
    (hf : w.bind locals q = .ok f) : ∀ t ∈ f.terms, ∀ c ∈ t.operands, P c := by
  intro t ht c hc
  obtain ⟨r, hr, hfound⟩ := exists_of_mem_bind hf ht hc
  exact of_resolve hglobals hlocals (hq r hr) hfound

end Found

/-! ### What is seen -/

/-- Two moments look the same to who refers to some things: the globals, the local values and the
literals hold the same. -/
structure SameSight (rs : List (Reference CellId)) (w : World η) (locals : ValueMap) (w' : World η)
    (locals' : ValueMap) : Prop where
  published : w'.published = w.published
  global : ∀ key, (w'.globals.get? key).map w'.payload = (w.globals.get? key).map w.payload
  localValues : locals'.map w'.payload = locals.map w.payload
  literal : ∀ r ∈ rs, ∀ c ∈ r.literals, w'.payload c = w.payload c

theorem describeMap_eq (w : World η) (m : ValueMap) :
    w.describeMap m = (m.map w.payload).describe id := by
  rw [describeMap, OrderedMap.describe, OrderedMap.describe, OrderedMap.map, List.map_map]
  rfl

/-- What a reference holds, if it is found. -/
def reads (w : World η) (locals : ValueMap) (r : Reference CellId) :
    Except Problem (Option Payload) := (w.resolve locals r).map (Option.map w.payload)

theorem operand_map (w : World η) (locals : ValueMap) (name : String) (r : Reference CellId) :
    (w.operand locals name r).map w.payload =
      (w.reads locals r).bind (Option.elim · (.error (.unresolvedOperand name
        (r.describe w.describe) ((locals.map w.payload).describe id))) .ok) := by
  rw [operand, reads, ← describeMap_eq]
  cases w.resolve locals r with
  | error e => rfl
  | ok found => cases found <;> rfl

section SameSight

variable {rs : List (Reference CellId)} (h : SameSight rs w locals w' locals')
include h

theorem reads_of_sameSight {r : Reference CellId} (hr : r ∈ rs) :
    w'.reads locals' r = w.reads locals r := by
  cases r with
  | literal c => exact congrArg (Except.ok ∘ some) (h.literal _ hr c (List.mem_singleton_self c))
  | fromLocal key =>
    have hget := congrArg (OrderedMap.get? · key) h.localValues
    simp only [OrderedMap.get?_map] at hget
    exact congrArg Except.ok hget
  | fromGlobal key =>
    have hget := h.global key
    show (w'.global? key).map _ = (w.global? key).map _
    rw [global?, global?, h.published]
    cases w.published with
    | false => rfl
    | true =>
      cases hkey : w.globals.get? key <;> cases hkey' : w'.globals.get? key <;>
        simp_all [Except.map]

theorem operand_of_sameSight (name : String) {r : Reference CellId} (hr : r ∈ rs) :
    (w'.operand locals' name r).map w'.payload = (w.operand locals name r).map w.payload := by
  rw [operand_map, operand_map, reads_of_sameSight h hr, h.localValues]
  -- Only a literal is written as what it holds, and a literal is always found.
  cases r <;> rfl

end SameSight

/-- What a predicate comes to, from what its operands hold. -/
theorem evaluate_eq_of_operands {k : String → Reference CellId → Except Problem Payload}
    (hk : ∀ name, ∀ r ∈ q.references, k name r = (w.operand locals name r).map w.payload) :
    (w.evaluate locals q).1 =
      (Formula.traverse (fun t ↦ Term.traverse (k t.name) t) q).map
        fun f ↦ Formula.eval (·.holds id) f := by
  have hbind : (Formula.traverse (fun t ↦ Term.traverse (k t.name) t) q) =
      (w.bind locals q).map (Formula.map (Term.map w.payload)) :=
    Formula.traverse_map fun t ht ↦ Term.traverse_map fun r hr ↦
      hk t.name r (List.mem_flatMap.2 ⟨t, ht, hr⟩)
  rw [evaluate_eq, hbind]
  cases w.bind locals q with
  | error e => rfl
  | ok f =>
    have hholds : (fun t : Term CellId ↦ (t.map w.payload).holds id) = (·.holds w.payload) :=
      funext fun t ↦ by cases t <;> rfl
    refine congrArg Except.ok ?_
    show f.eval _ = (f.map _).eval _
    rw [Formula.eval_map, ← hholds]
    rfl

/-- **A predicate comes to the same at moments that look the same.** -/
theorem evaluate_of_sameSight (h : SameSight q.references w locals w' locals') :
    (w'.evaluate locals' q).1 = (w.evaluate locals q).1 := by
  rw [evaluate_eq_of_operands fun name r hr ↦ (operand_of_sameSight h name hr).symm,
    evaluate_eq_of_operands fun _ _ _ ↦ rfl]

end Engine.World

end LiveTemplate
