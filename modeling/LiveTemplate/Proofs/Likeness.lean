import LiveTemplate.Proofs.Seeing

/-!
# Worlds that are alike

Two worlds are alike over some cells if these can be renamed so that each holds the same, and the
globals are the same (`Alike`). References, predicates and targets then come to the same in both, up
to the renaming. The map of local values may so be another one, with other cells, that holds the
same.
-/

namespace LiveTemplate.Engine.World

variable {η : Type} {w w' : World η} {g : CellId → CellId} {P : CellId → Prop} {locals : ValueMap}

/-- Two worlds are alike over some cells, the globals among them: by another name each of them holds
the same. -/
structure Alike (g : CellId → CellId) (P : CellId → Prop) (w w' : World η) : Prop where
  payload : ∀ c, P c → w'.payload (g c) = w.payload c
  hasCell : ∀ c, P c → (w'.HasCell (g c) ↔ w.HasCell c)
  injective : ∀ c c', P c → P c' → g c = g c' → c = c'
  published : w'.published = w.published
  get? : ∀ key, w'.globals.get? key = (w.globals.get? key).map g
  global : ∀ key c, w.globals.get? key = some c → P c

/-- Worlds that hold the same as worlds that are alike are alike. -/
theorem Alike.of_values (h : Alike g P w w') {w₁ w₁' : World η} (hw : w₁.values = w.values)
    (hw' : w₁'.values = w'.values) : Alike g P w₁ w₁' where
  payload c hc := by rw [payload_of_values hw, payload_of_values hw', h.payload c hc]
  hasCell c hc := by rw [hasCell_of_values hw, hasCell_of_values hw', h.hasCell c hc]
  injective := h.injective
  published := by rw [published_of_values hw, published_of_values hw', h.published]
  get? key := by rw [globals_of_values hw, globals_of_values hw', h.get?]
  global key c hc := h.global key c (by rwa [globals_of_values hw] at hc)

/-- The literals of references are among the cells, under their own names. -/
def Stay (g : CellId → CellId) (P : CellId → Prop) (rs : List (Reference CellId)) : Prop :=
  ∀ r ∈ rs, ∀ c ∈ r.literals, P c ∧ g c = c

theorem Stay.mono {rs rs' : List (Reference CellId)} (h : Stay g P rs) (hle : rs' ⊆ rs) :
    Stay g P rs' := fun r hr ↦ h r (hle hr)

section Alike

variable (h : Alike g P w w') (hlocals : ∀ c ∈ locals.values, P c)

include h

/-! ### References -/

theorem resolve_of_alike {r : Reference CellId} (hr : ∀ c ∈ r.literals, P c ∧ g c = c) :
    w'.resolve (locals.map g) r = (w.resolve locals r).map (Option.map g) := by
  cases r with
  | literal c =>
    have hc := (hr c (List.mem_singleton_self c)).2
    show Except.ok (some c) = .ok (some (g c))
    rw [hc]
  | fromLocal key => exact congrArg Except.ok (OrderedMap.get?_map g locals key)
  | fromGlobal key =>
    show w'.global? key = (w.global? key).map (Option.map g)
    rw [global?, global?, h.published, h.get? key]
    cases w.published with
    | false => rfl
    | true => cases w.globals.get? key <;> rfl

include hlocals in
theorem mem_of_resolve {r : Reference CellId} (hr : ∀ c ∈ r.literals, P c ∧ g c = c) {c : CellId}
    (hc : w.resolve locals r = .ok (some c)) : P c :=
  of_resolve h.global hlocals (fun c hc ↦ (hr c hc).1) hc

theorem target_of_alike (name : String) {r : Reference CellId}
    (hr : ∀ c ∈ r.literals, P c ∧ g c = c) :
    w'.target (locals.map g) name r = (w.target locals name r).map g := by
  rw [target, target, resolve_of_alike h hr]
  refine Formula.bind_map fun found hfound ↦ ?_
  cases found with
  | some c => rfl
  | none =>
    -- What is found nowhere is no literal, and is written the same everywhere.
    cases r with
    | literal c => cases hfound
    | _ => rfl

include hlocals in
/-- **Worlds that are alike look the same.** -/
theorem sameSight_of_alike {rs : List (Reference CellId)} (hrs : Stay g P rs) :
    SameSight rs w locals w' (locals.map g) where
  published := h.published
  global key := by
    rw [h.get? key, Option.map_map]
    cases hkey : w.globals.get? key with
    | none => rfl
    | some c => exact congrArg some (h.payload c (h.global key c hkey))
  localValues := by
    rw [OrderedMap.map_map]
    exact OrderedMap.map_congr fun c hc ↦ h.payload c (hlocals c hc)
  literal r hr c hc := by
    obtain ⟨hP, hname⟩ := hrs r hr c hc
    have hpayload := h.payload c hP
    rwa [hname] at hpayload

include hlocals in
/-- **A predicate comes to the same.** -/
theorem evaluate_of_alike {q : Predicate CellId} (hq : Stay g P q.references) :
    (w'.evaluate (locals.map g) q).1 = (w.evaluate locals q).1 :=
  evaluate_of_sameSight (sameSight_of_alike h hlocals hq)

end Alike

end LiveTemplate.Engine.World
