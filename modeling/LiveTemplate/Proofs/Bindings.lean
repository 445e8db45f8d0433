import Mathlib.Data.List.Nodup
import Mathlib.Data.List.Perm.Basic
import LiveTemplate.Expr.Interactions

/-!
# Bindings

Interactions are built if no two actions have the same target and kind, no two reactions have, and
no two watches are of the same kind (`build_eq_ok_iff`). Otherwise they are refused for the first
declaration that repeats one before it, of the first sort in which there is such a declaration
(`build_eq_error_iff`).

What is bound to a target and a kind is looked for from the front, and the first that is found is
taken. As the bindings are distinct it is the only one, wherever it stands
(`find?_eq_some_iff_of_nodup`). So all that is found in interactions that have been built is found
as well if the same is declared in another order (`Reorders`).
-/

namespace LiveTemplate

/-! ### The first of all that is repeated -/

/-- An item that is equal to one before it, in front of which nothing is repeated. -/
def RepeatsFirst {α : Type} (l : List α) (a : α) : Prop :=
  ∃ before behind, l = before ++ a :: behind ∧ before.Nodup ∧ a ∈ before

section Lists

variable {α : Type}

theorem firstRepeat_eq_none_iff [BEq α] [LawfulBEq α] {seen l : List α} :
    firstRepeat seen l = none ↔ l.Nodup ∧ ∀ a ∈ l, a ∉ seen := by
  induction l generalizing seen with
  | nil => exact ⟨fun _ ↦ ⟨.nil, fun _ h ↦ absurd h List.not_mem_nil⟩, fun _ ↦ rfl⟩
  | cons a l ih =>
    rw [firstRepeat, List.nodup_cons, List.forall_mem_cons]
    by_cases ha : a ∈ seen
    · rw [if_pos (List.contains_iff_mem.2 ha)]
      exact ⟨nofun, fun h ↦ absurd ha h.2.1⟩
    · rw [if_neg fun h ↦ ha (List.contains_iff_mem.1 h), ih]
      constructor
      · rintro ⟨hnodup, hnew⟩
        exact ⟨⟨fun hmem ↦ hnew a hmem List.mem_cons_self, hnodup⟩, ha,
          fun b hb hseen ↦ hnew b hb (List.mem_cons_of_mem a hseen)⟩
      · rintro ⟨⟨hmem, hnodup⟩, -, hnew⟩
        refine ⟨hnodup, fun b hb hseen ↦ ?_⟩
        rcases List.mem_cons.1 hseen with rfl | hseen
        · exact hmem hb
        · exact hnew b hb hseen

/-- What is found is the first item that has been seen or stands in front of itself. -/
theorem firstRepeat_eq_some_iff [BEq α] [LawfulBEq α] {seen l : List α} {a : α} :
    firstRepeat seen l = some a ↔ ∃ before behind, l = before ++ a :: behind ∧ before.Nodup ∧
      (∀ b ∈ before, b ∉ seen) ∧ (a ∈ seen ∨ a ∈ before) := by
  induction l generalizing seen with
  | nil =>
    refine ⟨nofun, ?_⟩
    rintro ⟨before, behind, hl, -⟩
    exact absurd hl.symm (List.append_ne_nil_of_right_ne_nil _ (List.cons_ne_nil _ _))
  | cons b l ih =>
    rw [firstRepeat]
    by_cases hb : b ∈ seen
    · rw [if_pos (List.contains_iff_mem.2 hb)]
      constructor
      · rintro ⟨⟩
        exact ⟨[], l, rfl, .nil, nofun, .inl hb⟩
      · rintro ⟨before, behind, hl, -, hnew, -⟩
        cases before with
        | nil => cases hl; rfl
        | cons c before =>
          cases hl
          exact absurd hb (hnew b List.mem_cons_self)
    · rw [if_neg fun h ↦ hb (List.contains_iff_mem.1 h), ih]
      constructor
      · rintro ⟨before, behind, rfl, hnodup, hnew, hmem⟩
        have hfresh : b ∉ before := fun hmem ↦ hnew b hmem List.mem_cons_self
        refine ⟨b :: before, behind, rfl, List.nodup_cons.2 ⟨hfresh, hnodup⟩, ?_, ?_⟩
        · exact List.forall_mem_cons.2
            ⟨hb, fun c hc hseen ↦ hnew c hc (List.mem_cons_of_mem b hseen)⟩
        · rcases hmem with hmem | hmem
          · rcases List.mem_cons.1 hmem with rfl | hseen
            · exact .inr List.mem_cons_self
            · exact .inl hseen
          · exact .inr (List.mem_cons_of_mem b hmem)
      · rintro ⟨before, behind, hl, hnodup, hnew, hmem⟩
        cases before with
        | nil =>
          cases hl
          exact absurd (hmem.resolve_right List.not_mem_nil) hb
        | cons c before =>
          cases hl
          obtain ⟨hfresh, hnodup⟩ := List.nodup_cons.1 hnodup
          obtain ⟨-, hnew⟩ := List.forall_mem_cons.1 hnew
          refine ⟨before, behind, rfl, hnodup, fun c hc hseen ↦ ?_, ?_⟩
          · rcases List.mem_cons.1 hseen with rfl | hseen
            · exact hfresh hc
            · exact hnew c hc hseen
          · rw [List.mem_cons] at hmem ⊢
            rcases hmem with hmem | rfl | hmem
            · exact .inl (.inr hmem)
            · exact .inl (.inl rfl)
            · exact .inr hmem

theorem firstRepeat_nil_eq_some_iff [BEq α] [LawfulBEq α] {l : List α} {a : α} :
    firstRepeat [] l = some a ↔ RepeatsFirst l a := by
  rw [firstRepeat_eq_some_iff]
  constructor
  · rintro ⟨before, behind, hl, hnodup, -, hmem⟩
    exact ⟨before, behind, hl, hnodup, hmem.resolve_left List.not_mem_nil⟩
  · rintro ⟨before, behind, hl, hnodup, hmem⟩
    exact ⟨before, behind, hl, hnodup, fun _ _ ↦ List.not_mem_nil, .inr hmem⟩

theorem firstRepeat_nil_eq_none_iff [BEq α] [LawfulBEq α] {l : List α} :
    firstRepeat [] l = none ↔ l.Nodup :=
  firstRepeat_eq_none_iff.trans (and_iff_left fun _ _ ↦ List.not_mem_nil)

variable {κ : Type} [BEq κ] [LawfulBEq κ] (key : α → κ)

/-- **In a list of distinct keys** an item is found under its key, wherever it stands. -/
theorem find?_eq_some_iff_of_nodup {l : List α} (h : (l.map key).Nodup) {k : κ} {a : α} :
    l.find? (fun b ↦ key b == k) = some a ↔ a ∈ l ∧ key a = k := by
  have hfound : ∀ {b}, l.find? (fun b ↦ key b == k) = some b → b ∈ l ∧ key b = k := fun hb ↦
    ⟨List.mem_of_find?_eq_some hb, beq_iff_eq.1 (List.find?_some (p := fun b ↦ key b == k) hb)⟩
  refine ⟨hfound, ?_⟩
  rintro ⟨ha, rfl⟩
  obtain ⟨b, hb⟩ := Option.isSome_iff_exists.1
    (List.find?_isSome (p := fun b ↦ key b == key a).2 ⟨a, ha, beq_self_eq_true _⟩)
  obtain ⟨hmem, hkey⟩ := hfound hb
  rw [hb, List.inj_on_of_nodup_map h hmem ha hkey]

theorem find?_eq_none_iff_not_mem {l : List α} {k : κ} :
    l.find? (fun b ↦ key b == k) = none ↔ k ∉ l.map key := by
  rw [List.find?_eq_none, List.mem_map]
  simp only [beq_iff_eq, not_exists, not_and]

/-- What is found under distinct keys does not depend on the order. -/
theorem find?_eq_of_perm {l l' : List α} (hperm : l.Perm l') (h : (l.map key).Nodup) (k : κ) :
    l'.find? (fun b ↦ key b == k) = l.find? fun b ↦ key b == k := by
  have h' : (l'.map key).Nodup := (hperm.map key).nodup_iff.1 h
  ext a
  rw [find?_eq_some_iff_of_nodup key h', find?_eq_some_iff_of_nodup key h, hperm.mem_iff]

end Lists

namespace Interactions

variable {α β : Type} {i i' : Interactions α β}

/-! ### Building -/

/-- Nothing is declared twice. -/
structure Distinct (i : Interactions α β) : Prop where
  actions : i.actionBindings.Nodup
  reactions : i.reactionBindings.Nodup
  watches : i.watchKinds.Nodup

/-- The first declaration that repeats one before it, by its sort and name: actions come before
reactions, and these before watches. -/
inductive Repeats (i : Interactions α β) : Declaration → String → Prop
  | action {binding : String × String} (h : RepeatsFirst i.actionBindings binding) :
      Repeats i .action (bindingName binding)
  | reaction {binding : String × String} (hactions : i.actionBindings.Nodup)
      (h : RepeatsFirst i.reactionBindings binding) : Repeats i .reaction (bindingName binding)
  | watch {kind : String} (hactions : i.actionBindings.Nodup)
      (hreactions : i.reactionBindings.Nodup) (h : RepeatsFirst i.watchKinds kind) :
      Repeats i .watch kind

theorem repeated?_eq_none_iff : i.repeated? = none ↔ i.Distinct := by
  rw [repeated?]
  constructor
  · intro h
    split at h
    · cases h
    · rename_i hactions
      split at h
      · cases h
      · rename_i hreactions
        exact ⟨firstRepeat_nil_eq_none_iff.1 hactions, firstRepeat_nil_eq_none_iff.1 hreactions,
          firstRepeat_nil_eq_none_iff.1 (Option.map_eq_none_iff.1 h)⟩
  · intro h
    rw [firstRepeat_nil_eq_none_iff.2 h.actions, firstRepeat_nil_eq_none_iff.2 h.reactions,
      firstRepeat_nil_eq_none_iff.2 h.watches]
    rfl

theorem repeated?_eq_some_iff {what : Declaration} {name : String} :
    i.repeated? = some (what, name) ↔ i.Repeats what name := by
  rw [repeated?]
  constructor
  · intro h
    split at h
    · rename_i hactions
      cases h
      exact .action (firstRepeat_nil_eq_some_iff.1 hactions)
    · rename_i hactions
      have hactions := firstRepeat_nil_eq_none_iff.1 hactions
      split at h
      · rename_i hreactions
        cases h
        exact .reaction hactions (firstRepeat_nil_eq_some_iff.1 hreactions)
      · rename_i hreactions
        obtain ⟨kind, hwatches, heq⟩ := Option.map_eq_some_iff.1 h
        cases heq
        exact .watch hactions (firstRepeat_nil_eq_none_iff.1 hreactions)
          (firstRepeat_nil_eq_some_iff.1 hwatches)
  · intro h
    cases h with
    | action h => rw [firstRepeat_nil_eq_some_iff.2 h]
    | reaction hactions h =>
      rw [firstRepeat_nil_eq_none_iff.2 hactions, firstRepeat_nil_eq_some_iff.2 h]
    | watch hactions hreactions h =>
      rw [firstRepeat_nil_eq_none_iff.2 hactions, firstRepeat_nil_eq_none_iff.2 hreactions,
        firstRepeat_nil_eq_some_iff.2 h]
      rfl

/-- **Interactions are built if nothing is declared twice**, and as they are. -/
theorem build_eq_ok_iff : i.build = .ok i' ↔ i' = i ∧ i.Distinct := by
  rw [build, ← repeated?_eq_none_iff]
  cases i.repeated? with
  | none => exact ⟨fun h ↦ ⟨(Except.ok.inj h).symm, rfl⟩, fun h ↦ congrArg Except.ok h.1.symm⟩
  | some _ => exact ⟨nofun, nofun⟩

/-- **Otherwise they are refused** for the first declaration that repeats one before it. -/
theorem build_eq_error_iff {p : Problem} :
    i.build = .error p ↔ ∃ what name, i.Repeats what name ∧ p = .repeatedDeclaration what name := by
  simp only [← repeated?_eq_some_iff]
  rw [build]
  cases i.repeated? with
  | none => exact ⟨nofun, nofun⟩
  | some declaration =>
    obtain ⟨what, name⟩ := declaration
    constructor
    · rintro ⟨⟩
      exact ⟨what, name, rfl, rfl⟩
    · rintro ⟨_, _, ⟨⟩, rfl⟩
      rfl

/-! ### Finding what is bound -/

/-- **The action found for a target and a kind** is the one that is declared for them. -/
theorem action?_eq_some_iff (h : i.Distinct) {target kind : String} {a : Action α} :
    i.action? target kind = some a ↔ a ∈ i.actions ∧ (a.target, a.kind) = (target, kind) :=
  find?_eq_some_iff_of_nodup (fun a : Action α ↦ (a.target, a.kind)) (k := (target, kind)) h.actions

theorem reaction?_eq_some_iff (h : i.Distinct) {target kind : String} {r : Reaction α} :
    i.reaction? target kind = some r ↔ r ∈ i.reactions ∧ (r.target, r.kind) = (target, kind) :=
  find?_eq_some_iff_of_nodup (fun r : Reaction α ↦ (r.target, r.kind)) (k := (target, kind))
    h.reactions

theorem watch?_eq_some_iff (h : i.watchKinds.Nodup) {kind : String} {w : Watch β} :
    i.watch? kind = some w ↔ w ∈ i.watches ∧ w.kind = kind :=
  find?_eq_some_iff_of_nodup Watch.kind h

theorem action?_eq_none_iff {target kind : String} :
    i.action? target kind = none ↔ (target, kind) ∉ i.actionBindings :=
  find?_eq_none_iff_not_mem (fun a : Action α ↦ (a.target, a.kind)) (k := (target, kind))

theorem reaction?_eq_none_iff {target kind : String} :
    i.reaction? target kind = none ↔ (target, kind) ∉ i.reactionBindings :=
  find?_eq_none_iff_not_mem (fun r : Reaction α ↦ (r.target, r.kind)) (k := (target, kind))

/-! ### Another order -/

/-- The same is declared, in an order of its own. -/
structure Reorders (i i' : Interactions α β) : Prop where
  actions : i.actions.Perm i'.actions
  reactions : i.reactions.Perm i'.reactions
  watches : i.watches.Perm i'.watches

theorem Reorders.distinct (h : i.Reorders i') (hi : i.Distinct) : i'.Distinct :=
  ⟨(h.actions.map _).nodup_iff.1 hi.actions, (h.reactions.map _).nodup_iff.1 hi.reactions,
    (h.watches.map _).nodup_iff.1 hi.watches⟩

/-- **The order of the declarations makes no difference** to what is found. -/
theorem Reorders.action? (h : i.Reorders i') (hi : i.Distinct) (target kind : String) :
    i'.action? target kind = i.action? target kind :=
  find?_eq_of_perm (fun a : Action α ↦ (a.target, a.kind)) h.actions hi.actions (target, kind)

theorem Reorders.reaction? (h : i.Reorders i') (hi : i.Distinct) (target kind : String) :
    i'.reaction? target kind = i.reaction? target kind :=
  find?_eq_of_perm (fun r : Reaction α ↦ (r.target, r.kind)) h.reactions hi.reactions
    (target, kind)

end Interactions

end LiveTemplate
