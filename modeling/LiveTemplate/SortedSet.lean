/-!
# Finite sets in sorted order

A finite set of ordered items, kept as the ascending list of its members. Two sets are equal as
soon as they have the same members (`ext_of_mem`), so each operation is described by its members:
`mem_insert`, `mem_ofList`, `mem_union`, `mem_symmDiff`.
-/

namespace LiveTemplate

/-- An ascending list without repetition. -/
structure SortedSet (α : Type) [Ord α] where
  /-- The members, in ascending order. -/
  items : List α
  ascending : items.Pairwise fun a b => compare a b = .lt

namespace SortedSet

variable {α : Type} [Ord α]

instance [DecidableEq α] : DecidableEq (SortedSet α) := fun s t =>
  decidable_of_iff (s.items = t.items) ⟨fun h => by cases s; cases t; simp_all, fun h => h ▸ rfl⟩

instance [Repr α] : Repr (SortedSet α) := ⟨fun s n => reprPrec s.items n⟩

instance : Membership α (SortedSet α) := ⟨fun s a => a ∈ s.items⟩

instance [DecidableEq α] (a : α) (s : SortedSet α) : Decidable (a ∈ s) :=
  inferInstanceAs (Decidable (a ∈ s.items))

theorem mem_def {a : α} {s : SortedSet α} : a ∈ s ↔ a ∈ s.items := Iff.rfl

/-- The set without members. -/
def empty : SortedSet α := ⟨[], List.Pairwise.nil⟩

@[simp] theorem not_mem_empty (a : α) : a ∉ (empty : SortedSet α) := List.not_mem_nil

/-- Puts an item into its place in an ascending list, unless it is there. -/
def insertItem (a : α) : List α → List α
  | [] => [a]
  | b :: rest =>
    match compare a b with
    | .lt => a :: b :: rest
    | .eq => b :: rest
    | .gt => b :: insertItem a rest

theorem mem_insertItem [Std.LawfulEqOrd α] {a c : α} {l : List α} :
    c ∈ insertItem a l ↔ c = a ∨ c ∈ l := by
  induction l with
  | nil => simp [insertItem]
  | cons b rest ih =>
    unfold insertItem
    split
    · simp
    · rename_i h
      have : a = b := Std.LawfulEqOrd.eq_of_compare h
      subst this
      simp
    · simp only [List.mem_cons, ih]
      exact or_left_comm

theorem ascending_insertItem [Std.TransOrd α] [Std.LawfulEqOrd α] {a : α} {l : List α}
    (h : l.Pairwise fun a b => compare a b = .lt) :
    (insertItem a l).Pairwise fun a b => compare a b = .lt := by
  induction l with
  | nil => simp [insertItem]
  | cons b rest ih =>
    obtain ⟨hb, hrest⟩ := List.pairwise_cons.1 h
    unfold insertItem
    split
    · rename_i hab
      refine List.pairwise_cons.2 ⟨fun c hc => ?_, h⟩
      rcases List.mem_cons.1 hc with rfl | hc
      · exact hab
      · exact Std.TransCmp.lt_trans hab (hb c hc)
    · exact h
    · rename_i hab
      refine List.pairwise_cons.2 ⟨fun c hc => ?_, ih hrest⟩
      rcases mem_insertItem.1 hc with rfl | hc
      · exact Std.OrientedCmp.gt_iff_lt.1 hab
      · exact hb c hc

variable [Std.TransOrd α] [Std.LawfulEqOrd α]

/-- Adds an item. -/
def insert (a : α) (s : SortedSet α) : SortedSet α :=
  ⟨insertItem a s.items, ascending_insertItem s.ascending⟩

@[simp] theorem mem_insert {a c : α} {s : SortedSet α} : c ∈ s.insert a ↔ c = a ∨ c ∈ s :=
  mem_insertItem

/-- The set of the items of a list. -/
def ofList (l : List α) : SortedSet α := l.foldl (fun s a => s.insert a) empty

theorem mem_foldl_insert {c : α} {l : List α} {s : SortedSet α} :
    c ∈ l.foldl (fun s a => s.insert a) s ↔ c ∈ s ∨ c ∈ l := by
  induction l generalizing s with
  | nil => simp
  | cons a rest ih =>
    rw [List.foldl_cons, ih, mem_insert, List.mem_cons]
    constructor
    · rintro ((rfl | h) | h) <;> simp_all
    · rintro (h | rfl | h) <;> simp_all

@[simp] theorem mem_ofList {c : α} {l : List α} : c ∈ ofList l ↔ c ∈ l := by
  simp [ofList, mem_foldl_insert]

/-- The members of either set. -/
def union (s t : SortedSet α) : SortedSet α := ofList (s.items ++ t.items)

@[simp] theorem mem_union {c : α} {s t : SortedSet α} : c ∈ s.union t ↔ c ∈ s ∨ c ∈ t := by
  rw [union, mem_ofList]
  simp [mem_def]

/-- The members of exactly one of two sets. -/
def symmDiff [DecidableEq α] (s t : SortedSet α) : SortedSet α :=
  ofList (s.items.filter (fun a => decide (a ∉ t)) ++ t.items.filter fun a => decide (a ∉ s))

@[simp] theorem mem_symmDiff [DecidableEq α] {c : α} {s t : SortedSet α} :
    c ∈ s.symmDiff t ↔ (c ∈ s ∧ c ∉ t) ∨ (c ∈ t ∧ c ∉ s) := by
  rw [symmDiff, mem_ofList]
  simp [mem_def]

omit [Std.LawfulEqOrd α] in
/-- Two ascending lists with the same members are the same list. -/
theorem eq_of_ascending {l m : List α} (hl : l.Pairwise fun a b => compare a b = .lt)
    (hm : m.Pairwise fun a b => compare a b = .lt) (h : ∀ a, a ∈ l ↔ a ∈ m) : l = m := by
  induction l generalizing m with
  | nil => exact (List.eq_nil_iff_forall_not_mem.2 fun a ha => List.not_mem_nil ((h a).2 ha)).symm
  | cons a rest ih =>
    cases m with
    | nil => exact absurd ((h a).1 List.mem_cons_self) List.not_mem_nil
    | cons b others =>
      obtain ⟨ha, hrest⟩ := List.pairwise_cons.1 hl
      obtain ⟨hb, hothers⟩ := List.pairwise_cons.1 hm
      have hirrefl : ∀ c : α, compare c c ≠ .lt := fun c hc => by simp at hc
      have hab : a = b := by
        rcases List.mem_cons.1 ((h a).1 List.mem_cons_self) with hab | hab
        · exact hab
        · rcases List.mem_cons.1 ((h b).2 List.mem_cons_self) with hba | hba
          · exact hba.symm
          · exact absurd (Std.TransCmp.lt_trans (ha b hba) (hb a hab)) (hirrefl a)
      subst hab
      refine congrArg (a :: ·) (ih hrest hothers fun c => ?_)
      constructor
      · intro hc
        rcases List.mem_cons.1 ((h c).1 (List.mem_cons_of_mem a hc)) with rfl | hc'
        · exact absurd (ha c hc) (hirrefl c)
        · exact hc'
      · intro hc
        rcases List.mem_cons.1 ((h c).2 (List.mem_cons_of_mem a hc)) with rfl | hc'
        · exact absurd (hb c hc) (hirrefl c)
        · exact hc'

omit [Std.LawfulEqOrd α] in
/-- Sets with the same members are equal. -/
theorem ext_of_mem {s t : SortedSet α} (h : ∀ a, a ∈ s ↔ a ∈ t) : s = t := by
  cases s with
  | mk l hl =>
    cases t with
    | mk m hm =>
      have : l = m := eq_of_ascending hl hm h
      subst this
      rfl

end SortedSet

end LiveTemplate
