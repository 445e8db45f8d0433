import LiveTemplate.Proofs.Toggling

/-!
# What collections contain

What a collection contains is told by a rule for each sort of item (`Contains`): it depends on whether
one of the two is a set, in which case only the members count, or both are lists, in which case their
order does. The code follows these rules (`includes_iff`). A list is looked for in another one in a
single pass (`scan`), each item behind the first place where it is found. That is as good as any other
place, since it leaves the most for the items that come after (`cons_sublist_iff`).

A collection that was extended by something contains it (`includes_extended`). This is so even if it
was extended by itself, or was cleared because there was nothing to extend it by; and it stays so until
one of the two changes (`Run.payload_eq`).
-/

namespace LiveTemplate

namespace Payload

/-! ### One pass over a list -/

section Scan

variable {α : Type} [BEq α]

/-- What is left of a list behind the first item that is equal to a given one. -/
def behind? (a : α) : List α → Option (List α)
  | [] => none
  | b :: l => if b == a then some l else behind? a l

/-- What is left of a list when items have been looked for in one pass over it. -/
def scan (items l : List α) : Option (List α) := items.foldlM (fun l a ↦ behind? a l) l

theorem scan_cons (a : α) (items l : List α) :
    scan (a :: items) l = (behind? a l).bind (scan items) := List.foldlM_cons

variable [LawfulBEq α]

/-- **The first place is as good as any**: what is behind another one is also behind it. -/
theorem cons_sublist_iff {a : α} {items l : List α} :
    (a :: items).Sublist l ↔ ∃ rest, behind? a l = some rest ∧ items.Sublist rest := by
  induction l with
  | nil => simp [behind?]
  | cons b l ih =>
    rw [behind?]
    by_cases hb : b = a
    · subst hb
      rw [List.cons_sublist_cons]
      simp
    · have hskip : (a :: items).Sublist (b :: l) ↔ (a :: items).Sublist l := by
        rw [List.sublist_cons_iff]
        refine or_iff_left ?_
        rintro ⟨_, heq, -⟩
        exact hb (List.cons.inj heq).1.symm
      rw [hskip, ih, if_neg (by simpa using hb)]

/-- **One pass finds a list in another one** exactly if it is there. -/
theorem isSome_scan_iff {items l : List α} : (scan items l).isSome = true ↔ items.Sublist l := by
  induction items generalizing l with
  | nil => exact iff_of_true rfl (List.nil_sublist l)
  | cons a items ih =>
    rw [cons_sublist_iff, scan_cons]
    cases behind? a l <;> simp [ih]

theorem isSublist_eq_scan (items l : List α) : items.isSublist l = (scan items l).isSome := by
  rw [Bool.eq_iff_iff, List.isSublist_iff_sublist, isSome_scan_iff]

end Scan

/-! ### The rules -/

/-- What a collection contains: nothing; its items; what gives no other items, if one of the two is a
set; and, as a list, the lists that give some of its items in the same order. -/
inductive Contains : Payload → Payload → Prop
  | empty (c : Payload) : Contains c .empty
  | string {c : Payload} {items : List String} {s : String} (hitems : c.GivesStrings items)
      (hs : s ∈ items) : Contains c (.string s)
  | int {c : Payload} {items : List Int64} {n : Int64} (hitems : c.GivesInts items)
      (hn : n ∈ items) : Contains c (.int n)
  | strings {c i : Payload} {items part : List String} (hset : c.kind.isSet ∨ i.kind.isSet)
      (hitems : c.GivesStrings items) (hpart : i.GivesStrings part) (hsubset : part ⊆ items) :
      Contains c i
  | ints {c i : Payload} {items part : List Int64} (hset : c.kind.isSet ∨ i.kind.isSet)
      (hitems : c.GivesInts items) (hpart : i.GivesInts part) (hsubset : part ⊆ items) :
      Contains c i
  | stringList {items part : List String} (hsublist : part.Sublist items) :
      Contains (.stringList items) (.stringList part)
  | intList {items part : List Int64} (hsublist : part.Sublist items) :
      Contains (.intList items) (.intList part)

variable {p q r c i : Payload}

theorem all_contains_iff {α : Type} [BEq α] [LawfulBEq α] {part items : List α} :
    part.all items.contains = true ↔ part ⊆ items := by
  simp only [List.all_eq_true, List.contains_iff_mem]
  rfl

/-- What a collection gives decides what it includes, if it or what is asked for is a set. -/
theorem includes_strings_iff {items part : List String} (hc : c.isCollection = true)
    (hset : c.kind.isSet = true ∨ i.kind.isSet = true) (hitems : c.GivesStrings items)
    (hpart : i.GivesStrings part) : c.includes i = true ↔ part ⊆ items := by
  cases hpart with
  | one s => simp [hitems.includes_string]
  | list part =>
    cases hitems with
    | one => cases hc
    | list => rcases hset with h | h <;> cases h
    | set items => exact all_contains_iff
  | set part =>
    cases hitems with
    | one => cases hc
    | list => exact all_contains_iff
    | set items => exact all_contains_iff

theorem includes_ints_iff {items part : List Int64} (hc : c.isCollection = true)
    (hset : c.kind.isSet = true ∨ i.kind.isSet = true) (hitems : c.GivesInts items)
    (hpart : i.GivesInts part) : c.includes i = true ↔ part ⊆ items := by
  cases hpart with
  | one n => simp [hitems.includes_int]
  | list part =>
    cases hitems with
    | one => cases hc
    | list => rcases hset with h | h <;> cases h
    | set items => exact all_contains_iff
  | set part =>
    cases hitems with
    | one => cases hc
    | list => exact all_contains_iff
    | set items => exact all_contains_iff

/-- **The rules are followed.** -/
theorem includes_iff (hc : c.isCollection = true) : c.includes i = true ↔ c.Contains i := by
  constructor
  · intro h
    cases c with
    | stringList items =>
      cases i with
      | empty => exact .empty _
      | string s => exact .string (.list items) (List.contains_iff_mem.1 h)
      | stringList part => exact .stringList (List.isSublist_iff_sublist.1 h)
      | stringSet part => exact .strings (.inr rfl) (.list items) (.set part) (all_contains_iff.1 h)
      | _ => cases h
    | stringSet items =>
      cases i with
      | empty => exact .empty _
      | string s => exact .string (.set items) (List.contains_iff_mem.1 h)
      | stringList part => exact .strings (.inl rfl) (.set items) (.list part) (all_contains_iff.1 h)
      | stringSet part => exact .strings (.inl rfl) (.set items) (.set part) (all_contains_iff.1 h)
      | _ => cases h
    | intList items =>
      cases i with
      | empty => exact .empty _
      | int n => exact .int (.list items) (List.contains_iff_mem.1 h)
      | intList part => exact .intList (List.isSublist_iff_sublist.1 h)
      | intSet part => exact .ints (.inr rfl) (.list items) (.set part) (all_contains_iff.1 h)
      | _ => cases h
    | intSet items =>
      cases i with
      | empty => exact .empty _
      | int n => exact .int (.set items) (List.contains_iff_mem.1 h)
      | intList part => exact .ints (.inl rfl) (.set items) (.list part) (all_contains_iff.1 h)
      | intSet part => exact .ints (.inl rfl) (.set items) (.set part) (all_contains_iff.1 h)
      | _ => cases h
    | _ => cases hc
  · intro h
    cases h with
    | empty => cases c <;> cases hc <;> rfl
    | string hitems hs => rw [hitems.includes_string, decide_eq_true_iff]; exact hs
    | int hitems hn => rw [hitems.includes_int, decide_eq_true_iff]; exact hn
    | strings hset hitems hpart hsubset =>
      exact (includes_strings_iff hc hset hitems hpart).2 hsubset
    | ints hset hitems hpart hsubset => exact (includes_ints_iff hc hset hitems hpart).2 hsubset
    | stringList hsublist => exact List.isSublist_iff_sublist.2 hsublist
    | intList hsublist => exact List.isSublist_iff_sublist.2 hsublist

/-! ### Order -/

theorem includes_self (hp : p.isCollection = true) : p.includes p = true := by
  cases p <;> cases hp
  · exact List.isSublist_iff_sublist.2 (.refl _)
  · exact all_contains_iff.2 (List.Subset.refl _)
  · exact List.isSublist_iff_sublist.2 (.refl _)
  · exact all_contains_iff.2 (List.Subset.refl _)

theorem includes_trans (hp : p.isCollection = true) (hq : q.kind = p.kind) (hr : r.kind = p.kind)
    (h : p.includes q = true) (h' : q.includes r = true) : p.includes r = true := by
  cases p <;> cases hp <;> cases q <;> cases hq <;> cases r <;> cases hr
  · exact List.isSublist_iff_sublist.2
      ((List.isSublist_iff_sublist.1 h').trans (List.isSublist_iff_sublist.1 h))
  · exact all_contains_iff.2 (List.Subset.trans (all_contains_iff.1 h') (all_contains_iff.1 h))
  · exact List.isSublist_iff_sublist.2
      ((List.isSublist_iff_sublist.1 h').trans (List.isSublist_iff_sublist.1 h))
  · exact all_contains_iff.2 (List.Subset.trans (all_contains_iff.1 h') (all_contains_iff.1 h))

/-! ### Extensions -/

theorem isCollection_of_kind (hkind : q.kind = p.kind) (hp : p.isCollection = true) :
    q.isCollection = true := by
  cases p <;> cases hp <;> cases q <;> cases hkind <;> rfl

/-- **A collection contains what it was extended by**, even if that was nothing and it was cleared. -/
theorem includes_extended {current source next : Payload} (hcurrent : current.isCollection = true)
    (h : fold .extend current source = some next) : next.includes source = true := by
  refine (includes_iff (isCollection_of_kind (kind_fold h) hcurrent)).2 ?_
  cases fold_eq_some_iff.1 h with
  | clear => exact .empty _
  | off _ htoggle => cases htoggle
  | take hcoerces =>
    -- A collection is no scalar.
    cases hcoerces with
    | same _ hscalar => cases current <;> cases hcurrent <;> cases hscalar
    | floor | widen => cases hcurrent
  | stringList hitems htakes =>
    cases htakes with
    | off htoggle => cases htoggle
    | replace _ hreplace => cases hreplace
    | append =>
      cases hitems with
      | one s => exact .string (.list _) List.mem_concat_self
      | list items => exact .stringList (List.sublist_append_right _ _)
      | set items => exact .strings (.inr rfl) (.list _) (.set _) (List.subset_append_right _ _)
  | intList hitems htakes =>
    cases htakes with
    | off htoggle => cases htoggle
    | replace _ hreplace => cases hreplace
    | append =>
      cases hitems with
      | one n => exact .int (.list _) List.mem_concat_self
      | list items => exact .intList (List.sublist_append_right _ _)
      | set items => exact .ints (.inr rfl) (.list _) (.set _) (List.subset_append_right _ _)
  | stringSet hitems htakes =>
    exact .strings (.inl rfl) (.set _) hitems fun a ha ↦ (htakes a).2 (.inr ha)
  | intSet hitems htakes =>
    exact .ints (.inl rfl) (.set _) hitems fun a ha ↦ (htakes a).2 (.inr ha)

end Payload

namespace Engine

open Payload (includes_iff includes_self includes_trans isCollection_of_kind isSome_scan_iff
  isSublist_eq_scan scan)
open World

variable {η : Type}

/-- A cell that was extended by another one contains it, and by itself too. -/
theorem World.includes_extended {w w' : World η} {target source : CellId} {works : List (Work η)}
    (hc : (w.payload target).isCollection = true)
    (h : w.fold target source .extend = some (w', works)) :
    (w'.payload target).includes (w'.payload source) = true := by
  obtain ⟨hnext, hothers⟩ := payload_of_fold hc h
  by_cases hsame : source = target
  · rw [hsame]
    exact includes_self (isCollection_of_kind (Payload.kind_fold hnext) hc)
  · rw [hothers source hsame]
    exact Payload.includes_extended hc hnext

theorem World.Refolded.orderly {w w' : World η} {c : CellId} {next : Payload}
    {works : List (Work η)} (h : w.Refolded c next w' works) (ho : w.Orderly) : w'.Orderly := by
  cases h
  · exact ho
  · exact ho.put c next

theorem World.Refolded.hasCell {w w' : World η} {c : CellId} {next : Payload}
    {works : List (Work η)} (h : w.Refolded c next w' works) (c' : CellId) :
    w'.HasCell c' ↔ w.HasCell c' := by
  cases h
  · rfl
  · exact hasCell_put w c next c'

namespace Activity

variable {may : Activity η → Deed η → Prop} {a b : Activity η} {es : List Happening}

/-- **A payload stays what it is** as long as there is no news of a change. -/
theorem Run.payload_eq (h : Run may a es b) (ho : a.world.Orderly) {c : CellId}
    (hc : a.world.HasCell c) (hkept : ∀ time, .changed c time ∉ es) :
    b.world.payload c = a.world.payload c := by
  induction h with
  | refl => rfl
  | @tail b d es es' hrun hstep ih =>
    have hbefore := ih fun time hmem ↦ hkept time (List.mem_append_left _ hmem)
    rcases payload_of_change (hstep.change (hrun.orderly ho)) (hrun.hasCell ho hc) with
      heq | ⟨p, stack, -, hnews⟩
    · rw [heq, hbefore]
    · refine absurd (List.mem_append_right es ?_) (hkept b.world.clock.now)
      rw [hnews]
      exact List.mem_cons_self

/-- **What collections contain, and what they are extended by.** A collection contains what the rules
say, and nothing else. For lists this is found in a single pass, which misses no way for the items to
stand in their order, however often they are repeated. Among collections of a kind, each contains
itself and whatever is contained in one that it contains. And once a collection has been extended by
what a cell holds, which may be itself, it contains what that cell then holds; let anything be done
after that, it goes on to contain it until there is news of a change of one of the two. -/
theorem contains_extended :
    (∀ c i : Payload, c.isCollection = true → (c.includes i = true ↔ c.Contains i)) ∧
      ((∀ items part, (Payload.stringList items).includes (.stringList part) =
          (scan part items).isSome) ∧
        (∀ items part, (Payload.intList items).includes (.intList part) =
          (scan part items).isSome) ∧
        ∀ {α : Type} [BEq α] [LawfulBEq α] (items part : List α),
          (scan part items).isSome = true ↔ part.Sublist items) ∧
      (∀ p : Payload, p.isCollection = true → p.includes p = true) ∧
      (∀ p q r : Payload, p.isCollection = true → q.kind = p.kind → r.kind = p.kind →
        p.includes q = true → q.includes r = true → p.includes r = true) ∧
      (∀ (w w' : World η) (target source : CellId) (works : List (Work η)),
        (w.payload target).isCollection = true → w.fold target source .extend = some (w', works) →
          (w'.payload target).includes (w'.payload source) = true) ∧
      ∀ (es : List Happening) (a : Activity η), Run anything ⟨start, []⟩ es a →
        ∀ (target source : CellId) (w' : World η) (works : List (Work η)),
          (a.world.payload target).isCollection = true → a.world.HasCell source →
          a.world.fold target source .extend = some (w', works) →
          ∀ (es' : List Happening) (b : Activity η), Run anything ⟨w', works ++ a.stack⟩ es' b →
            (∀ time, .changed target time ∉ es' ∧ .changed source time ∉ es') →
            (b.world.payload target).includes (b.world.payload source) = true := by
  refine ⟨fun _ _ ↦ includes_iff, ⟨fun items part ↦ isSublist_eq_scan part items,
    fun items part ↦ isSublist_eq_scan part items, fun _ _ ↦ isSome_scan_iff⟩,
    fun _ ↦ includes_self, fun _ _ _ ↦ includes_trans, fun _ _ _ _ _ ↦ World.includes_extended, ?_⟩
  intro es a hrun target source w' works hcollection hsource hfold es' b hlater hkept
  obtain ⟨next, -, hrefolded⟩ := exists_of_fold hfold
  have ho : w'.Orderly := hrefolded.orderly (hrun.orderly orderly_start)
  have htarget : a.world.HasCell target := hasCell_of_payload fun hempty ↦ by
    rw [hempty] at hcollection
    cases hcollection
  rw [hlater.payload_eq ho ((hrefolded.hasCell target).2 htarget) fun time ↦ (hkept time).1,
    hlater.payload_eq ho ((hrefolded.hasCell source).2 hsource) fun time ↦ (hkept time).2]
  exact World.includes_extended hcollection hfold

/-! ### A list that is extended by itself -/

/-- A list that repeats an item and is observed, and a cell that holds nothing. -/
def shelf : World Unit :=
  (follow [some (.create (.intList [1, 2, 1])), some (.create .empty),
    some (.observe 0 (.handler ()))] ⟨start, []⟩).2.world

/-- What is left when the list has been extended by itself. -/
def doubled : Activity Unit :=
  ⟨shelf.put 0 (.intList [1, 2, 1, 1, 2, 1]), [.tellCell 0 none (shelf.observers 0)]⟩

/-- Extended by itself, the list contains itself, also when its observer has been told; and it
contains a list that it did not contain before. By nothing it is cleared, which it contains as well. -/
theorem contains_extended_shelf :
    ((doubled.turns 2).2.world.payload 0).includes ((doubled.turns 2).2.world.payload 0) = true ∧
      (shelf.payload 0).includes (.intList [2, 1, 2]) = false ∧
      (doubled.world.payload 0).includes (.intList [2, 1, 2]) = true ∧
      ((shelf.put 0 (.intList [])).payload 0).includes ((shelf.put 0 (.intList [])).payload 1) =
        true := by
  have hshelf : History anything ⟨start, []⟩ _ ⟨shelf, []⟩ := History.ofPlan _ ⟨start, []⟩ (by decide)
  obtain ⟨hrules, ⟨-, hpass, hscan⟩, -, -, hextends, hlater⟩ := @contains_extended Unit
  refine ⟨?_, ?_, ?_, ?_⟩
  · have hquiet : (doubled.turns 2).1 = [] := rfl
    refine hlater _ _ hshelf.run 0 0 doubled.world doubled.stack rfl rfl rfl _ _
      ((Run.refl doubled).turns 2) fun time ↦ ?_
    simp [hquiet]
  · exact (hpass [1, 2, 1] [2, 1, 2]).trans (by decide)
  · exact (hrules _ _ rfl).2 (.intList ((hscan _ _).1 (by decide)))
  · exact hextends shelf _ 0 1 _ rfl rfl

end Activity

end Engine

end LiveTemplate
