import Mathlib.Data.List.Shortlex
import LiveTemplate.Expr.Predicate
import LiveTemplate.Proofs.Octets

/-!
# The order of payloads

Payloads of one kind are ordered as what they hold (`Below`): texts by their octets, numbers and
spans of time as numbers, points in time by the second and then within it, and collections by their
length before their items. That the payloads of a kind are an ordered type in this way is said once
for each kind (`exists_ordered`), and the laws of a total order follow for all of them. Doubles are
left out, since what is not a number is not even equal to itself.

Across kinds only what is empty compares, to everything, and whole numbers and doubles do
(`order_total`).
-/

namespace LiveTemplate

open Std

instance : TransOrd Timestamp :=
  inferInstanceAs (TransCmp (compareLex (compareOn Timestamp.seconds) (compareOn Timestamp.nanos)))

instance : LawfulEqOrd Timestamp where
  eq_of_compare {t u} h := by
    obtain ⟨hs, hn⟩ := Ordering.then_eq_eq.1 h
    cases t
    cases u
    exact congrArg₂ Timestamp.mk (LawfulEqOrd.eq_of_compare hs) (LawfulEqOrd.eq_of_compare hn)

namespace Payload

/-! ### Which is below which -/

/-- Which payload is below which other one of its kind, for all kinds but doubles. -/
def Below : Payload → Payload → Prop
  | .string s, .string t => Text.octets s < Text.octets t
  | .int m, .int n | .duration m, .duration n => m.toInt < n.toInt
  | .timestamp t, .timestamp u =>
    t.seconds.toInt < u.seconds.toInt ∨ t.seconds = u.seconds ∧ t.nanos < u.nanos
  | .stringList xs, .stringList ys => xs.Shortlex (Text.octets · < Text.octets ·) ys
  | .stringSet xs, .stringSet ys => xs.items.Shortlex (Text.octets · < Text.octets ·) ys.items
  | .intList xs, .intList ys => xs.Shortlex (·.toInt < ·.toInt) ys
  | .intSet xs, .intSet ys => xs.items.Shortlex (·.toInt < ·.toInt) ys.items
  | _, _ => False

theorem compare_int_eq_lt_iff {m n : Int64} : compare m n = .lt ↔ m.toInt < n.toInt := by
  rw [← Int64.lt_iff_toInt_lt]
  exact compareOfLessAndEq_eq_lt

theorem compare_timestamp_eq_lt_iff {t u : Timestamp} : compare t u = .lt ↔
    t.seconds.toInt < u.seconds.toInt ∨ t.seconds = u.seconds ∧ t.nanos < u.nanos := by
  show (compare t.seconds u.seconds).then (compare t.nanos u.nanos) = .lt ↔ _
  rw [Ordering.then_eq_lt, compare_int_eq_lt_iff, LawfulEqOrd.compare_eq_iff_eq]
  exact or_congr_right (and_congr_right' Nat.compare_eq_lt)

section Items

variable {α : Type} [Ord α]

instance [TransOrd α] : TransCmp (@compareItems α _) :=
  inferInstanceAs (TransCmp (compareLex (compareOn List.length) compare))

instance [LawfulEqOrd α] : LawfulEqCmp (@compareItems α _) where
  compare_self := by simp [compareItems]
  eq_of_compare h := LawfulEqOrd.eq_of_compare (Ordering.then_eq_eq.1 h).2

theorem compareItems_eq_lt_iff [LawfulEqOrd α] {lt : α → α → Prop}
    (hlt : ∀ {a b : α}, compare a b = .lt ↔ lt a b) {xs ys : List α} :
    compareItems xs ys = .lt ↔ xs.Shortlex lt ys := by
  have hlex : ∀ xs ys : List α, compare xs ys = .lt ↔ xs.Lex lt ys := by
    intro xs
    induction xs with
    | nil => rintro (_ | ⟨b, ys⟩) <;> simp
    | cons a xs ih =>
      rintro (_ | ⟨b, ys⟩)
      · simp
      · rw [List.compare_cons_cons, Ordering.then_eq_lt, hlt, LawfulEqOrd.compare_eq_iff_eq, ih,
          List.cons_lex_cons_iff]
  rw [compareItems, Ordering.then_eq_lt, Nat.compare_eq_lt, LawfulEqOrd.compare_eq_iff_eq, hlex,
    List.shortlex_def]

/-- Smaller sets first, then by the first members that differ. -/
def compareSets (s t : SortedSet α) : Ordering := compareItems s.items t.items

instance [TransOrd α] : TransCmp (@compareSets α _) where
  eq_swap := OrientedCmp.eq_swap (α := List α)
  isLE_trans := TransCmp.isLE_trans (α := List α)

instance [LawfulEqOrd α] : LawfulEqCmp (@compareSets α _) where
  compare_self {s} := by
    show compareItems s.items s.items = .eq
    exact ReflCmp.compare_self
  eq_of_compare {s t} h := by
    have hitems : s.items = t.items := LawfulEqCmp.eq_of_compare (α := List α) h
    cases s
    cases t
    cases hitems
    rfl

end Items

/-! ### One kind -/

/-- The payloads of a kind are totally ordered. -/
structure TotallyOrdered (k : Kind) : Prop where
  eq_iff : ∀ {p q : Payload}, p.kind = k → q.kind = k → (p.order q = .eq ↔ p = q)
  swap : ∀ {p q : Payload}, p.kind = k → q.kind = k → q.order p = (p.order q).swap
  lt_iff : ∀ {p q : Payload}, p.kind = k → q.kind = k → (p.order q = .lt ↔ p.Below q)
  trans : ∀ {p q r : Payload}, p.kind = k → q.kind = k → r.kind = k →
    p.order q ≠ .gt → q.order r ≠ .gt → p.order r ≠ .gt

/-- Payloads that are made of something ordered, and are ordered as that is. -/
theorem TotallyOrdered.of_make {α : Type} {k : Kind} (make : α → Payload)
    (cmp : α → α → Ordering) [TransCmp cmp] [LawfulEqCmp cmp]
    (hmake : ∀ p : Payload, p.kind = k → ∃ a, make a = p) (hinj : Function.Injective make)
    (horder : ∀ a b, (make a).order (make b) = cmp a b)
    (hlt : ∀ {a b}, cmp a b = .lt ↔ (make a).Below (make b)) : TotallyOrdered k where
  eq_iff {p q} hp hq := by
    obtain ⟨a, rfl⟩ := hmake p hp
    obtain ⟨b, rfl⟩ := hmake q hq
    rw [horder, LawfulEqCmp.compare_eq_iff_eq, hinj.eq_iff]
  swap {p q} hp hq := by
    obtain ⟨a, rfl⟩ := hmake p hp
    obtain ⟨b, rfl⟩ := hmake q hq
    rw [horder, horder]
    exact OrientedCmp.eq_swap
  lt_iff {p q} hp hq := by
    obtain ⟨a, rfl⟩ := hmake p hp
    obtain ⟨b, rfl⟩ := hmake q hq
    rw [horder, hlt]
  trans {p q r} hp hq hr := by
    obtain ⟨a, rfl⟩ := hmake p hp
    obtain ⟨b, rfl⟩ := hmake q hq
    obtain ⟨c, rfl⟩ := hmake r hr
    rw [horder, horder, horder]
    intro hab hbc
    exact Ordering.ne_gt_iff_isLE.2
      (TransCmp.isLE_trans (Ordering.ne_gt_iff_isLE.1 hab) (Ordering.ne_gt_iff_isLE.1 hbc))

theorem totallyOrdered {k : Kind} (hk : k ≠ .dbl) : TotallyOrdered k := by
  cases k with
  | empty =>
    exact .of_make (fun _ : Fin 1 ↦ .empty) compare (fun | .empty, _ => ⟨0, rfl⟩)
      (fun _ _ _ ↦ Subsingleton.elim _ _) (by decide)
      fun {a b} ↦ by rw [Subsingleton.elim a b, compare_self]; exact ⟨nofun, nofun⟩
  | string =>
    exact .of_make .string compare (fun | .string s, _ => ⟨s, rfl⟩) (fun _ _ ↦ string.inj)
      (fun _ _ ↦ rfl) Text.compare_eq_lt_iff
  | stringList =>
    exact .of_make .stringList compareItems (fun | .stringList xs, _ => ⟨xs, rfl⟩)
      (fun _ _ ↦ stringList.inj) (fun _ _ ↦ rfl) (compareItems_eq_lt_iff Text.compare_eq_lt_iff)
  | stringSet =>
    exact .of_make .stringSet compareSets (fun | .stringSet xs, _ => ⟨xs, rfl⟩)
      (fun _ _ ↦ stringSet.inj) (fun _ _ ↦ rfl) (compareItems_eq_lt_iff Text.compare_eq_lt_iff)
  | int =>
    exact .of_make .int compare (fun | .int n, _ => ⟨n, rfl⟩) (fun _ _ ↦ int.inj)
      (fun _ _ ↦ rfl) compare_int_eq_lt_iff
  | intList =>
    exact .of_make .intList compareItems (fun | .intList xs, _ => ⟨xs, rfl⟩)
      (fun _ _ ↦ intList.inj) (fun _ _ ↦ rfl) (compareItems_eq_lt_iff compare_int_eq_lt_iff)
  | intSet =>
    exact .of_make .intSet compareSets (fun | .intSet xs, _ => ⟨xs, rfl⟩)
      (fun _ _ ↦ intSet.inj) (fun _ _ ↦ rfl) (compareItems_eq_lt_iff compare_int_eq_lt_iff)
  | dbl => exact absurd rfl hk
  | duration =>
    exact .of_make .duration compare (fun | .duration n, _ => ⟨n, rfl⟩) (fun _ _ ↦ duration.inj)
      (fun _ _ ↦ rfl) compare_int_eq_lt_iff
  | timestamp =>
    exact .of_make .timestamp compare (fun | .timestamp t, _ => ⟨t, rfl⟩)
      (fun _ _ ↦ timestamp.inj) (fun _ _ ↦ rfl) compare_timestamp_eq_lt_iff

/-! ### All kinds -/

theorem order_empty (p : Payload) : p.order .empty = if p.isZero then .eq else .gt := by
  cases p <;> rfl

theorem empty_order (p : Payload) : order .empty p = if p.isZero then .eq else .lt := by
  cases p <;> rfl

theorem order_of_kind_ne {p q : Payload} (hne : p.kind ≠ q.kind) (hp : p.kind ≠ .empty)
    (hq : q.kind ≠ .empty) (hnumbers : ¬ (p.kind ∈ [.int, .dbl] ∧ q.kind ∈ [.int, .dbl])) :
    p.order q = .gt := by
  unfold order
  split
  case h_15 => rfl
  all_goals
    first
    | exact absurd rfl hp
    | exact absurd rfl hq
    | exact absurd rfl hne
    | exact absurd ⟨by simp [kind], by simp [kind]⟩ hnumbers

/-- **Where payloads are ordered.** Those of one kind, doubles apart, are totally ordered. One that
is empty equals every zero and is below everything else. Any other two are in no order, unless both
are numbers: each counts as greater than the other, so that they are neither equal nor one less than
the other. -/
theorem order_total :
    (∀ k : Kind, k ≠ .dbl → TotallyOrdered k) ∧
      (∀ p : Payload, p.order .empty = (order .empty p).swap ∧
        (order .empty p = .eq ↔ p.isZero = true)) ∧
      ∀ p q : Payload, p.kind ≠ q.kind → p.kind ≠ .empty → q.kind ≠ .empty →
        ¬ (p.kind ∈ [.int, .dbl] ∧ q.kind ∈ [.int, .dbl]) →
          p.order q = .gt ∧ q.order p = .gt ∧
            Relation.equals.holds p q = false ∧ Relation.lessThan.holds p q = false := by
  refine ⟨fun k ↦ totallyOrdered, fun p ↦ ?_, fun p q hne hp hq hnumbers ↦ ?_⟩
  · rw [order_empty, empty_order]
    cases p.isZero <;> decide
  · have hpq : p.order q = .gt := order_of_kind_ne hne hp hq hnumbers
    refine ⟨hpq, order_of_kind_ne hne.symm hq hp fun h ↦ hnumbers h.symm, ?_, ?_⟩
    · rw [Relation.holds, equals, hpq]
      rfl
    · rw [Relation.holds, hpq]
      rfl

/-- A text above the first plane is above one at its end, though it would not be in UTF-16; longer
lists are above shorter ones; the beginning of 1970 is as good as nothing; and a numeral is not a
number. -/
theorem order_total_above_plane :
    (string "\uffff").order (string "😀") = .lt ∧
      (intList [9]).order (intList [1, 3]) ≠ .gt ∧
      order .empty (timestamp .epoch) = .eq ∧
      (string "1").order (int 1) = .gt ∧ Relation.equals.holds (string "1") (int 1) = false := by
  obtain ⟨hkinds, hempty, hdiffer⟩ := order_total
  have hstrings := hkinds .string (by decide)
  have hlists := hkinds .intList (by decide)
  obtain ⟨hgt, -, hne, -⟩ := hdiffer (string "1") (int 1) (by decide) (by decide) (by decide)
    (by decide)
  have hbelow : (string "\uffff").Below (string "😀") := by
    show Text.octets "\uffff" < Text.octets "😀"
    decide
  have hmiddle : (intList [9]).order (intList [1, 2]) ≠ .gt ∧
      (intList [1, 2]).order (intList [1, 3]) ≠ .gt := by decide
  exact ⟨(hstrings.lt_iff rfl rfl).2 hbelow, hlists.trans rfl rfl rfl hmiddle.1 hmiddle.2,
    (hempty _).2.2 (by decide), hgt, hne⟩

end Payload

end LiveTemplate
