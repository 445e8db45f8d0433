import Mathlib.Algebra.Group.Nat.Defs
import Mathlib.Data.List.Lex
import Mathlib.Order.Basic

/-!
# The octets of a text

Texts are compared character by character. In UTF-8 this is the same as comparing them octet by
octet (`compare_eq_lt_iff`), which rests on two facts about the octets of a character. A larger
character never has a smaller first octet, since the marks of longer encodings are larger
(`Spans.append_lt`); and among the encodings of one length the digits of base 64 come with the
highest first (`sextets_append_lt`). Neither encoding is a beginning of the other, so the first
octets that differ settle the comparison, whatever follows.
-/

namespace LiveTemplate.Text

/-- The octets of a text in UTF-8. -/
def octets (s : String) : List UInt8 := s.toUTF8.data.toList

theorem octets_eq (s : String) : octets s = s.toList.flatMap String.utf8EncodeChar := by
  rw [octets, String.toUTF8, ← String.utf8Encode_toList, List.utf8Encode]
  exact List.toList_data_toByteArray

/-! ### A character -/

/-- A number in base 64, the highest digit first and with a mark, and so many digits after it, each
marked as a continuation. -/
def sextets (mark : Nat) : Nat → Nat → List UInt8
  | 0, v => [UInt8.ofNat (v + mark)]
  | k + 1, v => sextets mark k (v / 64) ++ [UInt8.ofNat (v % 64 + 128)]

/-- The mark of the first octet and the number of those that follow it, for each character. -/
inductive Spans : Nat → Nat → Nat → Prop
  | one {v : Nat} (hlt : v < 128) : Spans 0 0 v
  | two {v : Nat} (hle : 128 ≤ v) (hlt : v < 2048) : Spans 192 1 v
  | three {v : Nat} (hle : 2048 ≤ v) (hlt : v < 65536) : Spans 224 2 v
  | four {v : Nat} (hle : 65536 ≤ v) (hlt : v < 1114112) : Spans 240 3 v

theorem ofNat_lt_ofNat {m n : Nat} (h : m < n) (hn : n < 256) : UInt8.ofNat m < UInt8.ofNat n := by
  rw [UInt8.lt_iff_toNat_lt, UInt8.toNat_ofNat_of_lt' (Nat.lt_trans h hn),
    UInt8.toNat_ofNat_of_lt' hn]
  exact h

theorem exists_sextets_eq (mark k v : Nat) :
    ∃ rest, sextets mark k v = UInt8.ofNat (v / 64 ^ k + mark) :: rest := by
  induction k generalizing v with
  | zero => exact ⟨[], by rw [pow_zero, Nat.div_one]; rfl⟩
  | succ k ih =>
    obtain ⟨rest, hrest⟩ := ih (v / 64)
    rw [Nat.div_div_eq_div_mul, ← pow_succ'] at hrest
    exact ⟨rest ++ [_], by rw [sextets, hrest]; rfl⟩

theorem sextets_append_lt {mark k v v' : Nat} (h : v < v') (hfits : v' / 64 ^ k + mark < 256)
    (r r' : List UInt8) : sextets mark k v ++ r < sextets mark k v' ++ r' := by
  -- From the last digit to the first: it counts only if the digits in front of it are the same.
  induction k generalizing v v' r r' with
  | zero =>
    rw [pow_zero, Nat.div_one] at hfits
    exact List.cons_lt_cons_iff.2 (.inl (ofNat_lt_ofNat (by omega) hfits))
  | succ k ih =>
    rw [sextets, sextets, List.append_assoc, List.append_assoc]
    rcases Nat.lt_or_eq_of_le (Nat.div_le_div_right (c := 64) (Nat.le_of_lt h)) with hlt | heq
    · refine ih hlt ?_ _ _
      rwa [Nat.div_div_eq_div_mul, ← pow_succ']
    · have hlast : UInt8.ofNat (v % 64 + 128) < UInt8.ofNat (v' % 64 + 128) :=
        ofNat_lt_ofNat (by omega) (by omega)
      rw [heq]
      exact List.append_left_lt (List.cons_lt_cons_iff.2 (.inl hlast))

theorem sextets_append_lt_of_mark {mark k v mark' k' v' : Nat}
    (h : v / 64 ^ k + mark < v' / 64 ^ k' + mark') (hfits : v' / 64 ^ k' + mark' < 256)
    (r r' : List UInt8) : sextets mark k v ++ r < sextets mark' k' v' ++ r' := by
  obtain ⟨rest, hrest⟩ := exists_sextets_eq mark k v
  obtain ⟨rest', hrest'⟩ := exists_sextets_eq mark' k' v'
  rw [hrest, hrest']
  exact List.cons_lt_cons_iff.2 (.inl (ofNat_lt_ofNat h hfits))

theorem Spans.append_lt {mark k v mark' k' v' : Nat} (h : Spans mark k v) (h' : Spans mark' k' v')
    (hlt : v < v') (r r' : List UInt8) : sextets mark k v ++ r < sextets mark' k' v' ++ r' := by
  have hfits : v' / 64 ^ k' + mark' < 256 := by cases h' <;> simp only [Nat.reducePow] <;> omega
  by_cases heq : k = k'
  · subst heq
    obtain rfl : mark = mark' := by cases h <;> cases h' <;> rfl
    exact sextets_append_lt hlt hfits r r'
  · refine sextets_append_lt_of_mark ?_ hfits r r'
    cases h <;> cases h' <;> simp only [Nat.reducePow] <;> omega

theorem exists_spans (c : Char) : ∃ mark k, Spans mark k c.val.toNat ∧
    String.utf8EncodeChar c = sextets mark k c.val.toNat := by
  have hc : c.val.toNat < 1114112 := by
    have hvalid := c.valid
    simp only [UInt32.isValidChar, Nat.isValidChar] at hvalid
    change c.val.toNat < 55296 ∨ 57343 < c.val.toNat ∧ c.val.toNat < 1114112 at hvalid
    omega
  unfold String.utf8EncodeChar
  generalize c.val.toNat = v at *
  dsimp only
  split
  next h => exact ⟨0, 0, .one (by omega), rfl⟩
  split
  next h =>
    refine ⟨192, 1, .two (by omega) (by omega), ?_⟩
    rw [Nat.mod_eq_of_lt (a := v / 64) (by omega)]
    rfl
  split
  next h =>
    refine ⟨224, 2, .three (by omega) (by omega), ?_⟩
    rw [Nat.mod_eq_of_lt (a := v / 4096) (by omega)]
    simp [sextets, Nat.div_div_eq_div_mul]
  next h =>
    refine ⟨240, 3, .four (by omega) (by omega), ?_⟩
    rw [Nat.mod_eq_of_lt (a := v / 262144) (by omega)]
    simp [sextets, Nat.div_div_eq_div_mul]

theorem utf8EncodeChar_append_lt {c d : Char} (h : c < d) (r r' : List UInt8) :
    String.utf8EncodeChar c ++ r < String.utf8EncodeChar d ++ r' := by
  obtain ⟨mark, k, hspans, heq⟩ := exists_spans c
  obtain ⟨mark', k', hspans', heq'⟩ := exists_spans d
  rw [heq, heq']
  exact hspans.append_lt hspans' h r r'

/-! ### A text -/

theorem flatMap_lt_flatMap {s t : List Char} (h : s < t) :
    s.flatMap String.utf8EncodeChar < t.flatMap String.utf8EncodeChar := by
  induction h with
  | @nil c t =>
    obtain ⟨mark, k, -, heq⟩ := exists_spans c
    obtain ⟨rest, hrest⟩ := exists_sextets_eq mark k c.val.toNat
    rw [List.flatMap_cons, heq, hrest]
    exact List.nil_lt_cons _ _
  | rel h => exact utf8EncodeChar_append_lt h _ _
  | cons _ ih => exact List.append_left_lt ih

theorem octets_lt {s t : String} (h : s < t) : octets s < octets t := by
  rw [octets_eq, octets_eq]
  exact flatMap_lt_flatMap h

theorem compare_eq_lt_iff_lt {s t : String} : compare s t = .lt ↔ s < t := by
  show compareOfLessAndEq s t = .lt ↔ s < t
  exact compareOfLessAndEq_eq_lt

/-- **Texts are in the order of their octets.** -/
theorem compare_eq_lt_iff {s t : String} : compare s t = .lt ↔ octets s < octets t := by
  rw [compare_eq_lt_iff_lt]
  refine ⟨octets_lt, fun h ↦ ?_⟩
  cases hst : compare s t with
  | lt => exact compare_eq_lt_iff_lt.1 hst
  | eq =>
    rw [Std.LawfulEqOrd.eq_of_compare hst] at h
    exact absurd h (List.lt_irrefl _)
  | gt =>
    have hts := octets_lt (compare_eq_lt_iff_lt.1 (Std.OrientedCmp.gt_iff_lt.1 hst))
    exact absurd hts (List.lt_asymm h)

end LiveTemplate.Text
