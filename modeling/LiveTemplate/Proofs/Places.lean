import LiveTemplate.Proofs.Figures
import LiveTemplate.Value.Timestamp

/-!
# Numbers with a fixed number of places

A double is written with a number of places by rounding its exact value to a whole number of units
of the last place (`fixed_eq`), which are then put into figures (`Figures.ofUnits`). If the zeros at
the end are dropped, the figures denote the same number (`Figures.exists_trims`).
-/

namespace LiveTemplate

namespace Decimal

/-! ### Rounding to a number of places -/

/-- **A tie between two whole numbers goes to the even one**, also in a division of whole
numbers. -/
theorem roundDiv_even (num : ℕ) {den : ℕ} (h : 0 < den) :
    (roundDiv .even num den : ℤ) = roundEven (num / den) := by
  have hden : (0 : ℚ) < den := by exact_mod_cast h
  have hfloor : ⌊(num : ℚ) / den⌋ = (num / den : ℕ) := by
    rw [← Nat.floor_div_eq_div (K := ℚ), Int.natCast_floor_eq_floor (by positivity)]
  have hfract : Int.fract ((num : ℚ) / den) * den = (num % den : ℕ) := by
    have hsplit : (den : ℚ) * (num / den : ℕ) + (num % den : ℕ) = num := by
      exact_mod_cast Nat.div_add_mod num den
    rw [Int.fract, hfloor, sub_mul, div_mul_cancel₀ _ hden.ne', Int.cast_natCast]
    linarith
  have hcompare : compare (2 * Int.fract ((num : ℚ) / den)) 1 = compare (2 * (num % den)) den := by
    have hscale : 2 * Int.fract ((num : ℚ) / den) * den = (2 * (num % den) : ℕ) := by
      rw [mul_assoc, hfract]
      push_cast
      rfl
    rcases lt_trichotomy (2 * (num % den)) den with hlt | heq | hgt
    · rw [compare_lt_iff_lt.2 hlt, compare_lt_iff_lt]
      refine lt_of_mul_lt_mul_right ?_ hden.le
      rw [hscale, one_mul]
      exact_mod_cast hlt
    · rw [compare_eq_iff_eq.2 heq, compare_eq_iff_eq]
      refine mul_right_cancel₀ hden.ne' ?_
      rw [hscale, one_mul]
      exact_mod_cast heq
    · rw [compare_gt_iff_gt.2 hgt, compare_gt_iff_gt]
      refine lt_of_mul_lt_mul_right ?_ hden.le
      rw [hscale, one_mul]
      exact_mod_cast hgt
  rw [roundDiv, roundEven, hcompare, hfloor]
  cases compare (2 * (num % den)) den with
  | lt => rfl
  | gt => rfl
  | eq =>
    dsimp only
    split <;> push_cast <;> omega

/-- A number is scaled by a power of two and a power of ten. -/
theorem scaled_div (a : ℕ) (p : ℤ) (places : ℕ) :
    0 < (scaled a p places).2 ∧
      ((scaled a p places).1 : ℚ) / (scaled a p places).2 = a * 2 ^ p * 10 ^ places := by
  have hten : (-(places : ℤ)).toNat = 0 := by omega
  simp only [scaled, hten, Nat.shiftLeft_eq, Int.toNat_natCast, Nat.pow_eq, pow_zero, mul_one,
    one_mul]
  refine ⟨Nat.two_pow_pos _, ?_⟩
  push_cast
  rcases le_total 0 p with hp | hp
  · obtain ⟨k, rfl⟩ := Int.eq_ofNat_of_zero_le hp
    have hneg : (-(k : ℤ)).toNat = 0 := by omega
    rw [hneg, Int.toNat_natCast, zpow_natCast, pow_zero, div_one]
  · obtain ⟨k, rfl⟩ : ∃ k : ℕ, p = -k := ⟨(-p).toNat, by omega⟩
    have hneg : (-(k : ℤ)).toNat = 0 := by omega
    rw [hneg, neg_neg, Int.toNat_natCast, zpow_neg, zpow_natCast, pow_zero, mul_one]
    ring

/-! ### Figures -/

namespace Figures

/-- Digits with zeros in front of them, up to a width. -/
def padded (width n : ℕ) : List Char :=
  List.replicate (width - (Nat.toDigits 10 n).length) '0' ++ Nat.toDigits 10 n

theorem isDigit_of_mem_padded {width n : ℕ} {c : Char} (h : c ∈ padded width n) :
    c.isDigit = true := by
  rcases List.mem_append.1 h with h | h
  · rw [List.eq_of_mem_replicate h]
    rfl
  · exact Nat.isDigit_of_mem_toDigits (by decide) (by decide) h

theorem length_padded {width n : ℕ} (hwidth : 0 < width) (h : n < 10 ^ width) :
    (padded width n).length = width := by
  have := (Nat.length_toDigits_le_iff (by decide) hwidth).2 h
  rw [padded, List.length_append, List.length_replicate]
  omega

theorem ofDigitChars_padded (width n : ℕ) : Nat.ofDigitChars 10 (padded width n) 0 = n := by
  have hzeros : ∀ k, Nat.ofDigitChars 10 (List.replicate k '0') 0 = 0 := fun k ↦ by
    induction k with
    | zero => rfl
    | succ k ih =>
      rw [List.replicate_succ, Nat.ofDigitChars_cons]
      exact ih
  rw [padded, Nat.ofDigitChars_append, hzeros, Nat.ofDigitChars_toDigits (by decide) (by decide)]

/-- So many units of the last of the places behind the point, in figures. -/
def ofUnits (lead : Lead) (places units : ℕ) : Figures where
  lead := lead
  whole := Nat.toDigits 10 (units / 10 ^ places)
  part := some (padded places (units % 10 ^ places))
  isDigit := fun c hc ↦ by
    rcases List.mem_append.1 hc with hc | hc
    · exact Nat.isDigit_of_mem_toDigits (by decide) (by decide) hc
    · exact isDigit_of_mem_padded hc
  nonempty := fun h ↦ Nat.toDigits_ne_nil (List.append_eq_nil_iff.1 h).1

theorem places_ofUnits (lead : Lead) {places : ℕ} (hplaces : 0 < places) (units : ℕ) :
    (ofUnits lead places units).places = places :=
  length_padded hplaces (Nat.mod_lt _ (by positivity))

theorem value_ofUnits (lead : Lead) {places : ℕ} (hplaces : 0 < places) (units : ℕ) :
    (ofUnits lead places units).value = lead.apply (units / 10 ^ places) := by
  have hlength : (padded places (units % 10 ^ places)).length = places :=
    length_padded hplaces (Nat.mod_lt _ (by positivity))
  have hnumber : (ofUnits lead places units).number = units := by
    show Nat.ofDigitChars 10 (Nat.toDigits 10 (units / 10 ^ places) ++
      padded places (units % 10 ^ places)) 0 = units
    rw [Nat.ofDigitChars_append, Nat.ofDigitChars_toDigits (by decide) (by decide),
      Nat.ofDigitChars_eq_ofDigitChars_zero, hlength, ofDigitChars_padded, Nat.div_add_mod]
  rw [value, hnumber, places_ofUnits lead hplaces]
  rfl

end Figures

/-- What stands in front of a number that is written with a sign only if it is negative. -/
def Lead.ofSign (negative : Bool) : Lead := if negative then .minus else .bare

theorem fixed_finite (places : ℕ) {x : Float} {negative : Bool} {m : Magnitude}
    (h : Reading.ofFloat x = .finite negative m) :
    (fixed places x).toList = (Figures.ofUnits (.ofSign negative) places
      (roundEven (m.mantissa * 2 ^ m.exponent * 10 ^ places)).toNat).chars := by
  obtain ⟨hpos, hvalue⟩ := scaled_div m.mantissa m.exponent places
  have hround := roundDiv_even (scaled m.mantissa m.exponent places).1 hpos
  rw [hvalue] at hround
  rw [← hround, Int.toNat_natCast, fixed, h]
  rcases negative with _ | _
  · exact String.toList_ofList
  · exact String.toList_ofList

/-- **A double with a number of places is rounded once more**, from its value. -/
theorem fixed_eq (places : ℕ) {x : Float} {v : ℚ} (hx : value? x = some v) (hv : v ≠ 0) :
    (fixed places x).toList =
      (Figures.ofUnits (.ofSign (decide (v < 0))) places
        (roundEven (|v| * 10 ^ places)).toNat).chars := by
  unfold value? at hx
  rcases hread : Reading.ofFloat x with _ | _ | ⟨negative, m⟩ <;> rw [hread] at hx
  · cases hx
  · cases hx
  · obtain rfl := Option.some.inj hx
    have hpos : (0 : ℚ) < m.mantissa * 2 ^ m.exponent := by
      refine lt_of_le_of_ne (by positivity) fun hzero ↦ hv ?_
      rw [← hzero, mul_zero]
    rw [fixed_finite places hread]
    rcases negative with _ | _
    · have hsign : ¬((1 : ℚ) * (m.mantissa * 2 ^ m.exponent) < 0) := by linarith
      simp only [Bool.false_eq_true, if_false, hsign, decide_false]
      rw [one_mul, abs_of_pos hpos]
    · have hsign : (-1 : ℚ) * (m.mantissa * 2 ^ m.exponent) < 0 := by linarith
      simp only [if_true, hsign, decide_true]
      rw [neg_one_mul, abs_neg, abs_of_pos hpos]

/-! ### Zeros at the end -/

theorem exists_zeros (s : List Char) :
    ∃ t zeros, s = t ++ List.replicate zeros '0' ∧ t.getLast? ≠ some '0' := by
  induction s using List.reverseRecOn with
  | nil => exact ⟨[], 0, rfl, nofun⟩
  | append_singleton s c ih =>
    by_cases hc : c = '0'
    · obtain ⟨t, zeros, rfl, ht⟩ := ih
      exact ⟨t, zeros + 1, by rw [hc, List.append_assoc, ← List.replicate_succ'], ht⟩
    · refine ⟨s ++ [c], 0, (List.append_nil _).symm, ?_⟩
      rw [List.getLast?_concat]
      exact fun h ↦ hc (Option.some.inj h)

namespace Figures

/-- The same number in figures, but with no zeros at the end of the part behind the point; and with
no point if nothing is left behind it. -/
structure Trims (a b : Figures) : Prop where
  lead : b.lead = a.lead
  value : b.value = a.value
  part : ∀ part ∈ b.part, part ≠ [] ∧ part.length ≤ a.places ∧ part.getLast? ≠ some '0'

theorem ofDigitChars_append_zeros (s : List Char) (zeros : ℕ) :
    Nat.ofDigitChars 10 (s ++ List.replicate zeros '0') 0 =
      Nat.ofDigitChars 10 s 0 * 10 ^ zeros := by
  induction zeros with
  | zero => rw [List.replicate_zero, List.append_nil, pow_zero, mul_one]
  | succ zeros ih =>
    rw [List.replicate_succ', ← List.append_assoc, Nat.ofDigitChars_append, ih,
      Nat.ofDigitChars_cons, Nat.ofDigitChars_nil, pow_succ]
    show 10 * _ + 0 = _
    ring

/-- **Zeros at the end are dropped**, and the number is the same. -/
theorem exists_trims (a : Figures) {part : List Char} (hpart : a.part = some part)
    (hwhole : a.whole ≠ []) :
    ∃ b, a.Trims b ∧ trimFraction (String.ofList a.chars) = String.ofList b.chars := by
  obtain ⟨t, zeros, rfl, ht⟩ := exists_zeros part
  have hdigit : ∀ c ∈ a.whole ++ (t ++ List.replicate zeros '0'), c.isDigit = true := by
    have := a.isDigit
    rwa [hpart] at this
  have hpoint : ∀ c ∈ a.whole ++ t, (c == '.') = false := fun c hc ↦ by
    refine beq_false_of_ne fun h ↦ ?_
    rw [← List.append_assoc] at hdigit
    exact absurd (hdigit c (List.mem_append_left _ hc)) (by rw [h]; decide)
  obtain ⟨b, hlead, hbwhole, hbpart⟩ : ∃ b : Figures, b.lead = a.lead ∧ b.whole = a.whole ∧
      b.part = if t = [] then none else some t := by
    refine ⟨⟨a.lead, a.whole, if t = [] then none else some t, fun c hc ↦ hdigit c ?_,
      fun h ↦ hwhole (List.append_eq_nil_iff.1 h).1⟩, rfl, rfl, rfl⟩
    rcases List.mem_append.1 hc with hc | hc
    · exact List.mem_append_left _ hc
    · refine List.mem_append_right _ (List.mem_append_left _ ?_)
      split at hc
      · cases hc
      · exact hc
  have hgetD : b.part.getD [] = t := by
    rw [hbpart]
    split
    · rename_i h
      exact h.symm
    · rfl
  refine ⟨b, ⟨hlead, ?_, fun part hmem ↦ ?_⟩, ?_⟩
  · have hnumber : a.number = b.number * 10 ^ zeros := by
      rw [number, number, hpart, hgetD, hbwhole, Option.getD_some, ← List.append_assoc,
        ofDigitChars_append_zeros]
    have hplaces : a.places = b.places + zeros := by
      rw [places, places, hpart, hgetD, Option.getD_some, List.length_append, List.length_replicate]
    rw [value, value, hnumber, hplaces, hlead]
    refine congrArg a.lead.apply ?_
    push_cast
    rw [pow_add, mul_div_mul_right _ _ (by positivity)]
  · rw [hbpart] at hmem
    split at hmem
    · cases hmem
    · rename_i hne
      obtain rfl : t = part := Option.some.inj hmem
      refine ⟨hne, ?_, ht⟩
      rw [places, hpart, Option.getD_some, List.length_append]
      exact Nat.le_add_right _ _
  · obtain ⟨w, d, hw⟩ := (List.eq_nil_or_concat a.whole).resolve_left hwhole
    have hd : (d == '.') = false := hpoint d (by rw [hw]; simp)
    have hreverse : a.chars.reverse = List.replicate zeros '0' ++
        (t.reverse ++ '.' :: d :: (a.lead.chars ++ w).reverse) := by
      simp [chars, body, hpart, hw]
    have hzeros : ∀ c ∈ List.replicate zeros '0', (c == '0') = true := fun c hc ↦ by
      rw [List.eq_of_mem_replicate hc]
      rfl
    rw [trimFraction, String.toList_ofList, hreverse, List.dropWhile_append_of_pos hzeros, chars,
      body, hlead, hbwhole, hbpart]
    rcases List.eq_nil_or_concat t with rfl | ⟨init, c, rfl⟩
    · -- The point goes as well, and what stands before it is a digit.
      simp [hw, hd]
    · have hc : (c == '0') = false := beq_false_of_ne fun h ↦ by simp [h] at ht
      have hcpoint : (c == '.') = false := hpoint c (by simp)
      simp [hw, hc, hcpoint]

end Figures

end Decimal

end LiveTemplate
