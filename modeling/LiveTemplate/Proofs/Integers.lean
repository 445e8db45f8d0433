import LiveTemplate.Json.Reader
import LiveTemplate.Proofs.Figures
import LiveTemplate.Template.Literal
import LiveTemplate.Wire.Basic

/-!
# Reading whole numbers

A whole number is read from figures in a template and from a number in a document. Both readers take
it as it is when it is written as a whole number in range, and go through the nearest double
otherwise; the double is floored, and what is out of range goes to the nearest end of it.

So a number with a point is rounded before it is floored. If it has few digits that does not matter
(`Decimal.Figures.floor_nearestDouble`); else the rounding can carry it to a whole number that it
does not reach. Beyond the range the rounding never matters (`nearestInt64_floor_nearestDouble`),
but nothing is refused there before the doubles end. `integers_read` puts this together.
-/

namespace LiveTemplate

open Decimal

/-! ### The ends of the range -/

theorem nearestInt64_of_fits {n : ℤ} (h : FitsInt64 n) : nearestInt64 n = Int64.ofInt n := by
  rw [nearestInt64, if_neg (not_lt.2 h.1), if_neg (not_lt.2 h.2)]

theorem nearestInt64_eq_maxValue {n : ℤ} (h : 9223372036854775807 ≤ n) :
    nearestInt64 n = Int64.maxValue := by
  rw [← Int64.toInt_inj, toInt_nearestInt64_eq_clamp, min_eq_right h]
  rfl

theorem nearestInt64_eq_minValue {n : ℤ} (h : n ≤ -9223372036854775808) :
    nearestInt64 n = Int64.minValue := by
  rw [← Int64.toInt_inj, toInt_nearestInt64_eq_clamp, min_eq_left (by omega), max_eq_left h]
  rfl

theorem toInt_nearestInt64_eq_iff (n : ℤ) : (nearestInt64 n).toInt = n ↔ FitsInt64 n := by
  rw [toInt_nearestInt64_eq_clamp, fitsInt64_iff]
  omega

/-- Beyond the range, rounding to a double makes no difference. -/
theorem nearestInt64_floor_nearestDouble {x : ℚ} (h : ¬FitsInt64 ⌊x⌋) :
    nearestInt64 ⌊nearestDouble x⌋ = nearestInt64 ⌊x⌋ := by
  have hend : IsDouble (2 ^ (63 : ℤ)) := isDouble_zpow (by decide)
  rw [fitsInt64_iff] at h
  rcases (show ⌊x⌋ < -9223372036854775808 ∨ 9223372036854775807 < ⌊x⌋ by omega) with hlow | hhigh
  · have hx : x ≤ -2 ^ (63 : ℤ) := by
      have : x < -9223372036854775808 := by exact_mod_cast Int.floor_lt.1 hlow
      norm_num
      linarith
    have hfloor : ⌊nearestDouble x⌋ ≤ -9223372036854775808 := by
      have := nearestDouble_le hend.neg hx
      norm_num at this
      exact_mod_cast (Int.floor_le _).trans this
    rw [nearestInt64_eq_minValue hfloor, nearestInt64_eq_minValue (by omega)]
  · have hx : 2 ^ (63 : ℤ) ≤ x := by
      have : (9223372036854775808 : ℤ) ≤ ⌊x⌋ := hhigh
      have := Int.le_floor.1 this
      norm_num at this ⊢
      exact this
    have hfloor : 9223372036854775808 ≤ ⌊nearestDouble x⌋ := by
      have := le_nearestDouble hend hx
      norm_num at this
      exact Int.le_floor.2 (by exact_mod_cast this)
    rw [nearestInt64_eq_maxValue (by omega), nearestInt64_eq_maxValue (by omega)]

theorem fitsInt64_toInt (n : Int64) : FitsInt64 n.toInt :=
  fitsInt64_iff.2 ⟨n.le_toInt, Int.le_of_lt_add_one n.toInt_lt⟩

/-- What has 64 bits is not too large for a double. -/
theorem toDouble?_of_abs_le {x : ℚ} (h : |x| ≤ 2 ^ (64 : ℤ)) :
    toDouble? x = some (nearestDouble x) := by
  have hle : |nearestDouble x| ≤ 2 ^ (64 : ℤ) :=
    abs_nearestDouble_le (isDouble_zpow (by decide)) h
  have hlt : (2 : ℚ) ^ (64 : ℤ) < 2 ^ (1024 : ℤ) := zpow_lt_zpow_right₀ one_lt_two (by decide)
  rw [toDouble?, if_pos (by exact_mod_cast hle.trans_lt hlt)]

theorem abs_le_of_fits {x : ℚ} (h : FitsInt64 ⌊x⌋) : |x| ≤ 2 ^ (64 : ℤ) := by
  obtain ⟨hlow, hhigh⟩ := fitsInt64_iff.1 h
  have hlow' : (-9223372036854775808 : ℚ) ≤ x := by exact_mod_cast Int.le_floor.1 hlow
  have hhigh' : x < 9223372036854775807 + 1 := by
    exact_mod_cast Int.floor_lt.1 (Int.lt_add_one_of_le hhigh)
  rw [abs_le]
  norm_num
  constructor <;> linarith

/-! ### Texts -/

namespace Template

/-- **A whole number is read from figures** as it is if it has no point and is in range. Otherwise
it is rounded to a double, and the double is floored. -/
theorem integer?_figures (a : Figures) {text : String} (h : Text.trim text.toList = a.chars) :
    integer? text =
      if a.part = none ∧ FitsInt64 ⌊a.value⌋ then some (Int64.ofInt ⌊a.value⌋)
      else (toDouble? a.value).map fun v ↦ nearestInt64 ⌊v⌋ := by
  obtain ⟨x, hread, hvalue⟩ := a.double?_chars
  show (int64? (Text.trim text.toList)).or
    (((double? (Text.trim text.toList)).filter Float.isFinite).map floorInt64) = _
  rw [h, a.int64?_chars, hread, Option.filter_some, isFinite_eq, hvalue]
  split
  · rfl
  · rw [Option.none_or]
    rcases hdouble : toDouble? a.value with _ | v
    · rfl
    · exact congrArg some (floorInt64_eq (hvalue.trans hdouble))

end Template

/-! ### Documents -/

/-- The number that a number of a document is, if it is finite. -/
def Json.Number.value? : Json.Number → Option ℚ
  | .natural n => some n.toNat
  | .negative n => some n.toInt
  | .double x => Decimal.value? x

namespace Wire.Tagged

theorem wholeNumber?_number {n : Json.Number} {v : ℚ} (h : n.value? = some v) :
    wholeNumber? (.number n) = some (nearestInt64 ⌊v⌋) := by
  rcases n with n | n | x
  · obtain rfl : (n.toNat : ℚ) = v := Option.some.inj h
    show (if (n.toNat : ℤ) ≤ Int64.maxValue.toInt then some n.toInt64 else none).or
      (some (floorInt64 n.toFloat)) = _
    have hmin : Int64.minValue.toInt = -9223372036854775808 := rfl
    split
    · rename_i hle
      have hfits : FitsInt64 n.toNat := ⟨by omega, hle⟩
      rw [Int.floor_natCast, nearestInt64_of_fits hfits, Int64.ofInt_eq_ofNat,
        ← UInt64.toInt64_ofNat', UInt64.ofNat_toNat]
      rfl
    · -- The double is beyond the range as well.
      rename_i hgt
      have hfits : ¬FitsInt64 ⌊(n.toNat : ℚ)⌋ := by
        rw [Int.floor_natCast]
        exact fun hfits ↦ hgt hfits.2
      have hsize : |(n.toNat : ℚ)| ≤ 2 ^ (64 : ℤ) := by
        rw [Nat.abs_cast]
        exact_mod_cast n.toNat_lt.le
      have hvalue := (value?_toFloat n).trans (toDouble?_of_abs_le hsize)
      rw [Option.none_or, floorInt64_eq hvalue, nearestInt64_floor_nearestDouble hfits]
  · obtain rfl : (n.toInt : ℚ) = v := Option.some.inj h
    have hfits : FitsInt64 n.toInt := fitsInt64_toInt n
    rw [Int.floor_intCast, nearestInt64_of_fits hfits, Int64.ofInt_toInt]
    rfl
  · exact congrArg some (floorInt64_eq h)

theorem readInt_number (tag : Tag) {n : Json.Number} {v : ℚ} (h : n.value? = some v) :
    readInt ⟨tag, .number n⟩ = .ok (nearestInt64 ⌊v⌋) := by
  unfold readInt
  rw [wholeNumber?_number h]
  rfl

/-- A content that is not a number is not read as one. -/
theorem wholeNumber?_eq_none {content : Json} (h : ∀ n, content ≠ .number n) :
    wholeNumber? content = none := by
  rcases content with _ | _ | n | _ | _ | _ | _
  · rfl
  · rfl
  · exact absurd rfl (h n)
  · rfl
  · rfl
  · rfl
  · rfl

theorem mapM_expect_number (w : Tagged) (expectation : Expectation) {ns : List Json.Number}
    {vs : List ℚ} (h : List.Forall₂ (fun n v ↦ n.value? = some v) ns vs) :
    (ns.map Json.number).mapM (fun item ↦ w.expect expectation (wholeNumber? item)) =
      .ok (vs.map fun v ↦ nearestInt64 ⌊v⌋) := by
  induction h with
  | nil => rfl
  | cons hn _ ih =>
    rw [List.map_cons, List.mapM_cons, wholeNumber?_number hn, ih]
    rfl

/-- One item that is not a number spoils them all. -/
theorem mapM_expect_error (w : Tagged) (expectation : Expectation) {items : List Json}
    (h : ∃ item ∈ items, ∀ n, item ≠ .number n) :
    items.mapM (fun item ↦ w.expect expectation (wholeNumber? item)) =
      .error (.badContent w.tag expectation) := by
  induction items with
  | nil => exact absurd h (by simp)
  | cons item items ih =>
    rw [List.mapM_cons]
    rcases hitem : wholeNumber? item with _ | k
    · rfl
    · have hrest : ∃ item ∈ items, ∀ n, item ≠ .number n := by
        obtain ⟨bad, hmem, hbad⟩ := h
        rcases List.mem_cons.1 hmem with rfl | hmem
        · rw [wholeNumber?_eq_none hbad] at hitem
          cases hitem
        · exact ⟨bad, hmem, hbad⟩
      rw [ih hrest]
      rfl

end Wire.Tagged

namespace Json

theorem gather_eq {s : List Char} {n : ℕ} (h : Nat.ofDigitChars 10 s n < UInt64.size) :
    gather n s = (Nat.ofDigitChars 10 s n, []) := by
  induction s generalizing n with
  | nil => rfl
  | cons c s ih =>
    rw [Nat.ofDigitChars_cons, Nat.mul_comm 10] at h ⊢
    have hnext : n * 10 + (c.toNat - '0'.toNat) < UInt64.size := by
      refine lt_of_le_of_lt ?_ h
      rw [Nat.ofDigitChars_eq_ofDigitChars_zero]
      have hone : 1 ≤ 10 ^ s.length := Nat.one_le_pow _ _ (by decide)
      exact (Nat.le_mul_of_pos_left _ hone).trans (Nat.le_add_right _ _)
    rw [gather]
    show (if n * 10 + (c.toNat - '0'.toNat) < UInt64.size then _ else _) = _
    rw [if_pos hnext]
    exact ih h

/-- Digits are read as the number that they denote. -/
theorem ofDigits_value {negative : Bool} {whole : List Char} {n : ℕ}
    (hn : Nat.ofDigitChars 10 whole 0 = n)
    (hfits : FitsInt64 (if negative then -(n : ℤ) else n)) :
    ∃ k, ofDigits negative whole = .number k ∧
      k.value? = some (if negative then -(n : ℚ) else n) := by
  have hsize : n < UInt64.size := by
    have hrange := fitsInt64_iff.1 hfits
    show n < 18446744073709551616
    split at hrange <;> omega
  rw [ofDigits, gather_eq (hn ▸ hsize), hn]
  rcases negative with _ | _
  · refine ⟨_, rfl, ?_⟩
    show some (((UInt64.ofNat n).toNat : ℕ) : ℚ) = some (n : ℚ)
    rw [UInt64.toNat_ofNat_of_lt' hsize]
  · have hneg : FitsInt64 (-(n : ℤ)) := hfits
    show ∃ k, (if n = 0 then _ else if Int64.minValue.toInt ≤ -(n : ℤ) then _ else _) = _ ∧ _
    by_cases hzero : n = 0
    · rw [if_pos hzero, hzero]
      refine ⟨.double (-0.0), rfl, ?_⟩
      show Decimal.value? (-0.0) = some (-((0 : ℕ) : ℚ))
      rw [value?_neg, value?_zero, Nat.cast_zero]
      rfl
    · rw [if_neg hzero, if_pos hneg.1]
      refine ⟨_, rfl, ?_⟩
      show some (((Int64.ofInt (-(n : ℤ))).toInt : ℤ) : ℚ) = some (-(n : ℚ))
      rw [← nearestInt64_of_fits hneg, (toInt_nearestInt64_eq_iff _).2 hneg, Int.cast_neg,
        Int.cast_natCast]

variable {a : Figures}

/-- Figures that a document may hold for a whole number: without a point, a plus sign or a zero in
front of other digits. -/
def Plain (a : Figures) : Prop :=
  a.part = none ∧ a.lead ≠ .plus ∧ (a.whole.head? = some '0' → a.whole.length = 1)

theorem number?_chars (h : Plain a) (hfits : FitsInt64 ⌊a.value⌋) :
    ∃ k, number? a.chars = some (.number k, []) ∧ k.value? = some a.value := by
  obtain ⟨hpart, hplus, hfirst⟩ := h
  have hdigit : ∀ c ∈ a.whole, c.isDigit = true := fun c hc ↦
    a.isDigit c (List.mem_append_left _ hc)
  have hbody : a.body = a.whole := by
    rw [Figures.body, hpart]
    exact List.append_nil _
  have hminus := a.body_ne (d := '-') (by decide) (by decide)
  have hnonempty : a.whole.isEmpty = false := by
    obtain ⟨c, rest, hcons, -⟩ := a.body_eq
    rw [← hbody, hcons]
    rfl
  have hhead : (a.whole.head? == some '0' && decide (a.whole.length > 1)) = false := by
    rw [Bool.and_eq_false_iff]
    by_cases hzero : a.whole.head? = some '0'
    · right
      rw [hfirst hzero]
      rfl
    · exact .inl (beq_false_of_ne hzero)
  have hnumber : Nat.ofDigitChars 10 a.whole 0 = a.number := by
    rw [Figures.number, hpart, Option.getD_none, List.append_nil]
  have hvalue : a.value = if a.lead = .minus then -(a.number : ℚ) else a.number := by
    rw [Figures.value, Figures.places, hpart]
    show a.lead.apply (a.number / 10 ^ 0) = _
    rw [pow_zero, div_one, Lead.apply]
  have htake : a.whole.takeWhile Char.isDigit = a.whole := List.takeWhile_eq_self_iff.2 hdigit
  have hdrop : a.whole.dropWhile Char.isDigit = [] := List.dropWhile_eq_nil_iff.2 hdigit
  rw [a.floor_value hpart] at hfits
  rw [Figures.chars, hvalue]
  rw [hbody] at hminus ⊢
  unfold number?
  rcases hlead : a.lead with _ | _ | _ <;> rw [hlead] at hfits
  · obtain ⟨k, hk, hkvalue⟩ := @ofDigits_value false _ _ hnumber hfits
    simp only [Lead.chars, List.nil_append, htake, hdrop, hnonempty, hhead, hk]
    exact ⟨k, rfl, hkvalue⟩
  · exact absurd hlead hplus
  · obtain ⟨k, hk, hkvalue⟩ := @ofDigits_value true _ _ hnumber hfits
    simp only [Lead.chars, List.cons_append, List.nil_append, htake, hdrop, hnonempty, hhead, hk]
    exact ⟨k, rfl, hkvalue⟩

theorem chars_eq (h : Plain a) :
    ∃ c rest, a.chars = c :: rest ∧ (c.isDigit = true ∨ c = '-') := by
  obtain ⟨hpart, hplus, -⟩ := h
  obtain ⟨c, rest, hbody, -⟩ := a.body_eq
  have hmem : c ∈ a.whole ++ a.part.getD [] := by
    rw [hpart]
    show c ∈ a.whole ++ []
    rw [show a.whole ++ [] = a.body by rw [Figures.body, hpart]; rfl, hbody]
    exact List.mem_cons_self
  rw [Figures.chars, hbody]
  rcases hlead : a.lead with _ | _ | _
  · exact ⟨c, rest, rfl, .inl (a.isDigit c hmem)⟩
  · exact absurd hlead hplus
  · exact ⟨'-', c :: rest, rfl, .inr rfl⟩

theorem chars_ne (h : Plain a) {d : Char} (hd : d.isDigit = false) (hminus : d ≠ '-')
    {more : List Char} : a.chars ≠ d :: more := by
  obtain ⟨c, rest, hcons, hc⟩ := chars_eq h
  rw [hcons]
  rintro ⟨rfl, -⟩
  rcases hc with hc | hc
  · exact absurd hc (by rw [hd]; decide)
  · exact hminus hc

/-- **A whole number in a document is read as it is** if it is in range. -/
theorem parse?_chars (h : Plain a) (hfits : FitsInt64 ⌊a.value⌋) {text : String}
    (htext : text.toList = a.chars) :
    ∃ k, parse? text = some (.number k) ∧ k.value? = some a.value := by
  obtain ⟨k, hread, hvalue⟩ := number?_chars h hfits
  refine ⟨k, ?_, hvalue⟩
  have hskip : skipBlanks a.chars = a.chars := by
    obtain ⟨c, rest, hcons, hc⟩ := chars_eq h
    have hblank : isBlank c = false := by
      rcases hc with hc | rfl
      · refine Bool.eq_false_iff.2 fun hblank ↦ ?_
        simp only [isBlank, Bool.or_eq_true, beq_iff_eq] at hblank
        rcases hblank with ((rfl | rfl) | rfl) | rfl <;> exact absurd hc (by decide)
      · rfl
    rw [hcons, skipBlanks, List.dropWhile_cons_of_neg (by rw [hblank]; decide)]
  have hvalue : readValue? (a.chars.length + 1) 127 a.chars = some (.number k, []) := by
    rw [readValue?, hskip]
    -- No other value begins with a digit or a minus sign.
    split
    · rename_i heq
      exact absurd heq (chars_ne h (by decide) (by decide))
    · rename_i heq
      exact absurd heq (chars_ne h (by decide) (by decide))
    · rename_i heq
      exact absurd heq (chars_ne h (by decide) (by decide))
    · rename_i heq
      exact absurd heq (chars_ne h (by decide) (by decide))
    · rename_i heq
      exact absurd heq (chars_ne h (by decide) (by decide))
    · rename_i heq
      exact absurd heq (chars_ne h (by decide) (by decide))
    · exact hread
  unfold parse?
  rw [htext]
  simp only [hvalue]
  rfl

end Json

/-! ### Integer input -/

/-- A number of at most `2 ^ 53` is in range. -/
theorem fits_of_abs_le {x : ℚ} (h : |x| ≤ 2 ^ 53) : FitsInt64 ⌊x⌋ := by
  obtain ⟨hlow, hhigh⟩ := abs_le.1 h
  rw [fitsInt64_iff]
  constructor
  · refine Int.le_floor.2 ?_
    push_cast
    linarith
  · have : (⌊x⌋ : ℚ) ≤ 9223372036854775807 := (Int.floor_le x).trans (by linarith)
    exact_mod_cast this

/-- A number with few digits keeps its floor. -/
theorem Decimal.Figures.floor_nearestDouble {a : Figures} (hnumber : a.number ≤ 2 ^ 53)
    (hplaces : a.places ≤ 323) :
    ⌊nearestDouble a.value⌋ = ⌊a.value⌋ ∧ FitsInt64 ⌊a.value⌋ := by
  have habs : |if a.lead = .minus then -(a.number : ℤ) else a.number| ≤ 2 ^ 53 := by
    split
    · rw [abs_neg, Nat.abs_cast]
      exact_mod_cast hnumber
    · rw [Nat.abs_cast]
      exact_mod_cast hnumber
  rw [a.value_eq]
  refine ⟨Decimal.floor_nearestDouble habs hplaces, fits_of_abs_le ?_⟩
  have hten : (1 : ℚ) ≤ 10 ^ a.places := one_le_pow₀ (by norm_num)
  rw [abs_div, abs_of_pos (zero_lt_one.trans_le hten), div_le_iff₀ (zero_lt_one.trans_le hten)]
  exact (show _ ≤ (2 : ℚ) ^ 53 by exact_mod_cast habs).trans
    (le_mul_of_one_le_right (by positivity) hten)

theorem Template.integer?_of_fits {a : Figures} {text : String}
    (h : Text.trim text.toList = a.chars) (hfits : FitsInt64 ⌊a.value⌋) :
    integer? text = some (if a.part = none then Int64.ofInt ⌊a.value⌋
      else nearestInt64 ⌊nearestDouble a.value⌋) := by
  rw [integer?_figures a h, toDouble?_of_abs_le (abs_le_of_fits hfits)]
  by_cases hpart : a.part = none
  · rw [if_pos ⟨hpart, hfits⟩, if_pos hpart]
  · rw [if_neg fun hwhole ↦ hpart hwhole.1, if_neg hpart]
    rfl

/-- **Integer input is exact only where it does not go through a double.** In figures a whole number
is exact as long as it is in range. A number with a point is rounded to a double before it is
floored, so its floor can be missed; not so with few digits. What is out of range is not refused but
becomes the nearest end of the range, unless it is too large for a double. A document keeps every
number in range that it holds exactly, and never refuses one. -/
theorem integers_read (a : Figures) {text : String} (h : Text.trim text.toList = a.chars)
    (tag : Wire.Tag) :
    (FitsInt64 ⌊a.value⌋ →
      Template.integer? text =
          some (if a.part = none then Int64.ofInt ⌊a.value⌋
            else nearestInt64 ⌊nearestDouble a.value⌋) ∧
        (Template.integer? text = some (Int64.ofInt ⌊a.value⌋) ↔
          a.part = none ∨ nearestInt64 ⌊nearestDouble a.value⌋ = Int64.ofInt ⌊a.value⌋)) ∧
    (a.number ≤ 2 ^ 53 → a.places ≤ 323 →
      Template.integer? text = some (Int64.ofInt ⌊a.value⌋)) ∧
    (¬FitsInt64 ⌊a.value⌋ →
      Template.integer? text =
        if |nearestDouble a.value| < 2 ^ 1024 then some (nearestInt64 ⌊a.value⌋) else none) ∧
    (text.toList = a.chars → Json.Plain a → FitsInt64 ⌊a.value⌋ →
      ∃ content, Json.parse? text = some content ∧
        Wire.Tagged.readInt ⟨tag, content⟩ = .ok (Int64.ofInt ⌊a.value⌋)) ∧
    (∀ (n : Json.Number) (v : ℚ), n.value? = some v →
      Wire.Tagged.readInt ⟨tag, .number n⟩ = .ok (nearestInt64 ⌊v⌋) ∧
        ((nearestInt64 ⌊v⌋).toInt = ⌊v⌋ ↔ FitsInt64 ⌊v⌋)) ∧
    (∀ content : Json, (∀ n, content ≠ .number n) →
      Wire.Tagged.readInt ⟨tag, content⟩ = .error (.badContent tag .aNumber)) ∧
    (∀ (ns : List Json.Number) (vs : List ℚ),
      List.Forall₂ (fun n v ↦ n.value? = some v) ns vs →
        Wire.Tagged.readInts ⟨tag, .array (ns.map .number)⟩ =
          .ok (vs.map fun v ↦ nearestInt64 ⌊v⌋)) ∧
    (∀ items : List Json, (∃ item ∈ items, ∀ n, item ≠ .number n) →
      Wire.Tagged.readInts ⟨tag, .array items⟩ = .error (.badContent tag .integers)) := by
  refine ⟨?_, ?_, ?_, ?_, ?_, ?_, ?_, ?_⟩
  · intro hfits
    have hread := Template.integer?_of_fits h hfits
    refine ⟨hread, ?_⟩
    rw [hread, Option.some_inj]
    by_cases hpart : a.part = none
    · rw [if_pos hpart]
      exact ⟨fun _ ↦ .inl hpart, fun _ ↦ rfl⟩
    · rw [if_neg hpart]
      exact ⟨.inr, fun hor ↦ hor.resolve_left hpart⟩
  · intro hnumber hplaces
    obtain ⟨hfloor, hfits⟩ := Figures.floor_nearestDouble hnumber hplaces
    rw [Template.integer?_of_fits h hfits, hfloor, nearestInt64_of_fits hfits, ite_self]
  · intro hfits
    rw [Template.integer?_figures a h, if_neg fun hwhole ↦ hfits hwhole.2, toDouble?]
    split
    · exact congrArg some (nearestInt64_floor_nearestDouble hfits)
    · rfl
  · intro htext hplain hfits
    obtain ⟨k, hparse, hvalue⟩ := Json.parse?_chars hplain hfits htext
    refine ⟨.number k, hparse, ?_⟩
    rw [Wire.Tagged.readInt_number tag hvalue, nearestInt64_of_fits hfits]
  · intro n v hvalue
    exact ⟨Wire.Tagged.readInt_number tag hvalue, toInt_nearestInt64_eq_iff _⟩
  · intro content hcontent
    unfold Wire.Tagged.readInt
    rw [Wire.Tagged.wholeNumber?_eq_none hcontent]
    rfl
  · intro ns vs hvalues
    exact Wire.Tagged.mapM_expect_number _ _ hvalues
  · intro items hbad
    exact Wire.Tagged.mapM_expect_error _ _ hbad

/-- A number just below one, with seventeen nines behind the point. -/
def nines : Figures where
  lead := .bare
  whole := ['0']
  part := some (List.replicate 17 '9')
  isDigit := List.all_eq_true.1 (by decide)
  nonempty := by decide

/-- The number after the last one in range. -/
def beyond : Figures where
  lead := .bare
  whole := "9223372036854775808".toList
  part := none
  isDigit := List.all_eq_true.1 (by decide)
  nonempty := by decide

/-- The double nearest to seventeen nines is one, and what is beyond the range becomes its end, in a
text as in a document. -/
theorem integers_read_upward :
    ⌊nines.value⌋ = 0 ∧ Template.integer? " 0.99999999999999999 " = some 1 ∧
      ¬FitsInt64 ⌊beyond.value⌋ ∧
      Template.integer? "9223372036854775808" = some Int64.maxValue ∧
      Wire.Tagged.readInt ⟨.int, .number (.natural 9223372036854775808)⟩ = .ok Int64.maxValue ∧
      Wire.Tagged.readInt ⟨.int, .null⟩ = .error (.badContent .int .aNumber) := by
  have hnines : FitsInt64 ⌊nines.value⌋ := by decide +kernel
  have hbeyond : ¬FitsInt64 ⌊beyond.value⌋ := by decide +kernel
  have htext : Text.trim " 0.99999999999999999 ".toList = nines.chars := by decide +kernel
  have htext' : Text.trim "9223372036854775808".toList = beyond.chars := by decide +kernel
  obtain ⟨hread, -⟩ := integers_read nines htext .int
  obtain ⟨-, -, hend, -, hnumbers, hothers, -⟩ := integers_read beyond htext' .int
  refine ⟨by decide +kernel, ?_, hbeyond, ?_, ?_, ?_⟩
  · rw [(hread hnines).1]
    decide +kernel
  · rw [hend hbeyond]
    decide +kernel
  · rw [(hnumbers (.natural 9223372036854775808) 9223372036854775808 rfl).1]
    decide +kernel
  · exact hothers .null nofun

end LiveTemplate
