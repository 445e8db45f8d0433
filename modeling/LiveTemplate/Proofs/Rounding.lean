import LiveTemplate.Decimal.Binary64
import Mathlib.Algebra.Order.Round
import Mathlib.Data.Int.Log
import Mathlib.Data.Rat.Floor
import Mathlib.Tactic.Linarith
import Mathlib.Tactic.NormNum
import Mathlib.Tactic.Positivity
import Mathlib.Tactic.Ring

/-!
# Rounding to the nearest double

The number that a double makes of a fraction, in exact arithmetic: `nearestDouble` keeps 53 bits, or
fewer where the last of them would be below `2 ^ (-1074)`, and goes to the even neighbour in a tie.
No double is nearer (`nearestDouble_nearest`), so rounding never goes past a double. A fraction for
which there is no finite double left is not one (`toDouble?`).
-/

namespace LiveTemplate.Decimal

/-! ### Whole numbers -/

/-- The whole number nearest to `x`; of two that are equally near, the even one. -/
def roundEven (x : ℚ) : ℤ :=
  match compare (2 * Int.fract x) 1 with
  | .lt => ⌊x⌋
  | .eq => ⌊x⌋ + ⌊x⌋ % 2
  | .gt => ⌊x⌋ + 1

theorem abs_roundEven_sub_le (x : ℚ) : |(roundEven x : ℚ) - x| ≤ 1 / 2 := by
  have hsplit : x = ⌊x⌋ + Int.fract x := (Int.floor_add_fract x).symm
  have hlow : 0 ≤ Int.fract x := Int.fract_nonneg x
  have hhigh : Int.fract x < 1 := Int.fract_lt_one x
  unfold roundEven
  rcases hc : compare (2 * Int.fract x) 1 with _ | _ | _
  · have : 2 * Int.fract x < 1 := compare_lt_iff_lt.1 hc
    rw [abs_le]
    constructor <;> linarith
  · have : 2 * Int.fract x = 1 := compare_eq_iff_eq.1 hc
    have hparity : ⌊x⌋ % 2 = 0 ∨ ⌊x⌋ % 2 = 1 := Int.emod_two_eq _
    rw [abs_le]
    rcases hparity with h | h <;> rw [h] <;> push_cast <;> constructor <;> linarith
  · have : 1 < 2 * Int.fract x := compare_gt_iff_gt.1 hc
    rw [abs_le]
    push_cast
    constructor <;> linarith

/-- **No whole number is nearer.** -/
theorem roundEven_nearest (x : ℚ) (k : ℤ) : |(roundEven x : ℚ) - x| ≤ |(k : ℚ) - x| := by
  rcases eq_or_ne (roundEven x) k with rfl | hne
  · exact le_rfl
  · have hint : (1 : ℤ) ≤ |roundEven x - k| := Int.one_le_abs (sub_ne_zero.2 hne)
    have hrat : (1 : ℚ) ≤ |(roundEven x : ℚ) - k| := by exact_mod_cast hint
    have htri : |(roundEven x : ℚ) - k| ≤ |(roundEven x : ℚ) - x| + |x - k| :=
      abs_sub_le _ _ _
    have hhalf : |(roundEven x : ℚ) - x| ≤ 1 / 2 := abs_roundEven_sub_le x
    rw [abs_sub_comm (k : ℚ)]
    linarith

theorem roundEven_intCast (k : ℤ) : roundEven (k : ℚ) = k := by
  have h : |(roundEven (k : ℚ) : ℚ) - k| ≤ |(k : ℚ) - k| := roundEven_nearest _ k
  rw [sub_self, abs_zero] at h
  exact_mod_cast sub_eq_zero.1 (abs_nonpos_iff.1 h)

theorem le_roundEven {k : ℤ} {x : ℚ} (h : (k : ℚ) ≤ x) : k ≤ roundEven x := by
  have hnear := roundEven_nearest x k
  rw [abs_sub_comm (k : ℚ), abs_of_nonneg (sub_nonneg.2 h)] at hnear
  have hlow := neg_le_of_abs_le hnear
  have : (k : ℚ) ≤ roundEven x := by linarith
  exact_mod_cast this

theorem roundEven_neg (x : ℚ) : roundEven (-x) = -roundEven x := by
  rcases eq_or_ne (Int.fract x) 0 with hwhole | hne
  · rw [show x = (⌊x⌋ : ℚ) from (sub_eq_zero.1 hwhole), ← Int.cast_neg, roundEven_intCast,
      roundEven_intCast]
  · have hfract : Int.fract (-x) = 1 - Int.fract x := Int.fract_neg hne
    have hfloor : ⌊-x⌋ = -⌊x⌋ - 1 := by
      have hsum : (⌊-x⌋ : ℚ) = -⌊x⌋ - 1 := by
        have h₁ := Int.floor_add_fract x
        have h₂ := Int.floor_add_fract (-x)
        linarith
      exact_mod_cast hsum
    unfold roundEven
    rw [hfract, hfloor]
    rcases hc : compare (2 * Int.fract x) 1 with _ | _ | _
    · have h : 2 * Int.fract x < 1 := compare_lt_iff_lt.1 hc
      rw [show compare (2 * (1 - Int.fract x)) 1 = .gt from compare_gt_iff_gt.2 (by linarith)]
      show -⌊x⌋ - 1 + 1 = -⌊x⌋
      omega
    · have h : 2 * Int.fract x = 1 := compare_eq_iff_eq.1 hc
      rw [show compare (2 * (1 - Int.fract x)) 1 = .eq from compare_eq_iff_eq.2 (by linarith)]
      show -⌊x⌋ - 1 + (-⌊x⌋ - 1) % 2 = -(⌊x⌋ + ⌊x⌋ % 2)
      omega
    · have h : 1 < 2 * Int.fract x := compare_gt_iff_gt.1 hc
      rw [show compare (2 * (1 - Int.fract x)) 1 = .lt from compare_lt_iff_lt.2 (by linarith)]
      show -⌊x⌋ - 1 = -(⌊x⌋ + 1)
      omega

/-! ### Doubles -/

/-- The numbers of 53 bits none of which is below `2 ^ (-1074)`. A double is finite when it is also
smaller than `2 ^ 1024`. -/
def IsDouble (v : ℚ) : Prop := ∃ m e : ℤ, |m| ≤ 2 ^ 53 ∧ -1074 ≤ e ∧ v = m * 2 ^ e

/-- The exponent of the last of the 53 bits at the magnitude of `x`. -/
def lastPlace (x : ℚ) : ℤ := max (Int.log 2 |x| - 52) (-1074)

/-- The double nearest to `x`; of two that are equally near, the one whose last bit is zero. -/
def nearestDouble (x : ℚ) : ℚ := roundEven (x / 2 ^ lastPlace x) * 2 ^ lastPlace x

theorem two_zpow_pos (t : ℤ) : (0 : ℚ) < 2 ^ t := zpow_pos two_pos t

theorem lastPlace_neg (x : ℚ) : lastPlace (-x) = lastPlace x := by
  rw [lastPlace, lastPlace, abs_neg]

theorem nearestDouble_neg (x : ℚ) : nearestDouble (-x) = -nearestDouble x := by
  rw [nearestDouble, nearestDouble, lastPlace_neg, neg_div, roundEven_neg, Int.cast_neg, neg_mul]

theorem nearestDouble_zero : nearestDouble 0 = 0 := by
  rw [nearestDouble, zero_div, ← Int.cast_zero, roundEven_intCast, Int.cast_zero, zero_mul]

theorem le_lastPlace (x : ℚ) : -1074 ≤ lastPlace x := le_max_right _ _

/-- The bits down to the last place are enough for the magnitude. -/
theorem abs_lt_lastPlace (x : ℚ) : |x| < 2 ^ 53 * 2 ^ lastPlace x := by
  have hlog : |x| < 2 ^ (Int.log 2 |x| + 1) := by
    exact_mod_cast Int.lt_zpow_succ_log_self one_lt_two |x|
  have hle : Int.log 2 |x| + 1 ≤ 53 + lastPlace x := by
    have := le_max_left (Int.log 2 |x| - 52) (-1074)
    unfold lastPlace
    omega
  calc |x| < 2 ^ (Int.log 2 |x| + 1) := hlog
    _ ≤ 2 ^ (53 + lastPlace x) := zpow_le_zpow_right₀ one_le_two hle
    _ = 2 ^ 53 * 2 ^ lastPlace x := by rw [zpow_add₀ two_ne_zero]; rfl

/-- Above the least exponent all 53 bits are in use. -/
theorem lastPlace_le_abs {x : ℚ} (hx : x ≠ 0) (h : -1074 < lastPlace x) :
    2 ^ 52 * 2 ^ lastPlace x ≤ |x| := by
  have hlast : lastPlace x = Int.log 2 |x| - 52 := by
    unfold lastPlace at h ⊢
    omega
  have hlog : (2 : ℚ) ^ Int.log 2 |x| ≤ |x| := by
    exact_mod_cast Int.zpow_log_le_self one_lt_two (abs_pos.2 hx)
  calc (2 : ℚ) ^ 52 * 2 ^ lastPlace x = 2 ^ (52 + lastPlace x) := by
        rw [zpow_add₀ two_ne_zero]; rfl
    _ = 2 ^ Int.log 2 |x| := by rw [hlast]; congr 1; omega
    _ ≤ |x| := hlog

/-- A distance, counted in units of the last place. -/
theorem abs_mul_lastPlace_sub (x a : ℚ) :
    |a * 2 ^ lastPlace x - x| = |a - x / 2 ^ lastPlace x| * 2 ^ lastPlace x := by
  have hpos := two_zpow_pos (lastPlace x)
  rw [← abs_of_pos hpos, ← abs_mul, abs_of_pos hpos, sub_mul, div_mul_cancel₀ _ hpos.ne']

/-- A multiple of the last place is no nearer. -/
theorem nearestDouble_nearest_multiple (x : ℚ) (k : ℤ) :
    |nearestDouble x - x| ≤ |k * 2 ^ lastPlace x - x| := by
  rw [nearestDouble, abs_mul_lastPlace_sub, abs_mul_lastPlace_sub]
  exact mul_le_mul_of_nonneg_right (roundEven_nearest _ k) (two_zpow_pos _).le

theorem abs_nearestDouble_sub_le (x : ℚ) : |nearestDouble x - x| ≤ 2 ^ lastPlace x / 2 := by
  have hhalf := mul_le_mul_of_nonneg_right (abs_roundEven_sub_le (x / 2 ^ lastPlace x))
    (two_zpow_pos (lastPlace x)).le
  rw [nearestDouble, abs_mul_lastPlace_sub]
  linarith

theorem abs_roundEven_le (x : ℚ) : |roundEven (x / 2 ^ lastPlace x)| ≤ 2 ^ 53 := by
  have hpos := two_zpow_pos (lastPlace x)
  have hsmall : |x / 2 ^ lastPlace x| < 2 ^ 53 := by
    rw [abs_div, abs_of_pos hpos, div_lt_iff₀ hpos]
    exact abs_lt_lastPlace x
  have hhalf := abs_roundEven_sub_le (x / 2 ^ lastPlace x)
  have htri : |(roundEven (x / 2 ^ lastPlace x) : ℚ)| < 2 ^ 53 + 1 := by
    have := abs_sub_abs_le_abs_sub (roundEven (x / 2 ^ lastPlace x) : ℚ) (x / 2 ^ lastPlace x)
    linarith
  have hint : |roundEven (x / 2 ^ lastPlace x)| < 2 ^ 53 + 1 := by exact_mod_cast htri
  omega

theorem isDouble_nearestDouble (x : ℚ) : IsDouble (nearestDouble x) :=
  ⟨roundEven (x / 2 ^ lastPlace x), lastPlace x, abs_roundEven_le x, le_lastPlace x, rfl⟩

/-- **No double is nearer.** -/
theorem nearestDouble_nearest (x : ℚ) {w : ℚ} (hw : IsDouble w) :
    |nearestDouble x - x| ≤ |w - x| := by
  obtain ⟨m, e, hm, he, rfl⟩ := hw
  rcases le_or_gt (lastPlace x) e with hle | hlt
  · -- `w` has no bit below the last place.
    have hmultiple : (m : ℚ) * 2 ^ e =
        ((m * 2 ^ (e - lastPlace x).toNat : ℤ) : ℚ) * 2 ^ lastPlace x := by
      push_cast
      rw [mul_assoc, ← zpow_natCast, ← zpow_add₀ two_ne_zero]
      congr 2
      omega
    rw [hmultiple]
    exact nearestDouble_nearest_multiple x _
  · -- `w` is at most the power of two that `x` begins with, which is on the way to `x`.
    rcases eq_or_ne x 0 with rfl | hx
    · rw [nearestDouble_zero, sub_zero, abs_zero]
      exact abs_nonneg _
    have hbelow : 2 ^ 52 * 2 ^ lastPlace x ≤ |x| := lastPlace_le_abs hx (by omega)
    have hsmall : |(m : ℚ) * 2 ^ e| ≤ 2 ^ 52 * 2 ^ lastPlace x := by
      have hm' : |(m : ℚ)| ≤ 2 ^ 53 := by exact_mod_cast hm
      calc |(m : ℚ) * 2 ^ e| = |(m : ℚ)| * 2 ^ e := by rw [abs_mul, abs_of_pos (two_zpow_pos e)]
        _ ≤ 2 ^ 53 * 2 ^ (lastPlace x - 1) :=
          mul_le_mul hm' (zpow_le_zpow_right₀ one_le_two (by omega)) (two_zpow_pos e).le
            (by positivity)
        _ = 2 ^ 52 * 2 ^ lastPlace x := by rw [zpow_sub_one₀ two_ne_zero]; ring
    have hpower : ∃ k : ℤ,
        |(k : ℚ) * 2 ^ lastPlace x - x| = |x| - 2 ^ 52 * 2 ^ lastPlace x := by
      rcases abs_cases x with ⟨habs, -⟩ | ⟨habs, -⟩
      · refine ⟨2 ^ 52, ?_⟩
        rw [abs_of_nonpos (by push_cast; linarith), habs]
        push_cast
        ring
      · refine ⟨-2 ^ 52, ?_⟩
        rw [abs_of_nonneg (by push_cast; linarith), habs]
        push_cast
        ring
    obtain ⟨k, hk⟩ := hpower
    calc |nearestDouble x - x|
        ≤ |(k : ℚ) * 2 ^ lastPlace x - x| := nearestDouble_nearest_multiple x k
      _ = |x| - 2 ^ 52 * 2 ^ lastPlace x := hk
      _ ≤ |x| - |(m : ℚ) * 2 ^ e| := by linarith
      _ ≤ |(m : ℚ) * 2 ^ e - x| := by
        rw [abs_sub_comm]
        exact abs_sub_abs_le_abs_sub _ _

theorem nearestDouble_eq_self {v : ℚ} (hv : IsDouble v) : nearestDouble v = v := by
  have h := nearestDouble_nearest v hv
  rw [sub_self, abs_zero] at h
  exact sub_eq_zero.1 (abs_nonpos_iff.1 h)

/-- Rounding does not go past a double. -/
theorem le_nearestDouble {w x : ℚ} (hw : IsDouble w) (h : w ≤ x) : w ≤ nearestDouble x := by
  have hnear := nearestDouble_nearest x hw
  rw [abs_sub_comm w, abs_of_nonneg (sub_nonneg.2 h)] at hnear
  have := neg_le_of_abs_le hnear
  linarith

theorem nearestDouble_le {w x : ℚ} (hw : IsDouble w) (h : x ≤ w) : nearestDouble x ≤ w := by
  have hnear := nearestDouble_nearest x hw
  rw [abs_of_nonneg (sub_nonneg.2 h)] at hnear
  have := le_of_abs_le hnear
  linarith

theorem isDouble_intCast {n : ℤ} (h : |n| ≤ 2 ^ 53) : IsDouble n :=
  ⟨n, 0, h, by decide, by rw [zpow_zero, mul_one]⟩

theorem isDouble_zpow {e : ℤ} (he : -1074 ≤ e) : IsDouble (2 ^ e) :=
  ⟨1, e, by decide, he, by rw [Int.cast_one, one_mul]⟩

theorem IsDouble.neg {v : ℚ} (h : IsDouble v) : IsDouble (-v) := by
  obtain ⟨m, e, hm, he, rfl⟩ := h
  exact ⟨-m, e, by rwa [abs_neg], he, by rw [Int.cast_neg, neg_mul]⟩

theorem abs_nearestDouble_le {w x : ℚ} (hw : IsDouble w) (h : |x| ≤ w) : |nearestDouble x| ≤ w :=
  abs_le.2 ⟨le_nearestDouble hw.neg (abs_le.1 h).1, nearestDouble_le hw (abs_le.1 h).2⟩

/-- The error is below one part in `2 ^ 53`, unless the number is so small that its last place is
the least there is. -/
theorem abs_nearestDouble_sub_lt {x : ℚ} (hx : x ≠ 0) (h : -1074 < lastPlace x) :
    |nearestDouble x - x| < |x| / 2 ^ 53 := by
  have herror := abs_nearestDouble_sub_le x
  have hbelow := lastPlace_le_abs hx h
  rcases hbelow.lt_or_eq with hlt | heq
  · linarith
  · -- A power of two is a double itself.
    have hpower : IsDouble x := by
      rcases abs_cases x with ⟨habs, -⟩ | ⟨habs, -⟩
      · exact ⟨2 ^ 52, lastPlace x, by decide, le_lastPlace x, by push_cast; linarith⟩
      · exact ⟨-2 ^ 52, lastPlace x, by decide, le_lastPlace x, by push_cast; linarith⟩
    rw [nearestDouble_eq_self hpower, sub_self, abs_zero]
    have := abs_pos.2 hx
    positivity

/-- The error is less than the distance of two decimal fractions with the same number of places. -/
theorem abs_nearestDouble_sub_lt_ten {n : ℤ} {k : ℕ} (hn : |n| ≤ 2 ^ 53) (hk : k ≤ 323) :
    |nearestDouble (n / 10 ^ k) - n / 10 ^ k| < 1 / 10 ^ k := by
  have hten : (0 : ℚ) < 10 ^ k := by positivity
  rcases eq_or_ne n 0 with rfl | hne
  · rw [Int.cast_zero, zero_div, nearestDouble_zero, sub_zero, abs_zero]
    positivity
  have hx : (n : ℚ) / 10 ^ k ≠ 0 := div_ne_zero (by exact_mod_cast hne) hten.ne'
  rcases (le_lastPlace ((n : ℚ) / 10 ^ k)).lt_or_eq with hlast | hlast
  · have hbits : |(n : ℚ)| ≤ 2 ^ 53 := by exact_mod_cast hn
    calc |nearestDouble (n / 10 ^ k) - n / 10 ^ k|
        < |(n : ℚ) / 10 ^ k| / 2 ^ 53 := abs_nearestDouble_sub_lt hx hlast
      _ = |(n : ℚ)| / 2 ^ 53 / 10 ^ k := by rw [abs_div, abs_of_pos hten, div_right_comm]
      _ ≤ 1 / 10 ^ k :=
        div_le_div_of_nonneg_right ((div_le_one (by positivity)).2 hbits) hten.le
  · have hpower : (10 : ℚ) ^ k < 2 ^ (1075 : ℤ) := calc
      (10 : ℚ) ^ k ≤ 10 ^ 323 := pow_le_pow_right₀ (by norm_num) hk
      _ < 2 ^ (1075 : ℤ) := by exact_mod_cast (show 10 ^ 323 < 2 ^ 1075 by decide +kernel)
    calc |nearestDouble (n / 10 ^ k) - n / 10 ^ k|
        ≤ 2 ^ lastPlace (n / 10 ^ k) / 2 := abs_nearestDouble_sub_le _
      _ = 1 / 2 ^ (1075 : ℤ) := by
        rw [← hlast, div_eq_mul_inv, ← zpow_sub_one₀ two_ne_zero, one_div, ← zpow_neg]
        rfl
      _ < 1 / 10 ^ k := one_div_lt_one_div_of_lt hten hpower

/-- Rounding leaves a number of at most `2 ^ 53` between the whole numbers around it. -/
theorem floor_le_nearestDouble {x : ℚ} (h : |x| ≤ 2 ^ 53) : ⌊x⌋ ≤ nearestDouble x := by
  obtain ⟨hlow, hhigh⟩ := abs_le.1 h
  have hfloor : (-2 ^ 53 : ℤ) ≤ ⌊x⌋ := Int.le_floor.2 (by push_cast; linarith)
  have hfloor' : ⌊x⌋ ≤ 2 ^ 53 := by
    have : (⌊x⌋ : ℚ) ≤ 2 ^ 53 := (Int.floor_le x).trans hhigh
    exact_mod_cast this
  exact le_nearestDouble (isDouble_intCast (abs_le.2 ⟨hfloor, hfloor'⟩)) (Int.floor_le x)

/-- **A short decimal fraction keeps its floor.** -/
theorem floor_nearestDouble {n : ℤ} {k : ℕ} (hn : |n| ≤ 2 ^ 53) (hk : k ≤ 323) :
    ⌊nearestDouble (n / 10 ^ k)⌋ = ⌊(n : ℚ) / 10 ^ k⌋ := by
  have hten : (0 : ℚ) < 10 ^ k := by positivity
  have hsmall : |(n : ℚ) / 10 ^ k| ≤ 2 ^ 53 := by
    have hbits : |(n : ℚ)| ≤ 2 ^ 53 := by exact_mod_cast hn
    rw [abs_div, abs_of_pos hten, div_le_iff₀ hten]
    exact hbits.trans (le_mul_of_one_le_right (by positivity) (one_le_pow₀ (by norm_num)))
  have herror := (abs_lt.1 (abs_nearestDouble_sub_lt_ten hn hk)).2
  have hnext : ((n : ℚ) + 1) / 10 ^ k ≤ ⌊(n : ℚ) / 10 ^ k⌋ + 1 := by
    have hlt := Int.lt_floor_add_one ((n : ℚ) / 10 ^ k)
    rw [div_lt_iff₀ hten] at hlt
    have hint : n < (⌊(n : ℚ) / 10 ^ k⌋ + 1) * 10 ^ k := by exact_mod_cast hlt
    rw [div_le_iff₀ hten]
    exact_mod_cast Int.add_one_le_of_lt hint
  rw [add_div] at hnext
  exact Int.floor_eq_iff.2 ⟨floor_le_nearestDouble hsmall, by linarith⟩

/-- What a double makes of a number: the nearest double, as long as it is finite. -/
def toDouble? (x : ℚ) : Option ℚ :=
  if |nearestDouble x| < 2 ^ 1024 then some (nearestDouble x) else none

theorem toDouble?_zero : toDouble? 0 = some 0 := by
  rw [toDouble?, nearestDouble_zero, abs_zero, if_pos (by positivity)]

theorem toDouble?_neg (x : ℚ) : toDouble? (-x) = (toDouble? x).map fun v ↦ -v := by
  rw [toDouble?, toDouble?, nearestDouble_neg, abs_neg]
  split <;> rfl

theorem toDouble?_eq_self {v : ℚ} (hv : IsDouble v) (h : |v| < 2 ^ 1024) :
    toDouble? v = some v := by
  rw [toDouble?, nearestDouble_eq_self hv, if_pos h]

/-- Less than half of the least double becomes zero. -/
theorem toDouble?_eq_zero {x : ℚ} (h : |x| < 2 ^ (-1075 : ℤ)) : toDouble? x = some 0 := by
  have hnear := nearestDouble_nearest x (w := 0) ⟨0, 0, by decide, by decide, (zero_mul _).symm⟩
  rw [zero_sub, abs_neg] at hnear
  have htri := abs_sub_abs_le_abs_sub (nearestDouble x) x
  have hunit : (2 : ℚ) ^ (-1074 : ℤ) ≤ 2 ^ lastPlace x :=
    zpow_le_zpow_right₀ one_le_two (le_lastPlace x)
  have htwice : (2 : ℚ) ^ (-1074 : ℤ) = 2 ^ (-1075 : ℤ) * 2 := zpow_add_one₀ two_ne_zero (-1075)
  have hsmall : |(roundEven (x / 2 ^ lastPlace x) : ℚ)| * 2 ^ lastPlace x <
      1 * 2 ^ lastPlace x := by
    rw [← abs_of_pos (two_zpow_pos (lastPlace x)), ← abs_mul, abs_of_pos (two_zpow_pos _)]
    show |nearestDouble x| < _
    linarith
  have hzero : |roundEven (x / 2 ^ lastPlace x)| < 1 := by
    exact_mod_cast lt_of_mul_lt_mul_right hsmall (two_zpow_pos _).le
  have hresult : nearestDouble x = 0 := by
    rw [nearestDouble, Int.abs_lt_one_iff.1 hzero, Int.cast_zero, zero_mul]
  rw [toDouble?, hresult, abs_zero, if_pos (by positivity)]

/-- Beyond the largest double there is none. -/
theorem toDouble?_eq_none {x : ℚ} (h : 2 ^ (1024 : ℤ) ≤ |x|) : toDouble? x = none := by
  have hpower : IsDouble (2 ^ (1024 : ℤ)) := isDouble_zpow (by decide)
  have hlarge : (2 : ℚ) ^ (1024 : ℤ) ≤ |nearestDouble x| := by
    rcases abs_cases x with ⟨habs, -⟩ | ⟨habs, -⟩
    · exact (le_nearestDouble hpower (habs ▸ h)).trans (le_abs_self _)
    · have hneg : (2 : ℚ) ^ (1024 : ℤ) ≤ -nearestDouble x := by
        rw [← nearestDouble_neg]
        exact le_nearestDouble hpower (habs ▸ h)
      exact hneg.trans (neg_le_abs _)
  rw [toDouble?, if_neg (not_lt.2 (by exact_mod_cast hlarge))]

end LiveTemplate.Decimal
