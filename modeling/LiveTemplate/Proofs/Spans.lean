import LiveTemplate.Proofs.Integers
import LiveTemplate.Proofs.Places

/-!
# Spans of time as they are shown

A number of nanoseconds is shown in the largest unit that it fills, rounded to a thousandth of that
unit, and without zeros at the end (`Shows`). The unit is chosen before the number is rounded. So a
span that falls short of a second by no more than half a microsecond (`Carried`) is shown as a
thousand milliseconds. No other span is shown as a thousand of a unit while there is a larger one
(`shown_in_largest_unit`).

Two roundings to a double come before the last one: that of the nanoseconds, which matters only
beyond `2 ^ 53`, and that of the quotient. Below a second they decide nothing, except for a quotient
halfway between two thousandths; that of the least span that is carried is rounded upward.
-/

namespace LiveTemplate

namespace Decimal

/-! ### Rounding twice -/

/-- The double nearest to a number of at least one is off by less than one part in `2 ^ 53`. -/
theorem abs_nearestDouble_sub_lt_of_one_le {x : ℚ} (h : 1 ≤ x) :
    |nearestDouble x - x| < x / 2 ^ 53 := by
  have hpos : 0 < x := zero_lt_one.trans_le h
  have hlog : 0 ≤ Int.log 2 |x| := by
    rw [← Int.zpow_le_iff_le_log one_lt_two (abs_pos.2 hpos.ne'), zpow_zero, abs_of_pos hpos]
    exact h
  have herror := abs_nearestDouble_sub_lt hpos.ne' (by unfold lastPlace; omega)
  rwa [abs_of_pos hpos] at herror

theorem one_le_nearestDouble {x : ℚ} (h : 1 ≤ x) : 1 ≤ nearestDouble x := by
  have hone : IsDouble ((1 : ℤ) : ℚ) := isDouble_intCast (by decide)
  exact_mod_cast le_nearestDouble hone (by exact_mod_cast h)

theorem nearestDouble_natCast {n : ℕ} (h : n ≤ 2 ^ 53) : nearestDouble n = n := by
  have hn : IsDouble ((n : ℤ) : ℚ) := isDouble_intCast (by rw [Nat.abs_cast]; exact_mod_cast h)
  exact_mod_cast nearestDouble_eq_self hn

theorem value?_ofNat (n : ℕ) : value? (Float.ofNat n) = toDouble? n := by
  refine (value?_ofScientific n false 0).trans (congrArg toDouble? ?_)
  show (n : ℚ) * 10 ^ (0 : ℤ) = n
  rw [zpow_zero, mul_one]

/-- **A whole number with a sign becomes the nearest double**, too. -/
theorem value?_ofInt (n : ℤ) : value? (Float.ofInt n) = toDouble? n := by
  rcases n with n | n
  · exact value?_ofNat n
  · show value? (-Float.ofNat n.succ) = _
    rw [value?_neg, value?_ofNat, ← toDouble?_neg, Int.cast_negSucc]

end Decimal

open Decimal

/-! ### Units -/

/-- The units in which spans of time are shown. -/
def timeUnits : List TimeUnit := [⟨"ns", 1⟩, ⟨"us", 1000⟩, ⟨"ms", 1000000⟩, ⟨"s", 1000000000⟩]

/-- The span falls short of a second, by no more than half a microsecond. -/
def Carried (nanos : ℕ) : Prop := 999999500 ≤ nanos ∧ nanos < nanosPerSecond

instance (nanos : ℕ) : Decidable (Carried nanos) := inferInstanceAs (Decidable (_ ∧ _))

namespace TimeUnit

/-- The unit is the largest that a number of nanoseconds fills, or the smallest if it fills none. -/
structure Largest (unit : TimeUnit) (nanos : ℕ) : Prop where
  mem : unit ∈ timeUnits
  fills : unit.nanos ≤ nanos ∨ nanos = 0 ∧ unit.nanos = 1
  largest : ∀ u ∈ timeUnits, u.nanos ≤ nanos → u.nanos ≤ unit.nanos

theorem filledBy_largest (nanos : ℕ) : (filledBy nanos).Largest nanos := by
  unfold filledBy
  split_ifs
  all_goals
    refine ⟨by simp [timeUnits], by dsimp only; omega, ?_⟩
    simp only [timeUnits, List.mem_cons, List.not_mem_nil, or_false, forall_eq_or_imp, forall_eq]
    omega

variable (unit : TimeUnit)

/-- The double that a number of nanoseconds is divided to. -/
def quotient (nanos : ℚ) : ℚ := nearestDouble (nearestDouble nanos / unit.nanos)

theorem quotient_neg (nanos : ℚ) : unit.quotient (-nanos) = -unit.quotient nanos := by
  rw [quotient, quotient, nearestDouble_neg, neg_div, nearestDouble_neg]

/-- How many thousandths of the unit are shown. -/
def thousandths (nanos : ℕ) : ℕ := (roundEven (unit.quotient nanos * 10 ^ 3)).toNat

variable {unit} {nanos : ℕ}

theorem pos_of_mem (h : unit ∈ timeUnits) : 0 < unit.nanos ∧ unit.nanos ≤ 1000000000 := by
  simp only [timeUnits, List.mem_cons, List.not_mem_nil, or_false] at h
  rcases h with rfl | rfl | rfl | rfl <;> decide

theorem Largest.pos (h : unit.Largest nanos) : 0 < unit.nanos ∧ unit.nanos ≤ 1000000000 :=
  pos_of_mem h.mem

/-- Less than a thousand of a unit are filled, if there is a larger one. -/
theorem Largest.lt (h : unit.Largest nanos) (hunit : unit.nanos < nanosPerSecond) :
    nanos < 1000 * unit.nanos := by
  have hmem := h.mem
  have hlargest := h.largest
  simp only [timeUnits, List.mem_cons, List.not_mem_nil, or_false, forall_eq_or_imp,
    forall_eq, nanosPerSecond] at hmem hlargest hunit
  rcases hmem with rfl | rfl | rfl | rfl <;> dsimp only at * <;> omega

/-- The nearest double fills the unit as well. -/
theorem le_nearestDouble_of_le (hunit : unit.nanos ≤ 1000000000) (hle : unit.nanos ≤ nanos) :
    (unit.nanos : ℚ) ≤ nearestDouble nanos := by
  have hdouble : IsDouble ((unit.nanos : ℤ) : ℚ) := isDouble_intCast (by
    rw [Nat.abs_cast]
    exact_mod_cast hunit.trans (by decide))
  exact_mod_cast le_nearestDouble hdouble (by exact_mod_cast hle)

theorem one_le_quotient (hpos : 0 < unit.nanos) (hunit : unit.nanos ≤ 1000000000)
    (hle : unit.nanos ≤ nanos) : 1 ≤ unit.quotient nanos := by
  have hpos' : (0 : ℚ) < unit.nanos := by exact_mod_cast hpos
  exact one_le_nearestDouble ((one_le_div hpos').2 (le_nearestDouble_of_le hunit hle))

/-- Two roundings are not far off. -/
theorem abs_quotient_sub_lt (hpos : 0 < unit.nanos) (hunit : unit.nanos ≤ 1000000000)
    (hle : unit.nanos ≤ nanos) :
    |unit.quotient nanos - nanos / unit.nanos| < nanos / unit.nanos / 2 ^ 51 := by
  have hpos' : (0 : ℚ) < unit.nanos := by exact_mod_cast hpos
  have hone : (1 : ℚ) ≤ nanos := by exact_mod_cast hpos.trans_le hle
  have hlow := le_nearestDouble_of_le hunit hle
  have hfirst : |nearestDouble nanos / unit.nanos - nanos / unit.nanos| <
      nanos / unit.nanos / 2 ^ 53 := by
    rw [← sub_div, abs_div, abs_of_pos hpos', div_right_comm]
    exact div_lt_div_of_pos_right (abs_nearestDouble_sub_lt_of_one_le hone) hpos'
  have hsecond := abs_nearestDouble_sub_lt_of_one_le ((one_le_div hpos').2 hlow)
  rw [quotient]
  rw [abs_lt] at hfirst hsecond ⊢
  constructor <;> linarith

theorem value?_quotient (hunit : unit ∈ timeUnits) {n : ℤ} (hn : |(n : ℚ)| ≤ 2 ^ (64 : ℤ)) :
    value? (Float.ofInt n / Float.ofNat unit.nanos) = some (unit.quotient n) := by
  obtain ⟨hpos, hle⟩ := pos_of_mem hunit
  have hone : (1 : ℚ) ≤ unit.nanos := by exact_mod_cast hpos
  have hsize : |(unit.nanos : ℚ)| ≤ 2 ^ (64 : ℤ) := by
    rw [Nat.abs_cast]
    exact_mod_cast hle.trans (by decide)
  have hnearest : |nearestDouble n| ≤ 2 ^ (64 : ℤ) :=
    abs_nearestDouble_le (isDouble_zpow (by decide)) hn
  have hnum := (value?_ofInt n).trans (toDouble?_of_abs_le hn)
  have hden := (value?_ofNat unit.nanos).trans (toDouble?_of_abs_le hsize)
  rw [nearestDouble_natCast (hle.trans (by decide))] at hden
  rw [value?_div hnum hden (by linarith)]
  refine toDouble?_of_abs_le ?_
  rw [abs_div, Nat.abs_cast]
  exact (div_le_self (abs_nonneg _) hone).trans hnearest

theorem natCast_thousandths (hq : 0 ≤ unit.quotient nanos) :
    (unit.thousandths nanos : ℤ) = roundEven (unit.quotient nanos * 10 ^ 3) := by
  have hnonneg : 0 ≤ roundEven (unit.quotient nanos * 10 ^ 3) :=
    le_roundEven (by push_cast; positivity)
  exact Int.toNat_of_nonneg hnonneg

theorem thousandths_zero : unit.thousandths 0 = 0 := by
  rw [thousandths, quotient, Nat.cast_zero, nearestDouble_zero, zero_div, nearestDouble_zero,
    zero_mul, ← Int.cast_zero, roundEven_intCast]
  rfl

/-- **What is shown is near to what is divided.** -/
theorem Largest.abs_thousandths_sub_le (h : unit.Largest nanos) :
    |(unit.thousandths nanos : ℚ) - 1000 * (nanos / unit.nanos)| ≤
      1 / 2 + 1000 * (nanos / unit.nanos / 2 ^ 51) := by
  obtain ⟨hpos, hle⟩ := h.pos
  rcases h.fills with hfills | ⟨rfl, -⟩
  · have herror := abs_quotient_sub_lt hpos hle hfills
    have hround := abs_roundEven_sub_le (unit.quotient nanos * 10 ^ 3)
    have hcast : ((unit.thousandths nanos : ℤ) : ℚ) =
        roundEven (unit.quotient nanos * 10 ^ 3) :=
      congrArg _ (natCast_thousandths (zero_le_one.trans (one_le_quotient hpos hle hfills)))
    rw [Int.cast_natCast] at hcast
    rw [hcast]
    rw [abs_le] at hround ⊢
    rw [abs_lt] at herror
    constructor <;> linarith
  · rw [thousandths_zero]
    norm_num

/-- **In all units but the largest the nearest thousandth is shown.** -/
theorem Largest.thousandths_nearest (h : unit.Largest nanos) (hunit : unit.nanos < nanosPerSecond)
    {k : ℕ} (hk : unit.nanos * k = 1000000) :
    1000 * unit.thousandths nanos ≤ nanos * k + 500 ∧
      nanos * k ≤ 1000 * unit.thousandths nanos + 500 := by
  have hpos : (0 : ℚ) < unit.nanos := by exact_mod_cast h.pos.1
  have hk' : (unit.nanos : ℚ) * k = 1000000 := by exact_mod_cast hk
  have hsmall : (nanos : ℚ) / unit.nanos < 1000 := by
    rw [div_lt_iff₀ hpos]
    exact_mod_cast h.lt hunit
  have hscale : 1000 * ((nanos : ℚ) / unit.nanos) = nanos * k / 1000 := by
    rw [← mul_div_assoc, div_eq_div_iff hpos.ne' (by norm_num), mul_assoc (nanos : ℚ),
      mul_comm (k : ℚ), hk']
    ring
  have hnear := h.abs_thousandths_sub_le
  rw [hscale, abs_le] at hnear
  have hhigh : (1000 * unit.thousandths nanos : ℚ) < nanos * k + 501 := by linarith
  have hlow : (nanos * k : ℚ) < 1000 * unit.thousandths nanos + 501 := by linarith
  exact ⟨Nat.le_of_lt_succ (by exact_mod_cast hhigh), Nat.le_of_lt_succ (by exact_mod_cast hlow)⟩

/-- The double that lies nearest to the midpoint of the last two thousandths is above it. -/
theorem lt_quotient_midpoint :
    9999995 / 10000 < (⟨"ms", 1000000⟩ : TimeUnit).quotient 999999500 := by
  have hread : Reading.ofFloat (Float.ofInt 999999500 / Float.ofNat 1000000) =
      .finite false ⟨8796088624161489, -43, false⟩ := by decide +kernel
  have hvalue := @value?_quotient ⟨"ms", 1000000⟩ (by simp [timeUnits]) 999999500 (by norm_num)
  rw [value?, hread] at hvalue
  have hquotient := Option.some.inj hvalue
  rw [Int.cast_ofNat] at hquotient
  rw [← hquotient]
  norm_num

theorem Largest.thousandths_of_carried (h : unit.Largest nanos) (hcarried : Carried nanos) :
    unit = ⟨"ms", 1000000⟩ ∧ unit.thousandths nanos = 1000000 := by
  obtain ⟨hlow, hhigh⟩ := hcarried
  obtain rfl : unit = ⟨"ms", 1000000⟩ := by
    have hmem := h.mem
    have hfills := h.fills
    have hlargest := h.largest
    simp only [timeUnits, List.mem_cons, List.not_mem_nil, or_false, forall_eq_or_imp,
      forall_eq, nanosPerSecond] at hmem hlargest hhigh
    rcases hmem with rfl | rfl | rfl | rfl
    case inr.inr.inl => rfl
    all_goals
      dsimp only at hfills hlargest
      omega
  have hnear := h.thousandths_nearest (by decide) (k := 1) rfl
  refine ⟨rfl, ?_⟩
  rw [nanosPerSecond] at hhigh
  rcases hlow.eq_or_lt with rfl | hlt
  · -- The span is halfway between two thousandths, and only its double is not.
    have hmidpoint := lt_quotient_midpoint
    have hround := abs_roundEven_sub_le
      ((⟨"ms", 1000000⟩ : TimeUnit).quotient (999999500 : ℕ) * 10 ^ 3)
    rw [← natCast_thousandths (by push_cast; linarith), Int.cast_natCast, abs_le] at hround
    have hlast : (999999 : ℚ) < (⟨"ms", 1000000⟩ : TimeUnit).thousandths 999999500 := by
      push_cast at hround
      linarith
    have hlast' : 999999 < (⟨"ms", 1000000⟩ : TimeUnit).thousandths 999999500 := by
      exact_mod_cast hlast
    omega
  · omega

theorem Largest.thousandths_lt (h : unit.Largest nanos) (hunit : unit.nanos < nanosPerSecond)
    (hcarried : ¬Carried nanos) : unit.thousandths nanos < 1000000 := by
  have hlt := h.lt hunit
  have hmem := h.mem
  simp only [timeUnits, List.mem_cons, List.not_mem_nil, or_false] at hmem
  rcases hmem with rfl | rfl | rfl | rfl
  · have := h.thousandths_nearest hunit (k := 1000000) rfl
    dsimp only at *; omega
  · have := h.thousandths_nearest hunit (k := 1000) rfl
    dsimp only at *; omega
  · have := h.thousandths_nearest hunit (k := 1) rfl
    rw [Carried, nanosPerSecond] at hcarried
    dsimp only at *; omega
  · exact absurd hunit (by decide)

theorem Largest.exists_mul (h : unit.Largest nanos) (hunit : unit.nanos < nanosPerSecond) :
    ∃ k, unit.nanos * k = 1000000 := by
  have hmem := h.mem
  simp only [timeUnits, List.mem_cons, List.not_mem_nil, or_false] at hmem
  rcases hmem with rfl | rfl | rfl | rfl
  · exact ⟨1000000, rfl⟩
  · exact ⟨1000, rfl⟩
  · exact ⟨1, rfl⟩
  · exact absurd hunit (by decide)

/-- In every unit what is shown is less than a thousandth off. -/
theorem Largest.abs_div_sub_lt (h : unit.Largest nanos) (hnanos : nanos ≤ 2 ^ 63) :
    |(unit.thousandths nanos / 10 ^ 3 : ℚ) - nanos / unit.nanos| < 1 / 1000 := by
  have hpos : (0 : ℚ) < unit.nanos := by exact_mod_cast h.pos.1
  have hsize : (nanos : ℚ) / unit.nanos < 2 ^ 40 := by
    rw [div_lt_iff₀ hpos]
    by_cases hunit : unit.nanos < nanosPerSecond
    · have hlt : (nanos : ℚ) < 1000 * unit.nanos := by exact_mod_cast h.lt hunit
      linarith
    · have hle : (1000000000 : ℚ) ≤ unit.nanos := by exact_mod_cast not_lt.1 hunit
      have hnanos' : (nanos : ℚ) ≤ 2 ^ 63 := by exact_mod_cast hnanos
      linarith
  have hnear := h.abs_thousandths_sub_le
  rw [abs_le] at hnear
  rw [abs_lt]
  constructor <;> linarith

/-- In all units but the largest it is at most half a thousandth off. -/
theorem Largest.abs_div_sub_le (h : unit.Largest nanos) (hunit : unit.nanos < nanosPerSecond) :
    |(unit.thousandths nanos / 10 ^ 3 : ℚ) - nanos / unit.nanos| ≤ 1 / 2000 := by
  obtain ⟨k, hk⟩ := h.exists_mul hunit
  have hpos : (0 : ℚ) < unit.nanos := by exact_mod_cast h.pos.1
  have hk' : (unit.nanos : ℚ) * k = 1000000 := by exact_mod_cast hk
  have hscale : (nanos : ℚ) / unit.nanos = nanos * k / 1000000 := by
    rw [div_eq_div_iff hpos.ne' (by norm_num), mul_assoc, mul_comm (k : ℚ), hk']
  obtain ⟨hhigh, hlow⟩ := h.thousandths_nearest hunit hk
  have hhigh' : (1000 * unit.thousandths nanos : ℚ) ≤ nanos * k + 500 := by exact_mod_cast hhigh
  have hlow' : (nanos * k : ℚ) ≤ 1000 * unit.thousandths nanos + 500 := by exact_mod_cast hlow
  rw [hscale, abs_le]
  constructor <;> linarith

/-- **The quotient is written with three places.** -/
theorem Largest.fixed_eq {n : ℤ} (h : unit.Largest n.natAbs) (hn : n.natAbs ≤ 2 ^ 63) :
    Decimal.fixed 3 (Float.ofInt n / Float.ofNat unit.nanos) = String.ofList
      (Figures.ofUnits (.ofSign (decide (n < 0))) 3 (unit.thousandths n.natAbs)).chars := by
  have habs : |(n : ℚ)| = n.natAbs := by rw [Nat.cast_natAbs, Int.cast_abs]
  have hsize : |(n : ℚ)| ≤ 2 ^ (64 : ℤ) := by
    rw [habs]
    exact_mod_cast hn.trans (by decide)
  rcases h.fills with hfills | ⟨hzero, hone⟩
  · have hquotient := one_le_quotient h.pos.1 h.pos.2 hfills
    have hvalue := value?_quotient h.mem hsize
    have hsign : (unit.quotient n < 0 ↔ n < 0) ∧ |unit.quotient n| = unit.quotient n.natAbs := by
      rcases le_or_gt 0 n with hle | hlt
      · have hcast : (n : ℚ) = n.natAbs := by rw [← habs, abs_of_nonneg (by exact_mod_cast hle)]
        rw [hcast]
        exact ⟨⟨fun h ↦ by linarith, fun h ↦ by omega⟩, abs_of_pos (by linarith)⟩
      · have hcast : (n : ℚ) = -n.natAbs := by
          rw [← habs, abs_of_neg (by exact_mod_cast hlt), neg_neg]
        rw [hcast, quotient_neg, abs_neg]
        exact ⟨⟨fun _ ↦ hlt, fun _ ↦ by linarith⟩, abs_of_pos (by linarith)⟩
    have hne : unit.quotient n ≠ 0 := fun hzero ↦ by
      rw [hzero, abs_zero] at hsign
      linarith [hsign.2]
    have hfixed := Decimal.fixed_eq 3 hvalue hne
    rw [hsign.2, decide_eq_decide.2 hsign.1] at hfixed
    rw [← String.toList_inj, hfixed, String.toList_ofList]
    rfl
  · obtain rfl : n = 0 := Int.natAbs_eq_zero.1 hzero
    rw [hone, Int.natAbs_zero, thousandths_zero]
    decide +kernel

end TimeUnit

/-! ### Spans -/

/-- A span is shown as a number of a unit. -/
structure Shows (nanos : Int64) (a : Figures) (unit : TimeUnit) : Prop where
  text : (showDuration nanos).toList = a.chars ++ unit.sign.toList
  largest : unit.Largest nanos.toInt.natAbs
  /-- There is a minus sign if the span is negative, and otherwise no sign. -/
  lead : a.lead = .ofSign (decide (nanos.toInt < 0))
  part : ∀ part ∈ a.part, part ≠ [] ∧ part.length ≤ 3 ∧ part.getLast? ≠ some '0'
  near : |a.value - nanos.toInt / unit.nanos| < 1 / 1000
  nearest : unit.nanos < nanosPerSecond → |a.value - nanos.toInt / unit.nanos| ≤ 1 / 2000

theorem natAbs_toInt_le (n : Int64) : n.toInt.natAbs ≤ 2 ^ 63 := by
  have hlow := n.le_toInt
  have hhigh := n.toInt_lt
  omega

/-- The sign does not change how far off a number is. -/
theorem abs_ofSign_apply_sub (n : ℤ) (v : ℚ) (u : ℕ) :
    |(Lead.ofSign (decide (n < 0))).apply v - n / u| = |v - n.natAbs / u| := by
  have habs : |(n : ℚ)| = n.natAbs := by rw [Nat.cast_natAbs, Int.cast_abs]
  rw [← habs]
  rcases le_or_gt 0 n with hle | hlt
  · rw [decide_eq_false (not_lt.2 hle), abs_of_nonneg (show (0 : ℚ) ≤ n by exact_mod_cast hle)]
    rfl
  · rw [decide_eq_true hlt, abs_of_neg (show (n : ℚ) < 0 by exact_mod_cast hlt), neg_div,
      sub_neg_eq_add]
    show |-v - n / u| = |v + n / u|
    rw [← neg_add', abs_neg]

theorem showDuration_eq (nanos : Int64) : showDuration nanos =
    trimFraction (String.ofList (Figures.ofUnits (.ofSign (decide (nanos.toInt < 0))) 3
      ((TimeUnit.filledBy nanos.toInt.natAbs).thousandths nanos.toInt.natAbs)).chars) ++
        (TimeUnit.filledBy nanos.toInt.natAbs).sign := by
  have hlargest := TimeUnit.filledBy_largest nanos.toInt.natAbs
  rw [showDuration, hlargest.fixed_eq (natAbs_toInt_le nanos)]

theorem exists_shows (nanos : Int64) : ∃ a : Figures,
    Shows nanos a (.filledBy nanos.toInt.natAbs) ∧ |a.value| =
      (TimeUnit.filledBy nanos.toInt.natAbs).thousandths nanos.toInt.natAbs / 10 ^ 3 := by
  have htext := showDuration_eq nanos
  have hlargest := TimeUnit.filledBy_largest nanos.toInt.natAbs
  generalize TimeUnit.filledBy nanos.toInt.natAbs = unit at htext hlargest
  obtain ⟨a, htrims, htrimmed⟩ := (Figures.ofUnits (.ofSign (decide (nanos.toInt < 0))) 3
    (unit.thousandths nanos.toInt.natAbs)).exists_trims rfl Nat.toDigits_ne_nil
  have hvalue := htrims.value
  rw [Figures.value_ofUnits _ (by decide)] at hvalue
  have hoff := abs_ofSign_apply_sub nanos.toInt
    (unit.thousandths nanos.toInt.natAbs / 10 ^ 3) unit.nanos
  rw [← hvalue] at hoff
  refine ⟨a, ⟨?_, hlargest, htrims.lead, ?_, ?_, fun hlt ↦ ?_⟩, ?_⟩
  · rw [htext, htrimmed, String.toList_append, String.toList_ofList]
  · have hpart := htrims.part
    rwa [Figures.places_ofUnits _ (by decide)] at hpart
  · rw [hoff]
    exact hlargest.abs_div_sub_lt (natAbs_toInt_le nanos)
  · rw [hoff]
    exact hlargest.abs_div_sub_le hlt
  · rw [hvalue, Lead.apply]
    split
    · rw [abs_neg, abs_of_nonneg (by positivity)]
    · rw [abs_of_nonneg (by positivity)]

/-- **Spans are shown in the largest unit that they fill**, with the sign that they have, with at
most three digits behind the point and without a zero at the end. If there is a larger unit, the
number is below a thousand, but for a span that the rounding carries to a second: it is shown as
a thousand milliseconds. -/
theorem shown_in_largest_unit (nanos : Int64) : ∃ (a : Figures) (unit : TimeUnit),
    Shows nanos a unit ∧
      (unit.nanos < nanosPerSecond → (|a.value| < 1000 ↔ ¬Carried nanos.toInt.natAbs)) ∧
      (Carried nanos.toInt.natAbs →
        showDuration nanos = if nanos.toInt < 0 then "-1000ms" else "1000ms") := by
  obtain ⟨a, hshows, habs⟩ := exists_shows nanos
  have hlargest := hshows.largest
  refine ⟨a, _, hshows, fun hlt ↦ ?_, fun hcarried ↦ ?_⟩
  · have hthousand : (1000 * 10 ^ 3 : ℚ) = (1000000 : ℕ) := by norm_num
    rw [habs, div_lt_iff₀ (by positivity), hthousand, Nat.cast_lt]
    refine ⟨fun h hcarried ↦ ?_, hlargest.thousandths_lt hlt⟩
    rw [(hlargest.thousandths_of_carried hcarried).2] at h
    exact lt_irrefl _ h
  · obtain ⟨hms, hthousand⟩ := hlargest.thousandths_of_carried hcarried
    rw [showDuration_eq, hthousand, hms]
    by_cases hneg : nanos.toInt < 0
    · rw [decide_eq_true hneg, if_pos hneg]
      decide
    · rw [decide_eq_false hneg, if_neg hneg]
      decide

/-- A microsecond short of a second the number is as it should be, a nanosecond short it is not. -/
example : showDuration 999999000 = "999.999ms" ∧ showDuration 999999999 = "1000ms" := by
  decide +kernel

end LiveTemplate
