import LiveTemplate.Proofs.Rounding
import Mathlib

/-!
# Rounding a mantissa

The logical model of a double rounds a number that it has as a mantissa with two more bits, of which
the last stands for all that is left of the number. `Holds` says what such a mantissa stands for,
and shifting keeps it. So the mantissa that comes out is the one of `nearestDouble`
(`roundWithAccuracy_eq`), written out in full length.
-/

open Float.Model UnpackedFloat

namespace LiveTemplate.Decimal

/-! ### Mantissas with two more bits -/

/-- An extended mantissa stands for `x`: its bits are the first ones of `x`, and the sticky bit
tells whether there is more. -/
def Holds (em : ExtendedMantissa) (x : ℚ) : Prop :=
  ∃ s : ℚ, 0 ≤ s ∧ s < 1 ∧ (em.stickyBit = true ↔ 0 < s) ∧
    2 * x = 2 * em.mantissa + em.roundBit.toNat + s

variable {em : ExtendedMantissa} {x y : ℚ} {m : ℕ} {e : ℤ} {acc : Accuracy}

theorem toNat_le_one (b : Bool) : (b.toNat : ℚ) ≤ 1 := by exact_mod_cast Bool.toNat_le b

theorem Holds.floor (h : Holds em x) : ⌊x⌋ = (em.mantissa : ℤ) := by
  obtain ⟨s, hs, hs', -, hx⟩ := h
  have hbit := toNat_le_one em.roundBit
  have hbit' : (0 : ℚ) ≤ em.roundBit.toNat := by positivity
  rw [Int.floor_eq_iff]
  push_cast
  constructor <;> linarith

theorem Holds.shiftRightOne (h : Holds em x) : Holds em.shiftRightOne (x / 2) := by
  obtain ⟨s, hs, hs', hsticky, hx⟩ := h
  have hbit := toNat_le_one em.roundBit
  have hmantissa : (em.mantissa : ℚ) = 2 * (em.mantissa / 2 : ℕ) + (em.mantissa % 2 : ℕ) := by
    exact_mod_cast (Nat.div_add_mod em.mantissa 2).symm
  have hlast : ((em.mantissa % 2 != 0).toNat : ℚ) = (em.mantissa % 2 : ℕ) := by
    rcases Nat.mod_two_eq_zero_or_one em.mantissa with h | h <;> rw [h] <;> rfl
  refine ⟨(em.roundBit.toNat + s) / 2, by positivity, by linarith, ?_, ?_⟩
  · show (em.roundBit || em.stickyBit) = true ↔ _
    rw [Bool.or_eq_true, hsticky]
    rcases em.roundBit with _ | _
    · simp
    · simp
      linarith
  · show 2 * (x / 2) = 2 * ((em.mantissa / 2 : ℕ) : ℚ) + ((em.mantissa % 2 != 0).toNat : ℚ) + _
    rw [hlast]
    linarith

theorem Holds.shiftRight (h : Holds em x) (n : ℕ) : Holds (em >>> n) (x / 2 ^ n) := by
  induction n with
  | zero =>
    rw [pow_zero, div_one]
    exact h
  | succ n ih =>
    rw [pow_succ, ← div_div]
    exact ih.shiftRightOne

theorem Holds.roundedMantissa (h : Holds em x) : (em.roundedMantissa : ℤ) = roundEven x := by
  have hfloor := h.floor
  obtain ⟨s, hs, hs', hsticky, hx⟩ := h
  have hfract : 2 * Int.fract x = em.roundBit.toNat + s := by
    rw [Int.fract, hfloor]
    push_cast
    linarith
  obtain ⟨m, round, sticky⟩ := em
  dsimp only at hfract hfloor hsticky
  unfold roundEven
  rw [hfract, hfloor]
  rcases round with _ | _
  · have hlt : compare ((false.toNat : ℚ) + s) 1 = .lt := compare_lt_iff_lt.2 (by simpa using hs')
    rw [hlt]
    rcases sticky with _ | _ <;> rfl
  · rcases sticky with _ | _
    · have hzero : s = 0 := le_antisymm (not_lt.1 fun h ↦ by simpa using hsticky.2 h) hs
      have heq : compare ((true.toNat : ℚ) + s) 1 = .eq :=
        compare_eq_iff_eq.2 (by simpa using hzero)
      rw [heq]
      rfl
    · have hrest : 0 < s := hsticky.1 rfl
      have hgt : compare ((true.toNat : ℚ) + s) 1 = .gt :=
        compare_gt_iff_gt.2 (by simpa using hrest)
      rw [hgt]
      rfl

theorem holds_exact (m : ℕ) : Holds (.ofMantissaAndAccuracy m .exact) m :=
  ⟨0, le_rfl, one_pos, by simp [ExtendedMantissa.ofMantissaAndAccuracy], by
    show (2 : ℚ) * m = 2 * m + (0 : ℕ) + 0
    simp⟩

/-- What is left of a division tells how accurate the quotient is. -/
theorem holds_div (a : ℕ) {b : ℕ} (hb : 0 < b) :
    Holds (.ofMantissaAndAccuracy (a / b) (accuracyOfFraction (a % b) b)) (a / b : ℚ) := by
  have hb' : (0 : ℚ) < b := by exact_mod_cast hb
  have hsplit : (a : ℚ) / b = (a / b : ℕ) + (a % b : ℕ) / b := by
    rw [div_eq_iff hb'.ne', add_mul, div_mul_cancel₀ _ hb'.ne']
    exact_mod_cast (Nat.div_add_mod' a b).symm
  have hlt : 2 * (((a % b : ℕ) : ℚ) / b) < 2 := by
    have := (div_lt_one hb').2 (show ((a % b : ℕ) : ℚ) < b by exact_mod_cast Nat.mod_lt a hb)
    linarith
  unfold accuracyOfFraction
  split
  · rename_i hzero
    rw [hsplit, hzero, Nat.cast_zero, zero_div, add_zero]
    exact holds_exact _
  · rename_i hne
    have hpos : 0 < ((a % b : ℕ) : ℚ) / b := by
      have : (0 : ℚ) < (a % b : ℕ) := by exact_mod_cast Nat.pos_of_ne_zero hne
      positivity
    have hscale : 2 * (((a % b : ℕ) : ℚ) / b) = ((2 * (a % b) : ℕ) : ℚ) / b := by
      push_cast
      ring
    rcases hc : compare (2 * (a % b)) b with _ | _ | _
    · have : ((2 * (a % b) : ℕ) : ℚ) < b := by exact_mod_cast Nat.compare_eq_lt.1 hc
      have hone : 2 * (((a % b : ℕ) : ℚ) / b) < 1 := by rwa [hscale, div_lt_one hb']
      refine ⟨2 * (((a % b : ℕ) : ℚ) / b), by positivity, hone,
        ⟨fun _ ↦ by positivity, fun _ ↦ rfl⟩, ?_⟩
      show _ = 2 * ((a / b : ℕ) : ℚ) + (0 : ℕ) + _
      rw [hsplit, Nat.cast_zero]
      ring
    · have : ((2 * (a % b) : ℕ) : ℚ) = b := by exact_mod_cast Nat.compare_eq_eq.1 hc
      have hone : 2 * (((a % b : ℕ) : ℚ) / b) = 1 := by rw [hscale, this, div_self hb'.ne']
      refine ⟨0, le_rfl, one_pos, ⟨nofun, fun h ↦ absurd h (lt_irrefl _)⟩, ?_⟩
      show _ = 2 * ((a / b : ℕ) : ℚ) + (1 : ℕ) + _
      rw [hsplit, Nat.cast_one]
      linarith
    · have : (b : ℚ) < ((2 * (a % b) : ℕ) : ℚ) := by exact_mod_cast Nat.compare_eq_gt.1 hc
      have hone : 1 < 2 * (((a % b : ℕ) : ℚ) / b) := by rwa [hscale, one_lt_div hb']
      refine ⟨2 * (((a % b : ℕ) : ℚ) / b) - 1, by linarith, by linarith,
        ⟨fun _ ↦ by linarith, fun _ ↦ rfl⟩, ?_⟩
      show _ = 2 * ((a / b : ℕ) : ℚ) + (1 : ℕ) + _
      rw [hsplit, Nat.cast_one]
      ring

/-! ### The last place -/

theorem targetExponent_eq (t : ℤ) : Format.binary64.targetExponent t = max (t - 53) (-1074) := rfl

/-- Where the first bit of a number is, from its whole part in some unit. -/
theorem log_eq (hm : ⌊y⌋ = (m : ℤ)) (hpos : 0 < m) : Int.log 2 |y * 2 ^ e| = m.log2 + e := by
  have hlow : (m : ℚ) ≤ y := by
    have := Int.floor_le y
    rwa [hm] at this
  have hhigh : y < m + 1 := by
    have := Int.lt_floor_add_one y
    rwa [hm] at this
  have hself : (2 : ℚ) ^ m.log2 ≤ m := by exact_mod_cast Nat.log2_self_le hpos.ne'
  have hsucc : (m : ℚ) + 1 ≤ (2 : ℚ) ^ (m.log2 + 1) := by exact_mod_cast Nat.lt_log2_self
  have hy : 0 < y := (show (0 : ℚ) < m by exact_mod_cast hpos).trans_le hlow
  have hxpos : 0 < y * 2 ^ e := mul_pos hy (two_zpow_pos e)
  rw [abs_of_pos hxpos]
  refine le_antisymm (Int.lt_add_one_iff.1 ?_) ?_
  · rw [← Int.lt_zpow_iff_log_lt one_lt_two hxpos]
    calc y * 2 ^ e < (2 : ℚ) ^ (m.log2 + 1) * 2 ^ e :=
          mul_lt_mul_of_pos_right (hhigh.trans_le hsucc) (two_zpow_pos e)
      _ = ((2 : ℕ) : ℚ) ^ ((m.log2 : ℤ) + e + 1) := by
        rw [← zpow_natCast, ← zpow_add₀ two_ne_zero]
        push_cast
        congr 1
        omega
  · rw [← Int.zpow_le_iff_le_log one_lt_two hxpos]
    calc ((2 : ℕ) : ℚ) ^ ((m.log2 : ℤ) + e) = (2 : ℚ) ^ m.log2 * 2 ^ e := by
          rw [← zpow_natCast (2 : ℚ), ← zpow_add₀ two_ne_zero]
          push_cast
          rfl
      _ ≤ y * 2 ^ e := mul_le_mul_of_nonneg_right (hself.trans hlow) (two_zpow_pos e).le

/-- The exponent that the rounding aims at is that of the last place. -/
theorem targetExponent_eq_lastPlace (hm : ⌊y⌋ = (m : ℤ)) (hy : 0 < y)
    (he : e ≤ lastPlace (y * 2 ^ e)) :
    Format.binary64.targetExponent (totalExponent m e) = lastPlace (y * 2 ^ e) := by
  rw [targetExponent_eq, totalExponent]
  rcases Nat.eq_zero_or_pos m with rfl | hpos
  · have hxpos : 0 < y * 2 ^ e := mul_pos hy (two_zpow_pos e)
    have hlt : y < 1 := by
      have := Int.lt_floor_add_one y
      rw [hm] at this
      simpa using this
    have hlog : Int.log 2 |y * 2 ^ e| < e := by
      rw [abs_of_pos hxpos, ← Int.lt_zpow_iff_log_lt one_lt_two hxpos]
      have := mul_lt_mul_of_pos_right hlt (two_zpow_pos e)
      rw [one_mul] at this
      exact_mod_cast this
    unfold lastPlace at he ⊢
    rw [Nat.log2_zero]
    omega
  · rw [lastPlace, log_eq hm hpos]
    omega

/-- A number with a sign. -/
def withSign (s : Sign) (v : ℚ) : ℚ :=
  match s with
  | .negative => -v
  | .positive => v

@[simp]
theorem abs_withSign (s : Sign) (v : ℚ) : |withSign s v| = |v| := by
  rcases s with _ | _
  · exact abs_neg v
  · rfl

@[simp]
theorem withSign_zero (s : Sign) : withSign s 0 = 0 := by
  rcases s with _ | _
  · exact neg_zero
  · rfl

/-- The number that an unpacked double is. -/
def number? : UnpackedFloat → Option ℚ
  | .finite s m e _ => some (withSign s (m * 2 ^ e))
  | .zero _ => some 0
  | .infinity _ => none
  | .notANumber => none

/-- The mantissa is as long as the exponent lets it be. -/
def FullLength (m : ℕ) (e : ℤ) : Prop := m < 2 ^ 53 ∧ -1074 ≤ e ∧ (2 ^ 52 ≤ m ∨ e = -1074)

/-- A finite number that is written with a mantissa of full length. -/
def Canonical : UnpackedFloat → Prop
  | .finite _ m e _ => FullLength m e
  | _ => True

/-- A mantissa that rounding has carried to `2 ^ 53` is shortened again, and nothing is lost. -/
theorem shiftToTargetExponent_exact (hm : m ≤ 2 ^ 53) (he : -1074 ≤ e)
    (hfull : 2 ^ 52 ≤ m ∨ e = -1074) :
    ∃ m' e', shiftToTargetExponent .binary64 m e .exact = (⟨m', false, false⟩, e') ∧
      FullLength m' e' ∧ (m' : ℚ) * 2 ^ e' = m * 2 ^ e := by
  rcases hm.lt_or_eq with hlt | rfl
  · have hlog : m.log2 ≤ 52 := by
      rcases Nat.eq_zero_or_pos m with rfl | hpos
      · decide
      · exact Nat.le_of_lt_succ ((Nat.log2_lt hpos.ne').2 hlt)
    have hshift : (Format.binary64.targetExponent (totalExponent m e) - e).toNat = 0 := by
      rw [targetExponent_eq, totalExponent]
      omega
    refine ⟨m, e, ?_, ⟨hlt, he, hfull⟩, rfl⟩
    rw [shiftToTargetExponent, shiftToExponent, hshift, Nat.cast_zero, add_zero]
    rfl
  · have hshift : (Format.binary64.targetExponent (totalExponent (2 ^ 53) e) - e).toNat = 1 := by
      rw [targetExponent_eq, totalExponent, Nat.log2_two_pow]
      omega
    refine ⟨2 ^ 52, e + 1, ?_, ⟨by decide, by omega, .inl le_rfl⟩, ?_⟩
    · rw [shiftToTargetExponent, shiftToExponent, hshift]
      rfl
    · rw [zpow_add_one₀ two_ne_zero]
      push_cast
      ring

theorem roundWithAccuracy_of_shifts {spec : Format} {s : Sign} {e₁ e' : ℤ} {m' : ℕ} {a b : Bool}
    (hfirst : shiftToTargetExponent spec m e acc = (em, e₁))
    (hsecond : shiftToTargetExponent spec em.roundedMantissa e₁ .exact = (⟨m', a, b⟩, e')) :
    roundWithAccuracy spec s m e acc =
      if h : m' = 0 then .zero s else .finite s m' e' (Nat.pos_of_ne_zero h) := by
  simp only [roundWithAccuracy, hfirst, hsecond]

/-- **Rounding goes to the nearest double.** -/
theorem roundWithAccuracy_eq (s : Sign) (hy : Holds (.ofMantissaAndAccuracy m acc) y) (hpos : 0 < y)
    (he : e ≤ lastPlace (y * 2 ^ e)) :
    number? (roundWithAccuracy .binary64 s m e acc) =
        some (withSign s (nearestDouble (y * 2 ^ e))) ∧
      Canonical (roundWithAccuracy .binary64 s m e acc) := by
  have hmantissa : ⌊y⌋ = (m : ℤ) := by
    rw [hy.floor]
    rcases acc with _ | ⟨_ | _ | _⟩ <;> rfl
  have htarget := targetExponent_eq_lastPlace hmantissa hpos he
  have hxpos : 0 < y * 2 ^ e := mul_pos hpos (two_zpow_pos e)
  obtain ⟨k, hk⟩ : ∃ k : ℕ, lastPlace (y * 2 ^ e) = e + k :=
    ⟨(lastPlace (y * 2 ^ e) - e).toNat, by omega⟩
  have hscaled : y / 2 ^ k = y * 2 ^ e / 2 ^ lastPlace (y * 2 ^ e) := by
    rw [hk, zpow_add₀ two_ne_zero, zpow_natCast]
    field_simp
  have hround := (hy.shiftRight k).roundedMantissa
  have hfirst : shiftToTargetExponent .binary64 m e acc =
      (ExtendedMantissa.ofMantissaAndAccuracy m acc >>> k, lastPlace (y * 2 ^ e)) := by
    rw [shiftToTargetExponent, shiftToExponent, htarget, hk, show (e + k - e).toNat = k by omega]
  rw [hscaled] at hround
  generalize ExtendedMantissa.ofMantissaAndAccuracy m acc >>> k = em at hround hfirst
  generalize y * 2 ^ e = x at hround hfirst hxpos
  have hr : em.roundedMantissa ≤ 2 ^ 53 := by
    have := abs_roundEven_le x
    rw [← hround, Nat.abs_cast] at this
    exact_mod_cast this
  have hfull : 2 ^ 52 ≤ em.roundedMantissa ∨ lastPlace x = -1074 := by
    rcases (le_lastPlace x).lt_or_eq with hlt | heq
    · have hbelow := lastPlace_le_abs hxpos.ne' hlt
      rw [abs_of_pos hxpos, ← le_div_iff₀ (two_zpow_pos _)] at hbelow
      have hbits : ((2 ^ 52 : ℕ) : ℤ) ≤ roundEven (x / 2 ^ lastPlace x) :=
        le_roundEven (by exact_mod_cast hbelow)
      rw [← hround] at hbits
      exact .inl (by exact_mod_cast hbits)
    · exact .inr heq.symm
  obtain ⟨m', e', hsecond, hlength, hvalue⟩ :=
    shiftToTargetExponent_exact hr (le_lastPlace x) hfull
  have hnearest : (m' : ℚ) * 2 ^ e' = nearestDouble x := by
    rw [hvalue, nearestDouble, ← hround]
    rfl
  rw [roundWithAccuracy_of_shifts hfirst hsecond, ← hnearest]
  split
  · rename_i hzero
    rw [hzero, Nat.cast_zero, zero_mul]
    exact ⟨(congrArg some (withSign_zero s)).symm, trivial⟩
  · exact ⟨rfl, hlength⟩

end LiveTemplate.Decimal
