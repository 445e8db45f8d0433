import LiveTemplate.Bounds
import LiveTemplate.Decimal.Numeral
import LiveTemplate.Proofs.Mantissas

/-!
# The values of doubles

Every finite double is a fraction (`value?`), read off its bits. What a program does with doubles is
then arithmetic on fractions. A product and a quotient are rounded once (`value?_mul`,
`value?_div`), and so is a numeral, on whichever of its paths it is computed (`value?_nearest`).
-/

open Float.Model UnpackedFloat

namespace LiveTemplate.Decimal

variable {m : ℕ} {e : ℤ}

/-! ### Packing -/

theorem unpackSign_packComponents {spec : Format} {s : Sign} {a : BitVec spec.exponentBits}
    {b : BitVec spec.mantissaBitsWithoutImplicit} :
    unpackSign (packComponents spec s a b) = s.toBitVec := by
  ext i hi
  have hzero : i = 0 := by omega
  simp [hzero, unpackSign, packComponents, BitVec.getLsbD_append, BitVec.getElem_append]

theorem ofBitVec_toBitVec (s : Sign) : Sign.ofBitVec s.toBitVec = s := by
  rcases s with _ | _ <;> rfl

/-- The mantissa with the bit that is not stored. -/
theorem toNat_one_append (b : BitVec 52) : (1#1 ++ b).toNat = 2 ^ 52 + b.toNat := by
  rw [BitVec.toNat_append, ← Nat.shiftLeft_add_eq_or_of_lt b.isLt]
  rfl

/-- The number that 64 bits denote, from their parts. -/
theorem number?_unpack (b : BitVec 64) :
    number? (UnpackedFloat.unpack .binary64 b) =
      if @unpackExponent .binary64 b = -1#11 then none
      else some (withSign (.ofBitVec (@unpackSign .binary64 b))
        (if @unpackExponent .binary64 b = 0#11
          then (@unpackMantissa .binary64 b).toNat * 2 ^ (-1074 : ℤ)
          else (2 ^ 52 + (@unpackMantissa .binary64 b).toNat : ℕ) *
            2 ^ (((@unpackExponent .binary64 b).toNat : ℤ) - 1075))) := by
  unfold UnpackedFloat.unpack
  dsimp only
  generalize @unpackExponent .binary64 b = a
  by_cases hlast : a = -1#11
  · rw [if_pos hlast, if_pos hlast]
    split <;> rfl
  · rw [if_neg hlast, if_neg hlast]
    by_cases hzero : a = 0#11
    · rw [if_pos hzero, if_pos hzero, hzero]
      split
      · rename_i hf
        rw [hf, BitVec.toNat_zero, Nat.cast_zero, zero_mul, withSign_zero]
        rfl
      · rfl
    · rw [if_neg hzero, if_neg hzero]
      simp only [toNat_one_append]
      rfl

theorem unpack_packComponents (s : Sign) {a : BitVec 11} (b : BitVec 52) (ha : a ≠ -1#11) :
    number? (UnpackedFloat.unpack .binary64 (packComponents .binary64 s a b)) =
      some (withSign s (if a = 0#11 then b.toNat * 2 ^ (-1074 : ℤ)
        else (2 ^ 52 + b.toNat : ℕ) * 2 ^ ((a.toNat : ℤ) - 1075))) := by
  rw [number?_unpack, unpackExponent_packComponents, unpackMantissa_packComponents,
    unpackSign_packComponents, ofBitVec_toBitVec, if_neg ha]

/-- The largest exponent of a finite double. -/
theorem FullLength.lt_iff (h : FullLength m e) : (m : ℚ) * 2 ^ e < 2 ^ 1024 ↔ e ≤ 971 := by
  obtain ⟨hhigh, hlow, hfull⟩ := h
  constructor
  · intro hlt
    by_contra hlarge
    have hbits : (2 : ℚ) ^ (52 : ℤ) ≤ m := by
      exact_mod_cast hfull.resolve_right (by omega)
    have hle : (2 : ℚ) ^ (1024 : ℤ) ≤ m * 2 ^ e := calc
      (2 : ℚ) ^ (1024 : ℤ) = 2 ^ (52 : ℤ) * 2 ^ (972 : ℤ) := (zpow_add₀ two_ne_zero 52 972)
      _ ≤ m * 2 ^ e := mul_le_mul hbits (zpow_le_zpow_right₀ one_le_two (by omega))
        (two_zpow_pos _).le (Nat.cast_nonneg m)
    exact absurd hlt (not_lt.2 (by exact_mod_cast hle))
  · intro hle
    have hbits : (m : ℚ) < 2 ^ (53 : ℤ) := by exact_mod_cast hhigh
    have hlt : (m : ℚ) * 2 ^ e < 2 ^ (1024 : ℤ) := calc
      (m : ℚ) * 2 ^ e ≤ m * 2 ^ (971 : ℤ) :=
          mul_le_mul_of_nonneg_left (zpow_le_zpow_right₀ one_le_two hle) (Nat.cast_nonneg m)
      _ < 2 ^ (53 : ℤ) * 2 ^ (971 : ℤ) := mul_lt_mul_of_pos_right hbits (two_zpow_pos _)
      _ = 2 ^ (1024 : ℤ) := (zpow_add₀ two_ne_zero 53 971).symm
    exact_mod_cast hlt

theorem pack_finite (s : Sign) (m : ℕ) (e : ℤ) (hm : 0 < m) :
    UnpackedFloat.pack .binary64 (.finite s m e hm) =
      if 2 ^ 11 ≤ (e + 1075).toNat + 1 then packedInfinity .binary64 s
      else if m.log2 + 1 = 53 then
        packComponents .binary64 s (BitVec.ofNat 11 (e + 1075).toNat) (BitVec.ofNat 52 m)
      else packComponents .binary64 s 0#11 (BitVec.ofNat 52 m) := by
  rw [show e + 1075 = e + 1023 + 52 by omega]
  rfl

/-- A finite double is unpacked as it was packed. -/
theorem number?_unpack_pack_finite (s : Sign) (h : FullLength m e) (hm : 0 < m) (he : e ≤ 971) :
    number? (UnpackedFloat.unpack .binary64 (UnpackedFloat.pack .binary64 (.finite s m e hm))) =
      some (withSign s (m * 2 ^ e)) := by
  obtain ⟨hhigh, hlow, hfull⟩ := h
  rw [pack_finite, if_neg (by omega)]
  by_cases hnormal : 2 ^ 52 ≤ m
  · have hlog : m.log2 = 52 := (Nat.log2_eq_iff hm.ne').2 ⟨hnormal, hhigh⟩
    have hbiased : (BitVec.ofNat 11 (e + 1075).toNat).toNat = (e + 1075).toNat := by
      rw [BitVec.toNat_ofNat]
      omega
    have hzero : BitVec.ofNat 11 (e + 1075).toNat ≠ 0#11 := fun h ↦ by
      rw [h, BitVec.toNat_zero] at hbiased
      omega
    have hlast : BitVec.ofNat 11 (e + 1075).toNat ≠ -1#11 := fun h ↦ by
      have hones : (-1#11).toNat = 2047 := by decide
      rw [h, hones] at hbiased
      omega
    have hmantissa : 2 ^ 52 + m % 2 ^ 52 = m := by omega
    have hexponent : ((e + 1075).toNat : ℤ) - 1075 = e := by omega
    rw [if_pos (by rw [hlog]), unpack_packComponents _ _ hlast, if_neg hzero, hbiased,
      BitVec.toNat_ofNat, hmantissa, hexponent]
  · have hlog : m.log2 < 52 := (Nat.log2_lt hm.ne').2 (by omega)
    rw [if_neg (by omega), unpack_packComponents _ _ (by decide), if_pos rfl,
      BitVec.toNat_ofNat, Nat.mod_eq_of_lt (by omega), hfull.resolve_left hnormal]

/-- **A double is unpacked as it was packed**, but for a number that is too large. -/
theorem number?_unpack_pack {u : UnpackedFloat} (h : Canonical u) :
    number? (UnpackedFloat.unpack .binary64 (UnpackedFloat.pack .binary64 u)) =
      (number? u).filter fun v ↦ |v| < 2 ^ 1024 := by
  rcases u with s | _ | s | ⟨s, m, e, hm⟩
  · rcases s with _ | _ <;> rfl
  · rfl
  · have hzero : |(0 : ℚ)| < 2 ^ 1024 := by
      rw [abs_zero]
      positivity
    rw [number?, Option.filter_some, if_pos (decide_eq_true hzero)]
    rcases s with _ | _ <;> rfl
  · have hfinite := FullLength.lt_iff h
    have habs : |withSign s ((m : ℚ) * 2 ^ e)| = m * 2 ^ e := by
      rw [abs_withSign, abs_of_nonneg (mul_nonneg (Nat.cast_nonneg m) (two_zpow_pos e).le)]
    show _ = (some (withSign s ((m : ℚ) * 2 ^ e))).filter fun v ↦ |v| < 2 ^ 1024
    simp only [Option.filter_some, habs, hfinite, decide_eq_true_eq]
    by_cases he : e ≤ 971
    · rw [if_pos he, number?_unpack_pack_finite s h hm he]
    · rw [if_neg he, pack_finite, if_pos (by omega)]
      rcases s with _ | _ <;> rfl

theorem canonical_unpack (b : BitVec 64) : Canonical (UnpackedFloat.unpack .binary64 b) := by
  have hmantissa := (@unpackMantissa .binary64 b).isLt
  have hbias : ((Format.binary64.exponentBias : ℤ) + (52 : ℕ)) = 1075 := rfl
  unfold UnpackedFloat.unpack
  dsimp only at hmantissa ⊢
  split
  · split <;> trivial
  · split
    · rename_i hzero
      split
      · trivial
      · refine ⟨by omega, ?_, .inr ?_⟩ <;> rw [hzero] <;> rfl
    · rename_i hne
      have hpos : 0 < (@unpackExponent .binary64 b).toNat :=
        Nat.pos_of_ne_zero fun h ↦ hne (BitVec.eq_of_toNat_eq h)
      refine ⟨?_, ?_, .inl ?_⟩
      · rw [toNat_one_append]
        omega
      · rw [hbias]
        omega
      · rw [toNat_one_append]
        omega

/-! ### Readings -/

/-- The number that a reading stands for, if it is finite. -/
def Reading.value? : Reading → Option ℚ
  | .finite negative m => some ((if negative then -1 else 1) * (m.mantissa * 2 ^ m.exponent))
  | .infinite _ => none
  | .notANumber => none

theorem withSign_ofBitVec (a : BitVec 1) (v : ℚ) :
    withSign (.ofBitVec a) v = (if a.toNat == 1 then -1 else 1) * v := by
  have hcases : a = 0#1 ∨ a = 1#1 := by
    have := a.isLt
    rcases (show a.toNat = 0 ∨ a.toNat = 1 by omega) with h | h
    · exact .inl (BitVec.eq_of_toNat_eq h)
    · exact .inr (BitVec.eq_of_toNat_eq h)
  rcases hcases with rfl | rfl
  · exact (one_mul v).symm
  · exact (neg_one_mul v).symm

/-- **The bits of a double are read as they are unpacked.** -/
theorem value?_ofBits (b : UInt64) :
    (Reading.ofBits b).value? = number? (UnpackedFloat.unpack .binary64 b.toBitVec) := by
  have hfraction : (@unpackMantissa .binary64 b.toBitVec).toNat =
      b.toNat % (1 <<< 52) := by
    simp [unpackMantissa]
  have hscale : (@unpackExponent .binary64 b.toBitVec).toNat =
      (b.toNat >>> 52) % (1 <<< 11) := by
    simp [unpackExponent]
  have hsign : (@unpackSign .binary64 b.toBitVec).toNat = b.toNat >>> 63 := by
    have := b.toNat_lt
    simp [unpackSign]
    omega
  have hlast : @unpackExponent .binary64 b.toBitVec = -1#11 ↔
      (b.toNat >>> 52) % (1 <<< 11) = 2047 := by
    rw [← BitVec.toNat_inj, hscale]
    rfl
  have hzero : @unpackExponent .binary64 b.toBitVec = 0#11 ↔
      (b.toNat >>> 52) % (1 <<< 11) = 0 := by
    rw [← BitVec.toNat_inj, hscale]
    rfl
  rw [number?_unpack, withSign_ofBitVec]
  simp only [hlast, hzero, hsign, hscale, hfraction]
  unfold Reading.ofBits
  dsimp only
  split
  · split <;> rfl
  · split <;> rfl

/-- What is unpacked is smaller than `2 ^ 1024`. -/
theorem abs_lt_of_unpack {b : BitVec 64} {v : ℚ}
    (h : number? (UnpackedFloat.unpack .binary64 b) = some v) : |v| < 2 ^ 1024 := by
  have hmantissa : (@unpackMantissa .binary64 b).toNat < 2 ^ 52 :=
    (@unpackMantissa .binary64 b).isLt
  have hexponent : (@unpackExponent .binary64 b).toNat < 2 ^ 11 :=
    (@unpackExponent .binary64 b).isLt
  rw [number?_unpack] at h
  split at h
  · cases h
  · rename_i hlast
    have hne : (@unpackExponent .binary64 b).toNat ≠ 2047 := fun h ↦
      hlast (BitVec.eq_of_toNat_eq h)
    obtain rfl := Option.some.inj h
    rw [abs_withSign]
    split
    · rw [abs_of_nonneg (mul_nonneg (Nat.cast_nonneg _) (two_zpow_pos _).le)]
      exact (FullLength.lt_iff ⟨by omega, le_rfl, .inr rfl⟩).2 (by decide)
    · rename_i hzero
      have hpos : (@unpackExponent .binary64 b).toNat ≠ 0 := fun h ↦
        hzero (BitVec.eq_of_toNat_eq h)
      rw [abs_of_nonneg (mul_nonneg (Nat.cast_nonneg _) (two_zpow_pos _).le)]
      exact (FullLength.lt_iff ⟨by omega, by omega, .inl (by omega)⟩).2 (by omega)

/-! ### The values of doubles -/

/-- The number that a double is, if it is finite. -/
def value? (x : Float) : Option ℚ := (Reading.ofFloat x).value?

theorem value?_eq (x : Float) : value? x = number? x.toModel.unpack := value?_ofBits _

theorem canonical_toModel (x : Float) : Canonical x.toModel.unpack := canonical_unpack _

theorem value?_pack {u : UnpackedFloat} (h : Canonical u) :
    value? (.ofModel (.pack u)) = (number? u).filter fun v ↦ |v| < 2 ^ 1024 := by
  rw [value?_eq]
  exact number?_unpack_pack h

theorem isFinite_eq (a : Float) : a.isFinite = (value? a).isSome := by
  rw [value?_eq]
  show a.toModel.unpack.isFinite = _
  rcases a.toModel.unpack with _ | _ | _ | _ <;> rfl

theorem canonical_neg {u : UnpackedFloat} (h : Canonical u) : Canonical u.neg := by
  rcases u with _ | _ | _ | _
  · trivial
  · trivial
  · trivial
  · exact h

theorem number?_neg (u : UnpackedFloat) : number? u.neg = (number? u).map fun v ↦ -v := by
  rcases u with _ | _ | _ | ⟨s, m, e, hm⟩
  · rfl
  · rfl
  · exact congrArg some neg_zero.symm
  · rcases s with _ | _
    · exact congrArg some (neg_neg _).symm
    · rfl

/-- The sign of a double is the sign of its value. -/
theorem value?_neg (a : Float) : value? (-a) = (value? a).map fun v ↦ -v := by
  show value? (.ofModel (.pack a.toModel.unpack.neg)) = _
  rw [value?_pack (canonical_neg (canonical_toModel a)), number?_neg, value?_eq]
  rcases h : number? a.toModel.unpack with _ | v
  · rfl
  · have hlt : |-v| < 2 ^ 1024 := by
      rw [abs_neg]
      exact abs_lt_of_unpack h
    rw [Option.map_some, Option.filter_some, if_pos (decide_eq_true hlt)]

theorem withSign_nearestDouble (s : Sign) (v : ℚ) :
    withSign s (nearestDouble v) = nearestDouble (withSign s v) := by
  rcases s with _ | _
  · exact (nearestDouble_neg v).symm
  · rfl

/-- **What is rounded to a double has the value of the nearest one.** -/
theorem value?_round {acc : Accuracy} {y : ℚ} (s : Sign)
    (hy : Holds (.ofMantissaAndAccuracy m acc) y) (hpos : 0 < y)
    (he : e ≤ lastPlace (y * 2 ^ e)) :
    value? (.ofModel (.pack (roundWithAccuracy .binary64 s m e acc))) =
      toDouble? (withSign s (y * 2 ^ e)) := by
  obtain ⟨hnumber, hcanonical⟩ := roundWithAccuracy_eq s hy hpos he
  rw [value?_pack hcanonical, hnumber, withSign_nearestDouble, Option.filter_some, toDouble?]
  simp only [decide_eq_true_eq]

theorem le_lastPlace_of {x : ℚ} {e : ℤ} (hx : x ≠ 0) (h : 2 ^ (52 + e) ≤ |x|) :
    e ≤ lastPlace x := by
  have hlog : 52 + e ≤ Int.log 2 |x| :=
    (Int.zpow_le_iff_le_log one_lt_two (abs_pos.2 hx)).1 (by exact_mod_cast h)
  unfold lastPlace
  omega

theorem withSign_mul (s t : Sign) (v w : ℚ) :
    withSign (s * t) (v * w) = withSign s v * withSign t w := by
  rcases s with _ | _ <;> rcases t with _ | _
  · exact (neg_mul_neg v w).symm
  · exact (neg_mul v w).symm
  · exact (mul_neg v w).symm
  · rfl

theorem value?_pack_zero (s : Sign) : value? (.ofModel (.pack (.zero s))) = toDouble? 0 := by
  have hlt : |(0 : ℚ)| < 2 ^ 1024 := by
    rw [abs_zero]
    positivity
  rw [value?_pack (u := .zero s) trivial, toDouble?_zero, number?, Option.filter_some,
    if_pos (decide_eq_true hlt)]

theorem FullLength.le_mul {m₁ m₂ : ℕ} {e₁ e₂ : ℤ} (h₁ : FullLength m₁ e₁) (hm₁ : 0 < m₁)
    (h₂ : FullLength m₂ e₂) (hm₂ : 0 < m₂) :
    e₁ + e₂ ≤ lastPlace ((m₁ * m₂ : ℕ) * 2 ^ (e₁ + e₂)) := by
  have hpos : (0 : ℚ) < (m₁ * m₂ : ℕ) * 2 ^ (e₁ + e₂) :=
    mul_pos (by exact_mod_cast Nat.mul_pos hm₁ hm₂) (two_zpow_pos _)
  by_cases hlarge : 2 ^ 52 ≤ m₁ * m₂
  · refine le_lastPlace_of hpos.ne' ?_
    rw [abs_of_pos hpos, zpow_add₀ two_ne_zero]
    exact mul_le_mul_of_nonneg_right (by exact_mod_cast hlarge) (two_zpow_pos _).le
  · -- Neither mantissa has its first bit, so both exponents are the least there is.
    have hfirst : e₁ = -1074 := h₁.2.2.resolve_left fun h ↦
      hlarge (h.trans (Nat.le_mul_of_pos_right m₁ hm₂))
    have hsecond : e₂ = -1074 := h₂.2.2.resolve_left fun h ↦
      hlarge (h.trans (Nat.le_mul_of_pos_left m₂ hm₁))
    have := le_lastPlace ((m₁ * m₂ : ℕ) * 2 ^ (e₁ + e₂))
    omega

theorem value?_pack_mul (s t : Sign) {m₁ m₂ : ℕ} {e₁ e₂ : ℤ} (hm₁ : 0 < m₁) (hm₂ : 0 < m₂)
    (he : e₁ + e₂ ≤ lastPlace ((m₁ * m₂ : ℕ) * 2 ^ (e₁ + e₂))) :
    value? (.ofModel (.pack (.mul .binary64 (.finite s m₁ e₁ hm₁) (.finite t m₂ e₂ hm₂)))) =
      toDouble? (withSign s (m₁ * 2 ^ e₁) * withSign t (m₂ * 2 ^ e₂)) := by
  have hround := value?_round (s * t) (holds_exact (m₁ * m₂))
    (by exact_mod_cast Nat.mul_pos hm₁ hm₂) he
  refine hround.trans (congrArg toDouble? ?_)
  rw [← withSign_mul, zpow_add₀ two_ne_zero, Nat.cast_mul]
  congr 1
  ring

/-- **A product is rounded once.** -/
theorem value?_mul {a b : Float} {v w : ℚ} (ha : value? a = some v) (hb : value? b = some w) :
    value? (a * b) = toDouble? (v * w) := by
  rw [value?_eq] at ha hb
  show value? (.ofModel (.pack (.mul .binary64 a.toModel.unpack b.toModel.unpack))) = _
  have hfulla := canonical_toModel a
  have hfullb := canonical_toModel b
  generalize a.toModel.unpack = u at ha hfulla
  generalize b.toModel.unpack = u' at hb hfullb
  rcases u with _ | _ | s | ⟨s, m₁, e₁, hm₁⟩
  · cases ha
  · cases ha
  · obtain rfl : 0 = v := Option.some.inj ha
    rw [zero_mul]
    rcases u' with _ | _ | t | ⟨t, m₂, e₂, hm₂⟩
    · cases hb
    · cases hb
    · exact value?_pack_zero _
    · exact value?_pack_zero _
  · obtain rfl : withSign s (m₁ * 2 ^ e₁) = v := Option.some.inj ha
    rcases u' with _ | _ | t | ⟨t, m₂, e₂, hm₂⟩
    · cases hb
    · cases hb
    · obtain rfl : 0 = w := Option.some.inj hb
      rw [mul_zero]
      exact value?_pack_zero _
    · obtain rfl : withSign t (m₂ * 2 ^ e₂) = w := Option.some.inj hb
      exact value?_pack_mul s t hm₁ hm₂ (FullLength.le_mul hfulla hm₁ hfullb hm₂)

theorem withSign_div (s t : Sign) (v w : ℚ) :
    withSign (s / t) (v / w) = withSign s v / withSign t w := by
  rcases s with _ | _ <;> rcases t with _ | _
  · exact (neg_div_neg_eq v w).symm
  · exact (neg_div w v).symm
  · exact (div_neg v).symm
  · rfl

/-- Division starts with enough bits for the quotient. -/
theorem le_lastPlace_div {m₁ m₂ : ℕ} {e₁ e₂ e : ℤ} (hm₁ : 0 < m₁) (hm₂ : 0 < m₂)
    (he : e ≤ Format.binary64.targetExponent (totalExponent m₁ e₁ - totalExponent m₂ e₂)) :
    e ≤ lastPlace (m₁ * 2 ^ e₁ / (m₂ * 2 ^ e₂)) := by
  have hm₁' : (0 : ℚ) < m₁ := by exact_mod_cast hm₁
  have hm₂' : (0 : ℚ) < m₂ := by exact_mod_cast hm₂
  have hpos : (0 : ℚ) < m₁ * 2 ^ e₁ / (m₂ * 2 ^ e₂) :=
    div_pos (mul_pos hm₁' (two_zpow_pos _)) (mul_pos hm₂' (two_zpow_pos _))
  rw [targetExponent_eq, totalExponent, totalExponent] at he
  have hlow : (2 : ℚ) ^ (m₁.log2 : ℤ) ≤ m₁ := by exact_mod_cast Nat.log2_self_le hm₁.ne'
  have hhigh : (m₂ : ℚ) ≤ 2 ^ (m₂.log2 + 1 : ℤ) := by exact_mod_cast Nat.lt_log2_self.le
  have hlog : (m₁.log2 : ℤ) + e₁ - (m₂.log2 + 1 + e₂) ≤
      Int.log 2 |(m₁ : ℚ) * 2 ^ e₁ / (m₂ * 2 ^ e₂)| := by
    rw [← Int.zpow_le_iff_le_log one_lt_two (abs_pos.2 hpos.ne'), abs_of_pos hpos, Nat.cast_ofNat,
      zpow_sub₀ two_ne_zero, zpow_add₀ two_ne_zero, zpow_add₀ two_ne_zero (m₂.log2 + 1 : ℤ)]
    exact div_le_div₀ (mul_pos hm₁' (two_zpow_pos _)).le
      (mul_le_mul_of_nonneg_right hlow (two_zpow_pos _).le) (mul_pos hm₂' (two_zpow_pos _))
      (mul_le_mul_of_nonneg_right hhigh (two_zpow_pos _).le)
  unfold lastPlace
  omega

theorem value?_pack_div (s t : Sign) {m₁ m₂ : ℕ} {e₁ e₂ : ℤ} (hm₁ : 0 < m₁) (hm₂ : 0 < m₂) :
    value? (.ofModel (.pack (.div .binary64 (.finite s m₁ e₁ hm₁) (.finite t m₂ e₂ hm₂)))) =
      toDouble? (withSign s (m₁ * 2 ^ e₁) / withSign t (m₂ * 2 ^ e₂)) := by
  have hm₂' : (0 : ℚ) < m₂ := by exact_mod_cast hm₂
  obtain ⟨e, he⟩ : ∃ e, e = min (e₁ - e₂)
    (Format.binary64.targetExponent (totalExponent m₁ e₁ - totalExponent m₂ e₂)) := ⟨_, rfl⟩
  obtain ⟨k, hk⟩ : ∃ k : ℕ, e₁ - e₂ = e + k := ⟨(e₁ - e₂ - e).toNat, by omega⟩
  have hvalue : ((m₁ <<< k : ℕ) : ℚ) / m₂ * 2 ^ e = m₁ * 2 ^ e₁ / (m₂ * 2 ^ e₂) := by
    rw [Nat.shiftLeft_eq, Nat.cast_mul, Nat.cast_pow, Nat.cast_ofNat, show e₁ = e + k + e₂ by omega,
      zpow_add₀ two_ne_zero, zpow_add₀ two_ne_zero, zpow_natCast]
    field_simp
  have hcore : divCore .binary64 m₁ e₁ m₂ e₂ =
      (m₁ <<< k / m₂, e, accuracyOfFraction (m₁ <<< k % m₂) m₂) := by
    rw [divCore, ← he, show (e₁ - e₂ - e).toNat = k by omega]
  have hround := value?_round (s / t) (holds_div (m₁ <<< k) hm₂)
    (div_pos (by rw [Nat.shiftLeft_eq]; exact_mod_cast Nat.mul_pos hm₁ (Nat.two_pow_pos k)) hm₂')
    (by rw [hvalue]; exact le_lastPlace_div hm₁ hm₂ (by omega))
  rw [hvalue, withSign_div] at hround
  show value? (.ofModel (.pack (roundWithAccuracy .binary64 (s / t)
    (divCore .binary64 m₁ e₁ m₂ e₂).1 (divCore .binary64 m₁ e₁ m₂ e₂).2.1
    (divCore .binary64 m₁ e₁ m₂ e₂).2.2))) = _
  rw [hcore]
  exact hround

/-- **A quotient is rounded once.** -/
theorem value?_div {a b : Float} {v w : ℚ} (ha : value? a = some v) (hb : value? b = some w)
    (hw : w ≠ 0) : value? (a / b) = toDouble? (v / w) := by
  rw [value?_eq] at ha hb
  show value? (.ofModel (.pack (.div .binary64 a.toModel.unpack b.toModel.unpack))) = _
  generalize a.toModel.unpack = u at ha
  generalize b.toModel.unpack = u' at hb
  rcases u' with _ | _ | t | ⟨t, m₂, e₂, hm₂⟩
  · cases hb
  · cases hb
  · exact absurd (Option.some.inj hb).symm hw
  · obtain rfl : withSign t (m₂ * 2 ^ e₂) = w := Option.some.inj hb
    rcases u with _ | _ | s | ⟨s, m₁, e₁, hm₁⟩
    · cases ha
    · cases ha
    · obtain rfl : 0 = v := Option.some.inj ha
      rw [zero_div]
      exact value?_pack_zero _
    · obtain rfl : withSign s (m₁ * 2 ^ e₁) = v := Option.some.inj ha
      exact value?_pack_div s t hm₁ hm₂

/-! ### Whole numbers and powers of ten -/

theorem value?_pack_ofNat (n : ℕ) :
    value? (.ofModel (.pack (.ofNat .binary64 n))) = toDouble? n := by
  rcases Nat.eq_zero_or_pos n with rfl | hn
  · exact (value?_pack_zero .positive).trans (by rw [Nat.cast_zero])
  · have hn' : (0 : ℚ) < n := by exact_mod_cast hn
    have hcompare : compare (n : ℤ) 0 = .gt := compare_gt_iff_gt.2 (by exact_mod_cast hn)
    obtain ⟨t, ht⟩ : ∃ t, t = Format.binary64.targetExponent (totalExponent n 0) := ⟨_, rfl⟩
    obtain ⟨k, hk⟩ : ∃ k : ℕ, k = (0 - t).toNat := ⟨_, rfl⟩
    have hscaled : ((n <<< k : ℕ) : ℚ) * 2 ^ (0 - (k : ℤ)) = n := by
      rw [Nat.shiftLeft_eq, Nat.cast_mul, Nat.cast_pow, Nat.cast_ofNat, zero_sub, zpow_neg,
        zpow_natCast]
      field_simp
    have hlast : 0 - (k : ℤ) ≤ lastPlace n := by
      have hlog : Int.log 2 |(n : ℚ)| = n.log2 + 0 := by
        rw [← log_eq (Int.floor_natCast n) hn, zpow_zero, mul_one]
      rw [targetExponent_eq, totalExponent] at ht
      unfold lastPlace
      omega
    have hround := value?_round .positive (holds_exact (n <<< k))
      (by rw [Nat.shiftLeft_eq]; exact_mod_cast Nat.mul_pos hn (Nat.two_pow_pos k))
      (by rw [hscaled]; exact hlast)
    rw [hscaled] at hround
    refine (congrArg (fun u ↦ value? (.ofModel (.pack u))) ?_).trans hround
    simp only [UnpackedFloat.ofNat, UnpackedFloat.ofInt, UnpackedFloat.normalize, hcompare,
      UnpackedFloat.round, decreaseExponent, Int.toNat_natCast, ← ht, ← hk]

/-- **A whole number becomes the nearest double.** -/
theorem value?_toFloat (n : UInt64) : value? n.toFloat = toDouble? n.toNat :=
  value?_pack_ofNat n.toNat

theorem value?_powersOfTen : ∀ k : Fin 23,
    value? (Float.exactlyRepresentablePowersOfTen[k]) = some (10 ^ k.val) := by
  decide +kernel

/-- A number of more than 400 digits is beyond the doubles. -/
theorem toDouble?_ten_eq_none {k : ℤ} (hm : 10 ^ k ≤ (m : ℚ)) (he : 400 ≤ k + e) :
    toDouble? (m * 10 ^ e) = none := by
  have hten : (0 : ℚ) < 10 ^ e := zpow_pos (by norm_num) e
  have hbeyond : 2 ^ (1024 : ℤ) ≤ |(m : ℚ) * 10 ^ e| := calc
    (2 : ℚ) ^ (1024 : ℤ) ≤ 10 ^ (400 : ℤ) := by
      exact_mod_cast (show 2 ^ 1024 ≤ 10 ^ 400 by decide +kernel)
    _ ≤ 10 ^ (k + e) := zpow_le_zpow_right₀ (by norm_num) he
    _ = 10 ^ k * 10 ^ e := zpow_add₀ (by norm_num) k e
    _ ≤ m * 10 ^ e := mul_le_mul_of_nonneg_right hm hten.le
    _ ≤ |(m : ℚ) * 10 ^ e| := le_abs_self _
  exact toDouble?_eq_none hbeyond

/-- A number with 400 zeros behind the point is nearest to zero. -/
theorem toDouble?_ten_eq_zero {k : ℤ} (hm : (m : ℚ) < 10 ^ k) (he : k + e ≤ -400) :
    toDouble? (m * 10 ^ e) = some 0 := by
  have hten : (0 : ℚ) < 10 ^ e := zpow_pos (by norm_num) e
  have hbelow : |(m : ℚ) * 10 ^ e| < 2 ^ (-1075 : ℤ) := calc
    |(m : ℚ) * 10 ^ e| = m * 10 ^ e := abs_of_nonneg (by positivity)
    _ < 10 ^ k * 10 ^ e := mul_lt_mul_of_pos_right hm hten
    _ = 10 ^ (k + e) := (zpow_add₀ (by norm_num) k e).symm
    _ ≤ 10 ^ (-400 : ℤ) := zpow_le_zpow_right₀ (by norm_num) he
    _ ≤ 2 ^ (-1075 : ℤ) := by
      rw [zpow_neg, zpow_neg, inv_le_inv₀ (zpow_pos (by norm_num) 400) (two_zpow_pos 1075)]
      exact_mod_cast (show 2 ^ 1075 ≤ 10 ^ 400 by decide +kernel)
  exact toDouble?_eq_zero hbelow

/-- A whole number is multiplied by a power of ten, and then rounded. -/
theorem value?_pack_mul_ten {m k : ℕ} (hm : 0 < m) (hshift : 0 < m <<< 53) (hpower : 0 < 10 ^ k) :
    value? (.ofModel (.pack (.mul .binary64 (.finite .positive (m <<< 53) (-53) hshift)
      (.finite .positive (10 ^ k) 0 hpower)))) = toDouble? (m * 10 ^ k) := by
  have hshifted : ((m <<< 53 : ℕ) : ℚ) * 2 ^ (-53 : ℤ) = m := by
    rw [Nat.shiftLeft_eq, Nat.cast_mul, Nat.cast_pow, Nat.cast_ofNat, zpow_neg, mul_assoc]
    exact mul_eq_left₀ (by exact_mod_cast hm.ne') |>.2 (mul_inv_cancel₀ (by positivity))
  have hvalue : ((m <<< 53 * 10 ^ k : ℕ) : ℚ) * 2 ^ (-53 + 0 : ℤ) = m * 10 ^ k := by
    rw [add_zero, Nat.cast_mul, mul_right_comm, hshifted, Nat.cast_pow, Nat.cast_ofNat]
  have hone : (1 : ℚ) ≤ m * 10 ^ k := by exact_mod_cast Nat.mul_pos hm hpower
  have hmul := @value?_pack_mul .positive .positive _ _ (-53) 0 hshift hpower (by
    rw [hvalue]
    refine le_lastPlace_of (by positivity) ?_
    rw [abs_of_pos (by positivity)]
    exact (zpow_le_one_of_nonpos₀ one_le_two (by decide)).trans hone)
  refine hmul.trans (congrArg toDouble? ?_)
  show ((m <<< 53 : ℕ) : ℚ) * 2 ^ (-53 : ℤ) * ((10 ^ k : ℕ) * 2 ^ (0 : ℤ)) = _
  rw [hshifted, zpow_zero, mul_one, Nat.cast_pow, Nat.cast_ofNat]

/-- A whole number is divided by a power of ten, and then rounded. -/
theorem value?_pack_div_ten {m k : ℕ} (hm : 0 < m) (hpower : 0 < 10 ^ k) :
    value? (.ofModel (.pack (.div .binary64 (.finite .positive m 0 hm)
      (.finite .positive (10 ^ k) 0 hpower)))) = toDouble? (m / 10 ^ k) := by
  refine (value?_pack_div .positive .positive hm hpower).trans (congrArg toDouble? ?_)
  show (m : ℚ) * 2 ^ (0 : ℤ) / ((10 ^ k : ℕ) * 2 ^ (0 : ℤ)) = _
  rw [zpow_zero, mul_one, mul_one, Nat.cast_pow, Nat.cast_ofNat]

/-- Powers of ten far beyond the doubles are not computed; the outcome is the same. -/
theorem value?_pack_ofScientific (m : ℕ) (e : ℤ) :
    value? (.ofModel (.pack (.ofScientific .binary64 m e))) = toDouble? (m * 10 ^ e) := by
  have hbits : (2 : ℤ) ^ Format.binary64.exponentBits = 2048 := rfl
  unfold UnpackedFloat.ofScientific
  split
  · rename_i hm
    rw [hm, Nat.cast_zero, zero_mul]
    exact value?_pack_zero _
  rename_i hm
  have hpos : 0 < m := Nat.pos_of_ne_zero hm
  split
  · rename_i hlarge
    have hone : (10 : ℚ) ^ (0 : ℤ) ≤ m := by
      rw [zpow_zero]
      exact_mod_cast hpos
    rw [toDouble?_ten_eq_none hone (by omega)]
    rfl
  split
  · rename_i hsmall
    have hlog : (m : ℚ) < 10 ^ (m.log2 + 1 : ℤ) := by
      exact_mod_cast Nat.lt_log2_self.trans_le (Nat.pow_le_pow_left (by decide) _)
    rw [toDouble?_ten_eq_zero hlog (by omega), ← toDouble?_zero]
    exact value?_pack_zero _
  split
  · rename_i he
    obtain ⟨k, rfl⟩ := Int.eq_ofNat_of_zero_le he
    exact value?_pack_mul_ten hpos _ _
  · rename_i he
    obtain ⟨k, rfl⟩ : ∃ k : ℕ, e = -k := ⟨(-e).toNat, by omega⟩
    have hk : (- -(k : ℤ)).toNat = k := by omega
    refine (value?_pack_div_ten hpos _).trans (congrArg toDouble? ?_)
    rw [hk, zpow_neg, zpow_natCast, div_eq_mul_inv]

/-- **A number in decimal form becomes the nearest double**, also on the path for short numbers. -/
theorem value?_ofScientific (m : ℕ) (down : Bool) (k : ℕ) :
    value? (Float.ofScientific m down k) = toDouble? (m * 10 ^ (if down then -k else k : ℤ)) := by
  unfold Float.ofScientific
  split
  · rename_i hshort
    obtain ⟨hm, hk⟩ := hshort
    have hnat : m.toUInt64.toNat = m := by
      have : m.toUInt64.toNat = m % 2 ^ 64 := rfl
      omega
    have hdouble : IsDouble (m : ℚ) := by
      have hle : |(m : ℤ)| ≤ 2 ^ 53 := by
        rw [Nat.abs_cast]
        exact_mod_cast hm.le
      exact_mod_cast isDouble_intCast hle
    have hexact : value? m.toUInt64.toFloat = some (m : ℚ) := by
      have hlt : |(m : ℚ)| < 2 ^ 1024 := by
        rw [Nat.abs_cast]
        exact_mod_cast hm.trans (by decide +kernel)
      rw [value?_toFloat, hnat, toDouble?_eq_self hdouble hlt]
    have hpower := value?_powersOfTen ⟨k, by omega⟩
    rcases down with _ | _
    · rw [if_neg (by decide), if_neg (by decide), zpow_natCast]
      exact value?_mul hexact hpower
    · rw [if_pos rfl, if_pos rfl, zpow_neg, zpow_natCast, ← div_eq_mul_inv]
      exact value?_div hexact hpower (by positivity)
  · rw [show (if down then (-k : ℤ) else k) = if down then Int.negOfNat k else Int.ofNat k by
      rcases down with _ | _
      · rfl
      · exact (Int.negOfNat_eq).symm]
    exact value?_pack_ofScientific _ _

/-- The first digit tells the magnitude of a number. -/
theorem pow_length_toDigits {m : ℕ} (hm : 0 < m) :
    (10 : ℚ) ^ ((Nat.toDigits 10 m).length - 1 : ℤ) ≤ m ∧
      (m : ℚ) < 10 ^ ((Nat.toDigits 10 m).length : ℤ) := by
  have hlength : 0 < (Nat.toDigits 10 m).length := Nat.length_toDigits_pos
  obtain ⟨k, hk⟩ : ∃ k, (Nat.toDigits 10 m).length = k + 1 := ⟨_, (Nat.succ_pred hlength.ne').symm⟩
  have hhigh : m < 10 ^ (k + 1) := (Nat.length_toDigits_le_iff (by decide) (by omega)).1 hk.le
  have hlow : 10 ^ k ≤ m := by
    rcases Nat.eq_zero_or_pos k with rfl | hpos
    · exact hm
    · refine Nat.le_of_not_lt fun hlt ↦ ?_
      have := (Nat.length_toDigits_le_iff (by decide) hpos).2 hlt
      omega
  rw [hk, show ((k + 1 : ℕ) : ℤ) - 1 = k by omega, zpow_natCast, zpow_natCast]
  exact ⟨by exact_mod_cast hlow, by exact_mod_cast hhigh⟩

theorem value?_zero : value? 0.0 = some 0 := by
  refine (value?_ofScientific 0 true 1).trans ?_
  rw [Nat.cast_zero, zero_mul, toDouble?_zero]

/-- **A numeral denotes the nearest double.** -/
theorem value?_nearest (m : ℕ) (e : ℤ) : value? (nearest m e) = toDouble? (m * 10 ^ e) := by
  unfold nearest
  split
  · rename_i hm
    rw [value?_zero, hm, Nat.cast_zero, zero_mul, toDouble?_zero]
  rename_i hm
  obtain ⟨hlow, hhigh⟩ := pow_length_toDigits (Nat.pos_of_ne_zero hm)
  dsimp only
  split
  · rename_i htop
    rw [toDouble?_ten_eq_none hlow (by omega)]
    decide +kernel
  split
  · rename_i htop
    rw [value?_zero, toDouble?_ten_eq_zero hhigh (by omega)]
  split
  · rename_i he
    obtain ⟨k, rfl⟩ := Int.eq_ofNat_of_zero_le he
    refine (value?_ofScientific _ false 0).trans (congrArg toDouble? ?_)
    show ((m * 10 ^ k : ℕ) : ℚ) * 10 ^ (0 : ℤ) = m * 10 ^ (k : ℤ)
    rw [zpow_zero, mul_one, zpow_natCast, Nat.cast_mul, Nat.cast_pow, Nat.cast_ofNat]
  · rename_i he
    obtain ⟨k, rfl⟩ : ∃ k : ℕ, e = -k := ⟨(-e).toNat, by omega⟩
    have hk : (- -(k : ℤ)).toNat = k := by omega
    rw [hk]
    exact value?_ofScientific m true k

/-! ### Floors -/

theorem floor_eq (m : Magnitude) (negative : Bool) :
    m.floor negative = ⌊(if negative then -1 else 1) * ((m.mantissa : ℚ) * 2 ^ m.exponent)⌋ := by
  obtain ⟨a, p, narrow⟩ := m
  have hfloor : ∀ num den : ℕ, (if negative then -(num : ℤ) else num) / (den : ℤ) =
      ⌊(if negative then -1 else 1) * ((num : ℚ) / den)⌋ := by
    intro num den
    rcases negative with _ | _
    · rw [if_neg (by decide), if_neg (by decide), one_mul, ← Int.cast_natCast num]
      exact (Rat.floor_intCast_div_natCast _ _).symm
    · rw [if_pos rfl, if_pos rfl, neg_one_mul, ← neg_div, ← Int.cast_natCast num, ← Int.cast_neg]
      exact (Rat.floor_intCast_div_natCast _ _).symm
  have hscaled : (a : ℚ) * (2 : ℚ) ^ p =
      (((a <<< p.toNat) * 10 ^ 0 : ℕ) : ℚ) / (((1 <<< (-p).toNat) * 10 ^ 0 : ℕ) : ℚ) := by
    simp only [Nat.shiftLeft_eq, pow_zero, mul_one, one_mul]
    push_cast
    rcases le_total 0 p with hp | hp
    · obtain ⟨k, rfl⟩ := Int.eq_ofNat_of_zero_le hp
      rw [show (-(k : ℤ)).toNat = 0 by omega, Int.toNat_natCast, zpow_natCast, pow_zero, div_one]
    · obtain ⟨k, rfl⟩ : ∃ k : ℕ, p = -k := ⟨(-p).toNat, by omega⟩
      rw [show (-(k : ℤ)).toNat = 0 by omega, neg_neg, Int.toNat_natCast, zpow_neg, zpow_natCast,
        pow_zero, mul_one, div_eq_mul_inv]
  show _ = ⌊(if negative then -1 else 1) * ((a : ℚ) * (2 : ℚ) ^ p)⌋
  rw [hscaled]
  exact hfloor _ _

/-- **A double is floored to its value's floor**, or to the end of the range nearest to it. -/
theorem floorInt64_eq {x : Float} {v : ℚ} (h : value? x = some v) :
    floorInt64 x = nearestInt64 ⌊v⌋ := by
  unfold value? at h
  unfold floorInt64
  rcases hx : Reading.ofFloat x with _ | _ | ⟨negative, m⟩ <;> rw [hx] at h
  · cases h
  · cases h
  · obtain rfl := Option.some.inj h
    exact congrArg nearestInt64 (floor_eq m negative)

end LiveTemplate.Decimal
