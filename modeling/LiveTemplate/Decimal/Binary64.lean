/-!
# Double precision numbers as exact fractions

A double is a sign and a whole number times a power of two, an infinity, or not a number. The
decimal forms of this library are computed from that reading in exact arithmetic.
-/

namespace LiveTemplate.Decimal

/-- A finite magnitude `mantissa * 2 ^ exponent`. `narrowBelow` holds when the next smaller double
is only half as far away as the next larger one, as it is above a power of two. -/
structure Magnitude where
  mantissa : Nat
  exponent : Int
  narrowBelow : Bool
  deriving Repr, DecidableEq

/-- What the bits of a double say. -/
inductive Reading
  | notANumber
  | infinite (negative : Bool)
  | finite (negative : Bool) (magnitude : Magnitude)
  deriving Repr, DecidableEq

/-- Reads 64 bits: a sign, eleven bits of exponent, 52 bits of fraction. -/
def Reading.ofBits (bits : UInt64) : Reading :=
  let n : Nat := bits.toNat
  let negative := n >>> 63 == 1
  let scale : Nat := (n >>> 52) % (1 <<< 11)
  let fraction : Nat := n % (1 <<< 52)
  if scale = 2047 then
    if fraction = 0 then .infinite negative else .notANumber
  else if scale = 0 then .finite negative ⟨fraction, -1074, false⟩
  else .finite negative ⟨(1 <<< 52) + fraction, (scale : Int) - 1075, fraction == 0 && scale != 1⟩

/-- The reading of a double. -/
def Reading.ofFloat (x : Float) : Reading := Reading.ofBits x.toBits

/-- The fraction `a * 2 ^ p * 10 ^ k` as numerator and denominator. -/
def scaled (a : Nat) (p k : Int) : Nat × Nat :=
  ((a <<< p.toNat) * Nat.pow 10 k.toNat, (1 <<< (-p).toNat) * Nat.pow 10 (-k).toNat)

/-- The greatest whole number up to a finite number. -/
def Magnitude.floor (m : Magnitude) (negative : Bool) : Int :=
  let (num, den) := scaled m.mantissa m.exponent 0
  (if negative then -(num : Int) else (num : Int)) / (den : Int)

/-- Which neighbour an exact tie between two goes to. -/
inductive Tie
  | up
  | even
  deriving Repr, DecidableEq

/-- The whole number nearest to `num / den`. -/
def roundDiv (tie : Tie) (num den : Nat) : Nat :=
  let low := num / den
  match compare (2 * (num % den)) den with
  | .lt => low
  | .gt => low + 1
  | .eq => match tie with
    | .up => low + 1
    | .even => if low % 2 = 0 then low else low + 1

/-- The result is at most half a unit away from the quotient. -/
theorem roundDiv_near (tie : Tie) (num den : Nat) (h : 0 < den) :
    2 * num ≤ 2 * (roundDiv tie num den * den) + den ∧
      2 * (roundDiv tie num den * den) ≤ 2 * num + den := by
  have hsplit : den * (num / den) + num % den = num := Nat.div_add_mod num den
  have hlt := Nat.mod_lt num h
  have hcomm : den * (num / den) = num / den * den := Nat.mul_comm _ _
  have hsucc : (num / den + 1) * den = num / den * den + den := Nat.succ_mul _ _
  unfold roundDiv
  cases hc : compare (2 * (num % den)) den with
  | lt =>
    have := Nat.compare_eq_lt.1 hc
    simp only
    omega
  | gt =>
    have := Nat.compare_eq_gt.1 hc
    simp only
    omega
  | eq =>
    have := Nat.compare_eq_eq.1 hc
    cases tie
    · simp only
      omega
    · simp only
      split <;> omega

end LiveTemplate.Decimal
