import LiveTemplate.Decimal.Binary64

/-!
# Whole numbers in 64 bits

Conversions that keep a number in range by going to the nearest end of it.
-/

namespace LiveTemplate

/-- The 64-bit number nearest to a whole number. -/
def nearestInt64 (n : Int) : Int64 :=
  if n < Int64.minValue.toInt then Int64.minValue
  else if Int64.maxValue.toInt < n then Int64.maxValue
  else Int64.ofInt n

theorem toInt_nearestInt64_eq (n : Int) :
    (nearestInt64 n).toInt = max Int64.minValue.toInt (min n Int64.maxValue.toInt) := by
  have hmin : Int64.minValue.toInt = -9223372036854775808 := rfl
  have hmax : Int64.maxValue.toInt = 9223372036854775807 := rfl
  unfold nearestInt64
  split
  · omega
  · split
    · omega
    · rw [Int64.toInt_ofInt_of_le (by omega) (by omega)]
      omega

theorem toInt_nearestInt64 {n : Int} (h : Int64.minValue.toInt ≤ n ∧ n ≤ Int64.maxValue.toInt) :
    (nearestInt64 n).toInt = n := by
  rw [toInt_nearestInt64_eq]
  omega

/-- The 64-bit number nearest to the floor of a double; zero for what is not a number. -/
def floorInt64 (x : Float) : Int64 :=
  match Decimal.Reading.ofFloat x with
  | .notANumber => 0
  | .infinite negative => if negative then Int64.minValue else Int64.maxValue
  | .finite negative magnitude => nearestInt64 (magnitude.floor negative)

/-- The sum of two numbers without sign, or the largest one there is. -/
def addUpTo (a b : UInt64) : UInt64 :=
  if a.toNat + b.toNat < UInt64.size then a + b else UInt64.ofNat (UInt64.size - 1)

end LiveTemplate
