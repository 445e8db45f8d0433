import LiveTemplate.Decimal.Binary64

/-!
# The shortest decimal that reads back

A finite double stands for every real number that rounds to it: the interval halfway to its
neighbours, ends included when the mantissa is even. Its shortest decimal is the one with the fewest
digits in that interval, and among those the one nearest to the double.

For each count of digits the search looks at the two neighbours of the double on that decimal grid;
if any point of a grid lies in the interval, one of these two does.
-/

namespace LiveTemplate.Decimal

/-- The number `digits * 10 ^ exponent`. -/
structure Scientific where
  digits : Nat
  exponent : Int
  deriving Repr, DecidableEq

namespace Magnitude

/-- Whether the double is at least `10 ^ e`. -/
def reaches (v : Magnitude) (e : Int) : Bool :=
  let (num, den) := scaled v.mantissa v.exponent (-e)
  den ≤ num

/-- The exponent `e` with `10 ^ e ≤ v < 10 ^ (e + 1)`, for a positive double. -/
def order (v : Magnitude) : Int :=
  let guess := ((v.mantissa.log2 : Int) + v.exponent) * 30103 / 100000
  if v.reaches (guess + 1) then guess + 1 else if v.reaches guess then guess else guess - 1

/-- Whether `d * 10 ^ k` lies in the interval of the double. -/
def covers (v : Magnitude) (d : Nat) (k : Int) : Bool :=
  let (num, den) := scaled d (2 - v.exponent) k
  let below := 4 * v.mantissa - (if v.narrowBelow then 1 else 2)
  let above := 4 * v.mantissa + 2
  if v.mantissa % 2 = 0 then below * den ≤ num && num ≤ above * den
  else below * den < num && num < above * den

/-- The grid point with `count` digits nearest to the double, if one of its two neighbours on that
grid lies in the interval. -/
def onGrid? (tie : Tie) (v : Magnitude) (count : Nat) : Option Scientific :=
  let k := v.order - (count : Int) + 1
  let (num, den) := scaled v.mantissa v.exponent (-k)
  let low := num / den
  match v.covers low k, v.covers (low + 1) k with
  | true, true => some ⟨roundDiv tie num den, k⟩
  | true, false => some ⟨low, k⟩
  | false, true => some ⟨low + 1, k⟩
  | false, false => none

end Magnitude

/-- Moves the zeros that the digits end with into the exponent, at most `fuel` of them. -/
def Scientific.trimmed (s : Scientific) : Nat → Scientific
  | 0 => s
  | fuel + 1 =>
    if s.digits ≠ 0 ∧ s.digits % 10 = 0 then
      Scientific.trimmed ⟨s.digits / 10, s.exponent + 1⟩ fuel
    else s

/-- The shortest decimal that reads back as the double. Seventeen digits always suffice. -/
def shortest (tie : Tie) (v : Magnitude) : Scientific :=
  if v.mantissa = 0 then ⟨0, 0⟩
  else
    let found := (List.range 17).findSome? fun n => v.onGrid? tie (n + 1)
    (found.getD ⟨0, 0⟩).trimmed 20

end LiveTemplate.Decimal
