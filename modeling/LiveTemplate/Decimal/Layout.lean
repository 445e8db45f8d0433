import LiveTemplate.Decimal.Shortest

/-!
# How a double is written

A `Layout` says where a shortest decimal is written by position and where by a power of ten, and
whether a whole number keeps a fraction. Three layouts are in use: `typed` for values shown with
their type, `plain` for values shown to a reader, `json` for documents.

`fixed` writes a given number of places instead.
-/

namespace LiveTemplate.Decimal

/-- The decisions left open by the digits themselves. -/
structure Layout where
  /-- The powers of ten, first and last, of the first digits written by position; `none` for all. -/
  positional : Option (Int × Int)
  /-- A whole number written by position ends in `.0`. -/
  keepsFraction : Bool
  /-- A power of ten that is not negative has a plus sign. -/
  signsPower : Bool
  /-- Where a tie between two shortest decimals goes. -/
  tie : Tie
  deriving Repr, DecidableEq

/-- The layout of a value shown with its type. -/
def Layout.typed : Layout := ⟨some (-4, 15), true, false, .up⟩

/-- The layout of a value shown to a reader. -/
def Layout.plain : Layout := ⟨none, false, false, .up⟩

/-- The layout of a number in a document. -/
def Layout.json : Layout := ⟨some (-5, 15), true, true, .even⟩

/-- Digits with a point after the first `point` of them, padded with zeros on either side. -/
def pointed (keepsFraction : Bool) (digits : List Char) (point : Int) : List Char :=
  if point ≤ 0 then '0' :: '.' :: (List.replicate (-point).toNat '0' ++ digits)
  else
    let whole := digits.take point.toNat
    let rest := digits.drop point.toNat
    let padded := whole ++ List.replicate (point.toNat - whole.length) '0'
    if rest.isEmpty then padded ++ (if keepsFraction then ['.', '0'] else [])
    else padded ++ '.' :: rest

/-- Digits with a point after the first, and the power of ten of that digit. -/
def withPower (signsPower : Bool) (digits : List Char) (power : Int) : List Char :=
  let head := match digits with
    | [] => []
    | [d] => [d]
    | d :: rest => d :: '.' :: rest
  let sign := if signsPower && decide (0 ≤ power) then ['+'] else []
  head ++ 'e' :: (sign ++ (toString power).toList)

/-- A decimal in the given layout. -/
def Layout.digits (layout : Layout) (s : Scientific) : List Char :=
  let digits := Nat.toDigits 10 s.digits
  let power := s.exponent + (digits.length : Int) - 1
  let byPosition := match layout.positional with
    | none => true
    | some (first, last) => s.digits == 0 || (first ≤ power && power ≤ last)
  if byPosition then pointed layout.keepsFraction digits (power + 1)
  else withPower layout.signsPower digits power

/-- A minus sign in front of a negative number. -/
def signed (negative : Bool) (digits : List Char) : String :=
  String.ofList (if negative then '-' :: digits else digits)

/-- A double in the given layout. -/
def Layout.write (layout : Layout) (x : Float) : String :=
  match Reading.ofFloat x with
  | .notANumber => "NaN"
  | .infinite negative => signed negative "inf".toList
  | .finite negative v => signed negative (layout.digits (shortest layout.tie v))

/-- A double with exactly `places` digits after the point, rounded from its exact value, a tie going
to the even neighbour. -/
def fixed (places : Nat) (x : Float) : String :=
  match Reading.ofFloat x with
  | .notANumber => "NaN"
  | .infinite negative => signed negative "inf".toList
  | .finite negative v =>
    let (num, den) := scaled v.mantissa v.exponent places
    let units := roundDiv .even num den
    let whole := Nat.toDigits 10 (units / Nat.pow 10 places)
    let part := Nat.toDigits 10 (units % Nat.pow 10 places)
    signed negative
      (whole ++ '.' :: (List.replicate (places - part.length) '0' ++ part))

end LiveTemplate.Decimal
