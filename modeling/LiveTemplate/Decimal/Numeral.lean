import LiveTemplate.Text.Blank

/-!
# Reading numerals

Whole numbers of a given range and doubles, from text. A numeral is ASCII: an optional sign, then
digits; a double may have a fraction, an exponent, or be one of the words for an infinity and for
not a number. Nothing else is skipped, so blanks around a numeral are refused.
-/

namespace LiveTemplate.Decimal

/-- The value of a digit in a base up to sixteen. -/
def digitValue? (base : Nat) (c : Char) : Option Nat :=
  let n :=
    if c.isDigit then some (c.toNat - '0'.toNat)
    else if 'a' ≤ c ∧ c ≤ 'f' then some (c.toNat - 'a'.toNat + 10)
    else if 'A' ≤ c ∧ c ≤ 'F' then some (c.toNat - 'A'.toNat + 10)
    else none
  n.filter (· < base)

/-- The number that a run of digits denotes; `none` for an empty run and for any other character. -/
def digits? (base : Nat) : List Char → Option Nat
  | [] => none
  | c :: rest => (c :: rest).foldl (fun acc d => do
      let n ← acc
      let k ← digitValue? base d
      pure (n * base + k)) (some 0)

/-- A number without sign below `bound`; a plus sign is allowed. -/
def natural? (base bound : Nat) (s : List Char) : Option Nat :=
  let body := match s with
    | '+' :: rest => rest
    | other => other
  (digits? base body).filter (· < bound)

/-- A whole number in decimal, with an optional sign, in the range of 64-bit signed numbers. -/
def int64? (s : List Char) : Option Int64 :=
  let value : Option Int := match s with
    | '-' :: rest => (digits? 10 rest).map fun n => -(n : Int)
    | '+' :: rest => (digits? 10 rest).map fun n => (n : Int)
    | other => (digits? 10 other).map fun n => (n : Int)
  value.bind fun n =>
    if Int64.minValue.toInt ≤ n ∧ n ≤ Int64.maxValue.toInt then some (Int64.ofInt n) else none

/-- A whole number without sign in the range of 64-bit numbers; a plus sign is allowed. -/
def uint64? (s : List Char) : Option UInt64 := (natural? 10 UInt64.size s).map UInt64.ofNat

/-- The double nearest to `mantissa * 10 ^ exponent`. Powers of ten beyond the range of doubles are
settled before anything is computed. -/
def nearest (mantissa : Nat) (exponent : Int) : Float :=
  if mantissa = 0 then 0.0
  else
    let top := exponent + (Nat.toDigits 10 mantissa).length
    if 400 < top then Float.ofBits 0x7FF0000000000000
    else if top < -400 then 0.0
    else if 0 ≤ exponent then Float.ofScientific (mantissa * Nat.pow 10 exponent.toNat) false 0
    else Float.ofScientific mantissa true (-exponent).toNat

/-- The number after an exponent mark: an optional sign and digits. -/
def exponent? (s : List Char) : Option Int :=
  match s with
  | '-' :: rest => (digits? 10 rest).map fun n => -(n : Int)
  | '+' :: rest => (digits? 10 rest).map fun n => (n : Int)
  | other => (digits? 10 other).map fun n => (n : Int)

/-- A double without its sign: digits, with an optional point among or around them and an optional
exponent. -/
def unsignedDouble? (s : List Char) : Option Float :=
  let whole := s.takeWhile Char.isDigit
  let afterWhole := s.dropWhile Char.isDigit
  let (part, rest) := match afterWhole with
    | '.' :: more => (more.takeWhile Char.isDigit, more.dropWhile Char.isDigit)
    | other => ([], other)
  let power : Option Int := match rest with
    | [] => some 0
    | 'e' :: more => exponent? more
    | 'E' :: more => exponent? more
    | _ => none
  match digits? 10 (whole ++ part), power with
  | some m, some e => some (nearest m (e - (part.length : Int)))
  | _, _ => none

/-- A double: a number, an infinity or not a number, with an optional sign. -/
def double? (s : List Char) : Option Float :=
  let (negative, body) := match s with
    | '-' :: rest => (true, rest)
    | '+' :: rest => (false, rest)
    | other => (false, other)
  let word := String.ofList (body.map Char.toLower)
  let magnitude :=
    if word == "inf" || word == "infinity" then some (Float.ofBits 0x7FF0000000000000)
    else if word == "nan" then some (Float.ofBits 0x7FF8000000000000)
    else unsignedDouble? body
  magnitude.map fun x => if negative then -x else x

end LiveTemplate.Decimal
