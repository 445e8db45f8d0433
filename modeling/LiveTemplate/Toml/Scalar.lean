import LiveTemplate.Decimal.Numeral
import LiveTemplate.Toml.Value

/-!
# Numbers and moments

What may be written as a number, a date or a time. In a number an underscore may stand between two
digits. A whole number has 64 bits; a double is not too large, though it may be too far below zero. A
date is one of the calendar.
-/

namespace LiveTemplate.Toml

/-! ### Numbers -/

/-- The digits of a run, in which each underscore stands between two digits. -/
def plainDigits? (isDigit : Char → Bool) : List Char → Option (List Char)
  | [] => none
  | [c] => if isDigit c then some [c] else none
  | c :: '_' :: rest =>
    if isDigit c then (plainDigits? isDigit rest).map (c :: ·) else none
  | c :: d :: rest => if isDigit c then (plainDigits? isDigit (d :: rest)).map (c :: ·) else none

/-- A text without its sign. -/
def unsigned : List Char → List Char
  | '+' :: rest => rest
  | '-' :: rest => rest
  | other => other

/-- The digits of a whole part, which does not begin with a zero unless it is one. -/
def wholePart? (s : List Char) : Option (List Char) := do
  let digits ← plainDigits? Char.isDigit s
  match digits with
  | '0' :: _ :: _ => none
  | _ => pure digits

/-- Whether a character is a digit in a base. -/
def isDigitIn (base : Nat) (c : Char) : Bool := (Decimal.digitValue? base c).isSome

/-- Whether digits in a base are a whole number without sign in range. -/
def isNatural (base : Nat) (s : List Char) : Bool :=
  match plainDigits? (isDigitIn base) s with
  | some digits => ((Decimal.digits? base digits).filter (Int.ofNat · ≤ Int64.maxValue.toInt)).isSome
  | none => false

/-- Whether a text is a whole number. -/
def isInteger (s : List Char) : Bool :=
  match s with
  | '0' :: 'x' :: digits => isNatural 16 digits
  | '0' :: 'o' :: digits => isNatural 8 digits
  | '0' :: 'b' :: digits => isNatural 2 digits
  | _ =>
    match wholePart? (unsigned s) with
    | some digits =>
      let sign := if s.head? == some '-' then ['-'] else []
      (Decimal.int64? (sign ++ digits)).isSome
    | none => false

/-- Whether a text is an exponent behind its mark. -/
def isExponent (s : List Char) : Bool := (plainDigits? Char.isDigit (unsigned s)).isSome

/-- Whether a character marks an exponent. -/
def isExponentMark (c : Char) : Bool := c == 'e' || c == 'E'

/-- Whether a text is a number with a point, an exponent or both. -/
def isFractional (s : List Char) : Bool :=
  let body := unsigned s
  let significand := body.takeWhile fun c => !isExponentMark c
  let exponent := body.dropWhile fun c => !isExponentMark c
  let whole := significand.takeWhile (· != '.')
  let part := significand.dropWhile (· != '.')
  let wellFormed :=
    (wholePart? whole).isSome &&
    (match part with
      | [] => !exponent.isEmpty
      | _ :: digits => (plainDigits? Char.isDigit digits).isSome) &&
    (match exponent with
      | [] => true
      | _ :: digits => isExponent digits)
  let tooLarge := match Decimal.double? (s.filter (· != '_')) with
    | some x => x == Float.ofBits 0x7FF0000000000000
    | none => true
  wellFormed && !tooLarge

/-- Whether a text is an infinity or not a number. -/
def isSpecial (s : List Char) : Bool :=
  unsigned s == ['i', 'n', 'f'] || unsigned s == ['n', 'a', 'n']

/-! ### Moments -/

/-- The number that two digits denote. -/
def twoDigits? (a b : Char) : Option Nat :=
  if a.isDigit && b.isDigit then Decimal.digits? 10 [a, b] else none

/-- How many days a month has. -/
def daysIn (year month : Nat) : Nat :=
  if month = 2 then
    if year % 4 = 0 ∧ (year % 100 ≠ 0 ∨ year % 400 = 0) then 29 else 28
  else if month = 4 ∨ month = 6 ∨ month = 9 ∨ month = 11 then 30
  else 31

/-- Whether a text begins with a date, and what follows it. -/
def date? : List Char → Option (List Char)
  | y₁ :: y₂ :: y₃ :: y₄ :: '-' :: m₁ :: m₂ :: '-' :: d₁ :: d₂ :: rest => do
    let century ← twoDigits? y₁ y₂
    let year ← twoDigits? y₃ y₄
    let month ← twoDigits? m₁ m₂
    let day ← twoDigits? d₁ d₂
    if 1 ≤ month ∧ month ≤ 12 ∧ 1 ≤ day ∧ day ≤ daysIn (century * 100 + year) month then some rest
    else none
  | _ => none

/-- Whether a text begins with a time of day, and what follows it. -/
def time? : List Char → Option (List Char)
  | h₁ :: h₂ :: ':' :: m₁ :: m₂ :: ':' :: s₁ :: s₂ :: rest => do
    let hour ← twoDigits? h₁ h₂
    let minute ← twoDigits? m₁ m₂
    let second ← twoDigits? s₁ s₂
    if hour ≤ 23 ∧ minute ≤ 59 ∧ second ≤ 60 then
      match rest with
      | '.' :: more =>
        if (more.takeWhile Char.isDigit).isEmpty then none else some (more.dropWhile Char.isDigit)
      | _ => some rest
    else none
  | _ => none

/-- Whether a text is a distance from universal time, or nothing. -/
def isOffset : List Char → Bool
  | [] => true
  | ['Z'] => true
  | ['z'] => true
  | [sign, h₁, h₂, ':', m₁, m₂] =>
    (sign == '+' || sign == '-') &&
      match twoDigits? h₁ h₂, twoDigits? m₁ m₂ with
      | some hour, some minute => hour ≤ 23 && minute ≤ 59
      | _, _ => false
  | _ => false

/-- Whether a text is a date alone. -/
def isDate (s : List Char) : Bool := date? s == some []

/-- Whether a text is a date, a time of day, or both with or without a distance. -/
def isMoment (s : List Char) : Bool :=
  isDate s || time? s == some [] ||
    match date? s with
    | some (mark :: rest) =>
      (mark == 'T' || mark == 't' || mark == ' ') &&
        match time? rest with
        | some offset => isOffset offset
        | none => false
    | _ => false

/-- The value that a word denotes which is not quoted. -/
def word? (s : List Char) : Option Value :=
  if s == "true".toList || s == "false".toList then some .scalar
  else if isMoment s then some .moment
  else if isInteger s || isFractional s || isSpecial s then some .scalar
  else none

end LiveTemplate.Toml
