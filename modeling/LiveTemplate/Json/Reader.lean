import LiveTemplate.Json.Basic
import LiveTemplate.Decimal.Numeral

/-!
# Reading documents

`Json.parse?` reads a whole document: one value with blanks around it. Strings hold no control
characters.

The form of a document is looked at everywhere; what its parts denote matters only where they are
read. So a string with half of a surrogate pair, a number too large for a double and a value nested
more than 127 deep do not spoil a document: they become `Json.unreadable`.

A number with a fraction or an exponent is read from its leading digits, as many as fit in 64 bits,
scaled by one power of ten. The scaling rounds once or twice, so the last bit of a number with more
than fifteen digits may differ from the nearest double.
-/

namespace LiveTemplate.Json

/-- The blanks between the parts of a document. -/
def isBlank (c : Char) : Bool := c == ' ' || c == '\n' || c == '\t' || c == '\r'

/-- Drops the blanks a text begins with. -/
def skipBlanks (s : List Char) : List Char := s.dropWhile isBlank

/-! ### Strings -/

/-- What a string is written with: characters, and the halves of surrogate pairs. -/
inductive Mark
  | char (c : Char)
  /-- The first half of a pair, by its ten bits. -/
  | high (bits : Nat)
  /-- The second half of a pair, by its ten bits. -/
  | low (bits : Nat)

/-- The mark with a code of four hexadecimal digits. -/
def Mark.ofUnit (n : Nat) : Mark :=
  if 0xD800 ≤ n ∧ n < 0xDC00 then .high (n - 0xD800)
  else if 0xDC00 ≤ n ∧ n < 0xE000 then .low (n - 0xDC00)
  else .char (Char.ofNat n)

/-- The character that a letter after a backslash stands for. -/
def escaped? : Char → Option Char
  | '"' => some '"'
  | '\\' => some '\\'
  | '/' => some '/'
  | 'b' => some '\x08'
  | 'f' => some '\x0c'
  | 'n' => some '\n'
  | 'r' => some '\r'
  | 't' => some '\t'
  | _ => none

/-- The marks of a string up to its closing quote, and what follows it. -/
def marks? : List Char → Option (List Mark × List Char)
  | [] => none
  | '"' :: rest => some ([], rest)
  | '\\' :: 'u' :: a :: b :: c :: d :: rest => do
    let n ← Decimal.digits? 16 [a, b, c, d]
    let (marks, after) ← marks? rest
    pure (Mark.ofUnit n :: marks, after)
  | '\\' :: letter :: rest => do
    let c ← escaped? letter
    let (marks, after) ← marks? rest
    pure (.char c :: marks, after)
  | c :: rest =>
    if c = '\\' ∨ c.toNat < 0x20 then none
    else do
      let (marks, after) ← marks? rest
      pure (.char c :: marks, after)

/-- The characters that marks denote. The halves of a pair stand side by side and make a character
beyond the basic plane; marks with a half alone denote nothing. -/
def chars? : List Mark → Option (List Char)
  | [] => some []
  | .char c :: rest => (chars? rest).map (c :: ·)
  | .high a :: .low b :: rest => (chars? rest).map (Char.ofNat (0x10000 + a * 0x400 + b) :: ·)
  | .high _ :: _ => none
  | .low _ :: _ => none

/-- The text after an opening quote, if it denotes one, and what follows it. -/
def quotedText? (s : List Char) : Option (Option String × List Char) :=
  (marks? s).map fun (marks, after) => ((chars? marks).map String.ofList, after)

/-! ### Numbers -/

/-- Appends digits to a number as long as it fits in 64 bits; also gives the digits left over. -/
def gather (n : Nat) : List Char → Nat × List Char
  | [] => (n, [])
  | c :: rest =>
    let next := n * 10 + (c.toNat - '0'.toNat)
    if next < UInt64.size then gather next rest else (n, c :: rest)

/-- A magnitude times a power of ten, in steps of at most `10 ^ 308`, unless it is too large. -/
def scale? : Nat → Float → Int → Option Float
  | 0, _, _ => none
  | steps + 1, x, power =>
    if power.natAbs ≤ 308 then
      let ten := Decimal.nearest 1 power.natAbs
      if 0 ≤ power then
        if (x * ten).isFinite then some (x * ten) else none
      else some (x / ten)
    else if x == 0.0 then some x
    else if 0 ≤ power then none
    else scale? steps (x / Decimal.nearest 1 308) (power + 308)

/-- A number from its digits before and after the point, and its exponent. -/
def ofParts (negative : Bool) (whole part : List Char) (power : Int) : Json :=
  let (head, skipped) := gather 0 whole
  let (digits, dropped) := gather head part
  let used : Int := (part.length : Int) - dropped.length
  let start := (UInt64.ofNat digits).toFloat
  match scale? 8 start ((skipped.length : Int) - used + power) with
  | some x => .number (.double (if negative then -x else x))
  | none => .unreadable

/-- A number written as digits alone. -/
def ofDigits (negative : Bool) (whole : List Char) : Json :=
  let (n, skipped) := gather 0 whole
  if skipped.isEmpty then
    if !negative then .number (.natural (UInt64.ofNat n))
    -- A zero with a sign keeps its sign, which a whole number cannot.
    else if n = 0 then .number (.double (-0.0))
    else if Int64.minValue.toInt ≤ -(n : Int) then .number (.negative (Int64.ofInt (-(n : Int))))
    else .number (.double (-(UInt64.ofNat n).toFloat))
  else ofParts negative whole [] 0

/-- A number, and what follows it. A whole part has no zero in front of other digits, and a point or
an exponent mark is followed by digits. -/
def number? (s : List Char) : Option (Json × List Char) :=
  let (negative, body) := match s with
    | '-' :: rest => (true, rest)
    | other => (false, other)
  let whole := body.takeWhile Char.isDigit
  let rest := body.dropWhile Char.isDigit
  if whole.isEmpty || (whole.head? == some '0' && whole.length > 1) then none
  else
    let exponent (part : List Char) (s : List Char) : Option (Json × List Char) :=
      let (down, digits) := match s with
        | '-' :: more => (true, more)
        | '+' :: more => (false, more)
        | other => (false, other)
      (Decimal.digits? 10 (digits.takeWhile Char.isDigit)).map fun n =>
        (ofParts negative whole part (if down then -(n : Int) else n),
          digits.dropWhile Char.isDigit)
    let afterPoint (part rest : List Char) : Option (Json × List Char) :=
      match rest with
      | 'e' :: more => exponent part more
      | 'E' :: more => exponent part more
      | other => some (ofParts negative whole part 0, other)
    match rest with
    | '.' :: more =>
      let part := more.takeWhile Char.isDigit
      if part.isEmpty then none else afterPoint part (more.dropWhile Char.isDigit)
    | 'e' :: more => exponent [] more
    | 'E' :: more => exponent [] more
    | other => some (ofDigits negative whole, other)

/-! ### Values -/

/-- A value that opens a level of nesting, `depth` levels being left around it; it is not readable
when they are used up. -/
def nested (depth : Nat) (value : Json) : Json := if depth = 0 then .unreadable else value

/-- An object with the given keys and values. It is not readable when one of its keys is not. -/
def ofFields (fields : List (Option String × Json)) : Json :=
  match fields.mapM fun e => e.1.map fun key => (key, e.2) with
  | some fields => .object fields
  | none => .unreadable

mutual

/-- A value, and what follows it. `depth` is the number of levels that may still be opened. -/
def readValue? : Nat → Nat → List Char → Option (Json × List Char)
  | 0, _, _ => none
  | fuel + 1, depth, s =>
    match skipBlanks s with
    | 'n' :: 'u' :: 'l' :: 'l' :: rest => some (.null, rest)
    | 't' :: 'r' :: 'u' :: 'e' :: rest => some (.bool true, rest)
    | 'f' :: 'a' :: 'l' :: 's' :: 'e' :: rest => some (.bool false, rest)
    | '"' :: rest =>
      (quotedText? rest).map fun (text, after) => ((text.map Json.string).getD .unreadable, after)
    | '[' :: rest =>
      match skipBlanks rest with
      | ']' :: after => some (nested depth (.array []), after)
      | more => (readItems? fuel (depth - 1) more).map fun (items, after) =>
        (nested depth (.array items), after)
    | '\x7b' :: rest =>
      match skipBlanks rest with
      | '\x7d' :: after => some (nested depth (.object []), after)
      | more => (readFields? fuel (depth - 1) more).map fun (fields, after) =>
        (nested depth (ofFields fields), after)
    | other => number? other

/-- The items of an array up to its closing bracket, at least one. -/
def readItems? : Nat → Nat → List Char → Option (List Json × List Char)
  | 0, _, _ => none
  | fuel + 1, depth, s => do
    let (item, after) ← readValue? fuel depth s
    match skipBlanks after with
    | ',' :: more =>
      let (rest, done) ← readItems? fuel depth more
      pure (item :: rest, done)
    | ']' :: more => pure ([item], more)
    | _ => none

/-- The fields of an object up to its closing brace, at least one. -/
def readFields? : Nat → Nat → List Char → Option (List (Option String × Json) × List Char)
  | 0, _, _ => none
  | fuel + 1, depth, s =>
    match skipBlanks s with
    | '"' :: keyStart => do
      let (key, afterKey) ← quotedText? keyStart
      match skipBlanks afterKey with
      | ':' :: valueStart =>
        let (value, after) ← readValue? fuel depth valueStart
        match skipBlanks after with
        | ',' :: more =>
          let (rest, done) ← readFields? fuel depth more
          pure ((key, value) :: rest, done)
        | '\x7d' :: more => pure ([(key, value)], more)
        | _ => none
      | _ => none
    | _ => none

end

/-- Reads a whole document. -/
def parse? (source : String) : Option Json :=
  let s := source.toList
  match readValue? (s.length + 1) 127 s with
  | some (document, rest) => if (skipBlanks rest).isEmpty then some document else none
  | none => none

end LiveTemplate.Json
