import LiveTemplate.Text.Unmarked

/-!
# Quoted text

A text between double quotes, with everything that would be ambiguous or invisible escaped: NUL,
tab, line feed and carriage return by a letter, the backslash and the double quote by a backslash,
and a character without a mark of its own by its number.
-/

namespace LiveTemplate.Text

/-- The digits of a number in base sixteen, lower case, without leading zeros. -/
def hexDigits (n : Nat) : List Char := Nat.toDigits 16 n

/-- A character as it stands inside a quoted text. -/
def escapeChar (c : Char) : List Char :=
  if c = '\x00' then ['\\', '0']
  else if c = '\t' then ['\\', 't']
  else if c = '\n' then ['\\', 'n']
  else if c = '\r' then ['\\', 'r']
  else if c = '"' then ['\\', '"']
  else if c = '\\' then ['\\', '\\']
  else if isUnmarked c then ['\\', 'u', '\x7b'] ++ hexDigits c.toNat ++ ['\x7d']
  else [c]

/-- A text with its escapes, without the quotes around it. -/
def escape (s : List Char) : List Char := s.flatMap escapeChar

/-- A text in quotes. -/
def quote (s : String) : String := "\"" ++ String.ofList (escape s.toList) ++ "\""

/-- Items separated by a comma and a blank. -/
def commaSeparated (items : List String) : String := ", ".intercalate items

/-- Items as an ordered collection is written. -/
def listed (items : List String) : String := "[" ++ commaSeparated items ++ "]"

/-- Items as a collection without order is written. -/
def braced (items : List String) : String := "\x7b" ++ commaSeparated items ++ "\x7d"

end LiveTemplate.Text
