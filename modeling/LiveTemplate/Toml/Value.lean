/-!
# Values of a configuration

What a TOML document denotes: a table of values under keys. Only texts, arrays and tables keep what
they hold; numbers, truths and moments are told apart from those and no further.
-/

namespace LiveTemplate.Toml

/-- A value. -/
inductive Value
  | text (s : String)
  /-- A number or a truth. -/
  | scalar
  /-- A date, a time of day, or both. -/
  | moment
  | array (items : List Value)
  | table (entries : List (String × Value))

namespace Value

/-- The text of a value that is one. -/
def text? : Value → Option String
  | .text s => some s
  | _ => none

/-- The items of an array. -/
def items? : Value → Option (List Value)
  | .array items => some items
  | _ => none

end Value

end LiveTemplate.Toml
