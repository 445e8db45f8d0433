import LiveTemplate.SortedSet
import LiveTemplate.Text.Quoted
import LiveTemplate.Value.Timestamp

/-!
# Payloads

What a value holds: nothing, a scalar, or a collection of texts or of whole numbers. Each payload
has a kind, which a value keeps for life, and each kind has a zero.

Payloads are compared by `==`, which is the equality of doubles where a payload is one, so a payload
that is not a number differs from itself.
-/

namespace LiveTemplate

/-- The kinds of payload. -/
inductive Kind
  | empty
  | string
  | stringList
  | stringSet
  | int
  | intList
  | intSet
  | dbl
  | duration
  | timestamp
  deriving Repr, DecidableEq

/-- The name of a kind. -/
def Kind.name : Kind → String
  | .empty => "empty"
  | .string => "string"
  | .stringList => "string_list"
  | .stringSet => "string_set"
  | .int => "int"
  | .intList => "int_list"
  | .intSet => "int_set"
  | .dbl => "dbl"
  | .duration => "duration"
  | .timestamp => "timestamp"

/-- All kinds. -/
def Kind.all : List Kind :=
  [.empty, .string, .stringList, .stringSet, .int, .intList, .intSet, .dbl, .duration, .timestamp]

/-- The kind with a given name. -/
def Kind.ofName? (name : String) : Option Kind := Kind.all.find? (·.name == name)

/-- What a value holds. -/
inductive Payload
  | empty
  | string (s : String)
  | stringList (items : List String)
  | stringSet (items : SortedSet String)
  | int (n : Int64)
  | intList (items : List Int64)
  | intSet (items : SortedSet Int64)
  | dbl (x : Float)
  /-- A signed number of nanoseconds. -/
  | duration (nanos : Int64)
  | timestamp (t : Timestamp)

namespace Payload

instance : Inhabited Payload := ⟨.empty⟩

/-- The kind of a payload. -/
def kind : Payload → Kind
  | .empty => .empty
  | .string _ => .string
  | .stringList _ => .stringList
  | .stringSet _ => .stringSet
  | .int _ => .int
  | .intList _ => .intList
  | .intSet _ => .intSet
  | .dbl _ => .dbl
  | .duration _ => .duration
  | .timestamp _ => .timestamp

instance : BEq Payload where
  beq
    | .empty, .empty => true
    | .string a, .string b => a == b
    | .stringList a, .stringList b => a == b
    | .stringSet a, .stringSet b => decide (a = b)
    | .int a, .int b => a == b
    | .intList a, .intList b => a == b
    | .intSet a, .intSet b => decide (a = b)
    | .dbl a, .dbl b => a == b
    | .duration a, .duration b => a == b
    | .timestamp a, .timestamp b => a == b
    | _, _ => false

/-- The whole number at or below a double. -/
def ofFloor (x : Float) : Payload := .int (floorInt64 x)

/-- The zero of the same kind. -/
def zero : Payload → Payload
  | .empty => .empty
  | .string _ => .string ""
  | .stringList _ => .stringList []
  | .stringSet _ => .stringSet .empty
  | .int _ => .int 0
  | .intList _ => .intList []
  | .intSet _ => .intSet .empty
  | .dbl _ => .dbl 0.0
  | .duration _ => .duration 0
  | .timestamp _ => .timestamp .epoch

@[simp] theorem kind_zero (p : Payload) : p.zero.kind = p.kind := by cases p <;> rfl

/-- Whether a payload is the zero of its kind. -/
def isZero (p : Payload) : Bool := p == p.zero

/-- Whether a payload is a list or a set. -/
def isCollection : Payload → Bool
  | .stringList _ => true
  | .stringSet _ => true
  | .intList _ => true
  | .intSet _ => true
  | _ => false

/-- A whole number in decimal. -/
def showInt (n : Int64) : String := toString n.toInt

/-- A payload as a reader sees it. -/
def display : Payload → String
  | .empty => ""
  | .string s => s
  | .stringList items => Text.commaSeparated items
  | .stringSet items => Text.commaSeparated items.items
  | .int n => showInt n
  | .intList items => Text.commaSeparated (items.map showInt)
  | .intSet items => Text.commaSeparated (items.items.map showInt)
  | .dbl x => Decimal.Layout.plain.write x
  | .duration nanos => showDuration nanos
  | .timestamp t => t.display

/-- A payload with its kind, texts in quotes. -/
def describe (p : Payload) : String :=
  match p with
  | .empty => "empty"
  | .string s => typed (Text.quote s)
  | .stringList items => typed (Text.listed (items.map Text.quote))
  | .stringSet items => typed (Text.braced (items.items.map Text.quote))
  | .int n => typed (showInt n)
  | .intList items => typed (Text.listed (items.map showInt))
  | .intSet items => typed (Text.braced (items.items.map showInt))
  | .dbl x => typed (Decimal.Layout.typed.write x)
  | .duration nanos => typed (showDuration nanos)
  | .timestamp t => typed t.display
where
  /-- The kind in front of the rest. -/
  typed (body : String) : String := p.kind.name ++ " " ++ body

end Payload

end LiveTemplate
