import LiveTemplate.Json.Basic
import LiveTemplate.Value.Payload

/-!
# Tagged values

A payload travels in a document as a pair of a tag and some content. Texts travel as they are, or as
indices into a table of texts that travels beside them; the tag says which.

The readers take the content of a tagged value apart and say what is wrong with it; `Tagged.payload`
puts a payload together.
-/

namespace LiveTemplate.Wire

/-- The tags of a tagged value. -/
inductive Tag
  | empty
  | string
  | stringIndex
  | stringList
  | stringListIndices
  | stringSet
  | stringSetIndices
  | int
  | intList
  | intSet
  | dbl
  | duration
  | timestamp
  deriving Repr, DecidableEq

/-- All tags. -/
def Tag.all : List Tag :=
  [.empty, .string, .stringIndex, .stringList, .stringListIndices, .stringSet, .stringSetIndices,
    .int, .intList, .intSet, .dbl, .duration, .timestamp]

/-- The name of a tag. -/
def Tag.name : Tag → String
  | .empty => "empty"
  | .string => "string"
  | .stringIndex => "string_index"
  | .stringList => "string_list"
  | .stringListIndices => "string_list_indices"
  | .stringSet => "string_set"
  | .stringSetIndices => "string_set_indices"
  | .int => "int"
  | .intList => "int_list"
  | .intSet => "int_set"
  | .dbl => "dbl"
  | .duration => "duration"
  | .timestamp => "timestamp"

/-- The tag with a given name. -/
def Tag.ofName? (name : String) : Option Tag := Tag.all.find? (·.name == name)

/-- A tag and its content. -/
structure Tagged where
  tag : Tag
  content : Json

/-- The tag that a document denotes: its name, or its name as the only key of an object that holds
nothing. -/
def Tag.ofJson? : Json → Option Tag
  | .string name => Tag.ofName? name
  | .object [(name, .null)] => Tag.ofName? name
  | _ => none

/-- The tagged value that a document denotes: a pair of a tag and any content. -/
def Tagged.ofJson? : Json → Option Tagged
  | .array [tag, content] => do
    let tag ← Tag.ofJson? tag
    if content.isReadable then some ⟨tag, content⟩ else none
  | _ => none

/-- The tagged values under the keys of an object, in the order of the keys. -/
def Tagged.entries? (j : Json) : Option (List (String × Tagged)) := do
  let fields ← j.fields?
  let entries ← fields.mapM fun e => (Tagged.ofJson? e.2).map fun w => (e.1, w)
  pure (Json.sortedByKey entries)

/-- What the content of a tagged value should have been. -/
inductive Expectation
  | aString
  | anIndex
  | aStringTag
  | anArray
  | strings
  | indices
  | aStringsTag
  | aNumber
  | integers
  | secondsAndNanos
  | wholeSeconds
  | wholeNanos
  deriving Repr, DecidableEq

/-- The wording of an expectation. -/
def Expectation.message : Expectation → String
  | .aString => "expected a string"
  | .anIndex => "expected a non-negative index"
  | .aStringTag => "not a string type"
  | .anArray => "expected an array"
  | .strings => "expected array of strings"
  | .indices => "expected array of indices"
  | .aStringsTag => "not a string sequence type"
  | .aNumber => "expected a number"
  | .integers => "expected array of integers"
  | .secondsAndNanos => "expected [seconds, nanos]"
  | .wholeSeconds => "seconds must be an integer"
  | .wholeNanos => "nanos must be an integer"

/-- Why a tagged value cannot be read. -/
inductive Misfit
  | badContent (tag : Tag) (expectation : Expectation)
  | outOfRange (index : UInt64) (size : Nat)
  deriving Repr, DecidableEq

/-- The wording of a misfit. -/
def Misfit.message : Misfit → String
  | .badContent tag expectation => "bad '" ++ tag.name ++ "' payload: " ++ expectation.message
  | .outOfRange index size =>
    "string table index " ++ toString index.toNat ++ " out of range (table has " ++ toString size ++
      " entries)"

namespace Tagged

/-- The content, if it is what is expected. -/
def expect {α : Type} (w : Tagged) (expectation : Expectation) (found : Option α) :
    Except Misfit α :=
  match found with
  | some a => .ok a
  | none => .error (.badContent w.tag expectation)

/-- The text at an index of a table. -/
def lookUp (table : List String) (index : UInt64) : Except Misfit String :=
  match table[index.toNat]? with
  | some s => .ok s
  | none => .error (.outOfRange index table.length)

/-- One text. -/
def readString (table : List String) (w : Tagged) : Except Misfit String :=
  match w.tag with
  | .string => w.expect .aString w.content.text?
  | .stringIndex => do lookUp table (← w.expect .anIndex w.content.uint64?)
  | _ => .error (.badContent w.tag .aStringTag)

/-- A sequence of texts. -/
def readStrings (table : List String) (w : Tagged) : Except Misfit (List String) := do
  let items ← w.expect .anArray w.content.items?
  match w.tag with
  | .stringList => items.mapM fun item => w.expect .strings item.text?
  | .stringSet => items.mapM fun item => w.expect .strings item.text?
  | .stringListIndices => items.mapM fun item => do
    lookUp table (← w.expect .indices item.uint64?)
  | .stringSetIndices => items.mapM fun item => do
    lookUp table (← w.expect .indices item.uint64?)
  | _ => .error (.badContent w.tag .aStringsTag)

/-- A number as a whole number: itself if it is one in range, the floor of the nearest double
otherwise. -/
def wholeNumber? (content : Json) : Option Int64 :=
  content.int64?.or (content.double?.map floorInt64)

/-- One whole number. -/
def readInt (w : Tagged) : Except Misfit Int64 := w.expect .aNumber (wholeNumber? w.content)

/-- A sequence of whole numbers. -/
def readInts (w : Tagged) : Except Misfit (List Int64) := do
  let items ← w.expect .anArray w.content.items?
  items.mapM fun item => w.expect .integers (wholeNumber? item)

/-- One double. -/
def readDouble (w : Tagged) : Except Misfit Float := w.expect .aNumber w.content.double?

/-- Seconds and nanoseconds. -/
def readTimestamp (w : Tagged) : Except Misfit (Int64 × Int64) :=
  match w.content with
  | .array [seconds, nanos] => do
    let s ← w.expect .wholeSeconds seconds.int64?
    let n ← w.expect .wholeNanos nanos.int64?
    pure (s, n)
  | _ => .error (.badContent w.tag .secondsAndNanos)

/-- The payload of a tagged value, its indices read in `table`. -/
def payload (table : List String) (w : Tagged) : Except Misfit Payload :=
  match w.tag with
  | .empty => .ok .empty
  | .string => (w.readString table).map .string
  | .stringIndex => (w.readString table).map .string
  | .stringList => (w.readStrings table).map .stringList
  | .stringListIndices => (w.readStrings table).map .stringList
  | .stringSet => (w.readStrings table).map fun items => .stringSet (.ofList items)
  | .stringSetIndices => (w.readStrings table).map fun items => .stringSet (.ofList items)
  | .int => w.readInt.map .int
  | .intList => w.readInts.map .intList
  | .intSet => w.readInts.map fun items => .intSet (.ofList items)
  | .dbl => w.readDouble.map .dbl
  | .duration => w.readInt.map .duration
  | .timestamp => w.readTimestamp.map fun (s, n) => .timestamp (.ofParts s n)

/-- The payloads of tagged values under keys, from the first to the last. -/
def payloads (table : List String) (entries : List (String × Tagged)) :
    Except Misfit (List (String × Payload)) :=
  entries.mapM fun e => (e.2.payload table).map fun p => (e.1, p)

/-- A tagged value as a document. -/
def toJson (w : Tagged) : Json := .array [.string w.tag.name, w.content]

end Tagged

end LiveTemplate.Wire
