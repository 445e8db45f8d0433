/-!
# Documents

The values of a JSON document. The fields of an object keep the order in which they are written, and
a key may occur twice; readers say what they make of that.

A part of a document can be written correctly and still denote nothing. Such a part is `unreadable`:
it does no harm where nobody looks at it, and no reader accepts it.
-/

namespace LiveTemplate

namespace Json

/-- A number of a document. Whole numbers in 64 bits are exact; anything else is a double. -/
inductive Number
  | natural (n : UInt64)
  /-- A whole number below zero. -/
  | negative (n : Int64)
  | double (x : Float)

/-- A whole number. -/
def Number.ofInt64 (n : Int64) : Number :=
  if n < 0 then .negative n else .natural n.toUInt64

/-- The number as a 64-bit signed whole number, if it is written as one. -/
def Number.int64? : Number → Option Int64
  | .natural n => if (n.toNat : Int) ≤ Int64.maxValue.toInt then some n.toInt64 else none
  | .negative n => some n
  | .double _ => none

/-- The number as a 64-bit whole number without sign, if it is written as one. -/
def Number.uint64? : Number → Option UInt64
  | .natural n => some n
  | .negative _ => none
  | .double _ => none

/-- The double nearest to the number. -/
def Number.toDouble : Number → Float
  | .natural n => n.toFloat
  | .negative n => n.toFloat
  | .double x => x

end Json

/-- A value of a document. -/
inductive Json
  | null
  | bool (b : Bool)
  | number (n : Json.Number)
  | string (s : String)
  | array (items : List Json)
  | object (fields : List (String × Json))
  /-- Written correctly, but a number that no double can hold, a text with half of a surrogate pair,
  an object with such a text as a key, or a value that lies too deep. -/
  | unreadable

namespace Json

instance : Inhabited Json := ⟨.null⟩

/-- A whole number. -/
def ofInt64 (n : Int64) : Json := .number (.ofInt64 n)

/-- A natural number that fits in 64 bits. -/
def ofNat (n : Nat) : Json := .number (.natural (UInt64.ofNat n))

/-- A double; an infinity or not a number becomes `null`. -/
def ofDouble (x : Float) : Json :=
  if x.isFinite then .number (.double x) else .null

/-- The text of a string. -/
def text? : Json → Option String
  | .string s => some s
  | _ => none

/-- The items of an array. -/
def items? : Json → Option (List Json)
  | .array items => some items
  | _ => none

/-- The fields of an object. -/
def fields? : Json → Option (List (String × Json))
  | .object fields => some fields
  | _ => none

/-- A 64-bit signed whole number. -/
def int64? : Json → Option Int64
  | .number n => n.int64?
  | _ => none

/-- A 64-bit whole number without sign. -/
def uint64? : Json → Option UInt64
  | .number n => n.uint64?
  | _ => none

/-- A number, as a double. -/
def double? : Json → Option Float
  | .number n => some n.toDouble
  | _ => none

/-- The last value under a key of an object. -/
def field? (key : String) : Json → Option Json
  | .object fields => (fields.reverse.lookup key)
  | _ => none

/-- Entries in the order of their keys; of two entries with one key the later stays. -/
def sortedByKey {α : Type} (entries : List (String × α)) : List (String × α) :=
  let kept := entries.reverse.foldl
    (fun acc e => if (acc.lookup e.1).isSome then acc else e :: acc) []
  kept.mergeSort fun a b => (compare a.1 b.1).isLE

/-- An object with its fields in the order of their keys; of two fields with one key the later
stays. -/
def record (fields : List (String × Json)) : Json := .object (sortedByKey fields)

mutual

/-- Whether every part of a document is readable. -/
def isReadable : Json → Bool
  | .null => true
  | .bool _ => true
  | .number _ => true
  | .string _ => true
  | .array items => allReadable items
  | .object fields => fieldsReadable fields
  | .unreadable => false

/-- Whether every part of several documents is readable. -/
def allReadable : List Json → Bool
  | [] => true
  | j :: rest => j.isReadable && allReadable rest

/-- Whether every part of the fields of an object is readable. -/
def fieldsReadable : List (String × Json) → Bool
  | [] => true
  | (_, j) :: rest => j.isReadable && fieldsReadable rest

end

end Json

end LiveTemplate
