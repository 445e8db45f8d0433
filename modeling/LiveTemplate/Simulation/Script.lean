import LiveTemplate.Json.Reader
import LiveTemplate.Wire.Basic

/-!
# Scripts

A script is a sequence of steps to play against a template, with a table of texts for the tagged
values in it. The content of tagged values is not looked at before a step is played.

A script is written as an object, or as the list of its fields in their order. A step is an object
with one key, which says what is to be done. Fields that are not known are passed over, readable or
not, and a known field is not written twice.
-/

namespace LiveTemplate.Simulation

open Wire

/-- A step of a script. -/
inductive Step
  /-- Something of a kind happens to a target. -/
  | update (target kind : String) (locals : List (String × Tagged))
  /-- A global is set. -/
  | set (key : String) (value : Tagged)
  /-- The appearance of a target is asked for. -/
  | observe (target kind : String) (locals : List (String × Tagged))
  /-- Time passes. -/
  | advance (ms : UInt64)

/-- A script. -/
structure Script where
  strings : List String
  steps : List Step

/-- The name of a step in reports. -/
def Step.label : Step → String
  | .update target kind _ => "update " ++ target ++ "/" ++ kind
  | .set key _ => "set " ++ key
  | .observe target kind _ => "match " ++ target ++ "/" ++ kind
  | .advance ms => "advance " ++ toString ms.toNat ++ "ms"

/-! ### Reading -/

/-- How the fields of a record may be written. -/
inductive RecordForm
  /-- By name only. -/
  | named
  /-- By name, or in a list. -/
  | namedOrListed
  deriving Repr, DecidableEq

/-- The known fields of a record, each at most once. -/
def fields? (n : RecordForm) (names : List String) (j : Json) : Option (List (String × Json)) :=
  match j with
  | .object written =>
    let known := written.filter fun e => names.contains e.1
    if names.all fun name => (known.filter fun e => e.1 == name).length ≤ 1 then some known else none
  | .array items =>
    if n = .namedOrListed ∧ items.length ≤ names.length then some (names.zip items) else none
  | _ => none

/-- The text in a field. -/
def text? (fields : List (String × Json)) (name : String) : Option String :=
  (fields.lookup name).bind Json.text?

/-- The local values of a step; none are written if there are none. -/
def locals? (fields : List (String × Json)) : Option (List (String × Tagged)) :=
  match fields.lookup "local" with
  | none => some []
  | some j => Tagged.entries? j

/-- The step that a document denotes, its content in a given form. -/
def Step.ofJson? (n : RecordForm) (j : Json) : Option Step :=
  match j with
  | .object [("update", content)] => do
    let fields ← fields? n ["target", "type", "local"] content
    pure (.update (← text? fields "target") (← text? fields "type") (← locals? fields))
  | .object [("set", content)] => do
    let fields ← fields? n ["key", "value"] content
    pure (.set (← text? fields "key") (← (fields.lookup "value").bind Tagged.ofJson?))
  | .object [("match", content)] => do
    let fields ← fields? n ["target", "type", "local"] content
    pure (.observe (← text? fields "target") (← text? fields "type") (← locals? fields))
  | .object [("advance", content)] => do
    let fields ← fields? n ["ms"] content
    pure (.advance (← (fields.lookup "ms").bind Json.uint64?))
  | _ => none

/-- The table of texts of a script; it may be left out. -/
def strings? (fields : List (String × Json)) : Option (List String) :=
  match fields.lookup "string_table" with
  | none => some []
  | some j => do (← j.items?).mapM Json.text?

/-- The script that a document denotes, the content of its steps in a given form. -/
def Script.ofJson? (n : RecordForm) (j : Json) : Option Script := do
  let fields ← fields? .namedOrListed ["string_table", "steps"] j
  let strings ← strings? fields
  let steps ← (fields.lookup "steps").bind Json.items?
  pure ⟨strings, ← steps.mapM (Step.ofJson? n)⟩

/-- The script that a source text denotes. -/
def Script.parse? (source : String) : Option Script :=
  (Json.parse? source).bind (Script.ofJson? .namedOrListed)

/-! ### Writing -/

/-- Local values as a document. -/
def localsJson (locals : List (String × Tagged)) : Json :=
  .object (locals.map fun e => (e.1, e.2.toJson))

/-- A step as a document. -/
def Step.toJson : Step → Json
  | .update target kind locals =>
    .object [("update", .object [("target", .string target), ("type", .string kind),
      ("local", localsJson locals)])]
  | .set key value => .object [("set", .object [("key", .string key), ("value", value.toJson)])]
  | .observe target kind locals =>
    .object [("match", .object [("target", .string target), ("type", .string kind),
      ("local", localsJson locals)])]
  | .advance ms => .object [("advance", .object [("ms", .number (.natural ms))])]

/-- A script as a document. -/
def Script.toJson (s : Script) : Json :=
  .object [("string_table", .array (s.strings.map .string)),
    ("steps", .array (s.steps.map Step.toJson))]

end LiveTemplate.Simulation
