import LiveTemplate.Decimal.Numeral
import LiveTemplate.Expr.Interactions
import LiveTemplate.Template.Scope

/-!
# Literals, references and maps of values

How a template writes a payload, a reference to a value, and a map of values. Whole numbers may be
written with a fraction, and are floored.
-/

namespace LiveTemplate.Template

open Markup

/-- The whole number that a text denotes: a numeral in range as it is, another finite number
floored. Blanks around it do not count. -/
def integer? (text : String) : Option Int64 :=
  let s := Text.trim text.toList
  (Decimal.int64? s).or (((Decimal.double? s).filter Float.isFinite).map floorInt64)

namespace Scope

/-- A payload written as the text of an element. -/
def scalar (s : Scope) (e : Element) (read : String → Option Payload) : Except Problem Payload :=
  if e.elements.isEmpty then s.expect e (.unreadableText e.text) (read e.text)
  else s.refuse e .notTextOnly

/-- The texts of the strings inside an element. -/
def strings (s : Scope) (e : Element) : Except Problem (List String) := do
  let items ← s.elements e
  items.mapM fun item => if item.name = "string" then .ok item.text else s.refuse item .notAString

/-- The numbers inside an element. -/
def integers (s : Scope) (e : Element) : Except Problem (List Int64) := do
  let items ← s.elements e
  items.mapM fun item =>
    if item.name = "int" then s.expect item (.unreadableText item.text) (integer? item.text)
    else s.refuse item .notAnInt

/-- A whole number written as an attribute. -/
def integerAttr (s : Scope) (e : Element) (key : String) : Except Problem Int64 := do
  let raw ← s.attr e key
  s.expect e (.unreadableNumber key) (integer? raw)

/-- A payload. -/
def literal (s : Scope) (e : Element) : Except Problem Payload :=
  match e.name with
  | "empty" => (s.childless e).map fun _ => .empty
  | "string" => s.scalar e fun text => some (.string text)
  | "int" => s.scalar e fun text => (integer? text).map .int
  | "dbl" => s.scalar e fun text => (Decimal.double? text.toList).map .dbl
  | "duration" => s.scalar e fun text => (integer? text).map .duration
  | "timestamp" => do
    s.childless e
    let seconds ← s.integerAttr e "seconds"
    let nanos ← match e.attr? "nanos" with
      | some _ => s.integerAttr e "nanos"
      | none => .ok 0
    pure (.timestamp (.ofParts seconds nanos))
  | "string-list" => (s.strings e).map .stringList
  | "string-set" => (s.strings e).map fun items => .stringSet (.ofList items)
  | "int-list" => (s.integers e).map .intList
  | "int-set" => (s.integers e).map fun items => .intSet (.ofList items)
  | _ => s.refuse e .notAValue

/-- A reference to a global that is declared. -/
def globalRef (s : Scope) (e : Element) : Except Problem String := do
  s.childless e
  let key ← s.attr e "key"
  if s.globals.contains key then pure key else s.refuse e (.unknownGlobal key)

/-- A reference to a value. -/
def reference (s : Scope) (e : Element) : Except Problem (Reference Payload) :=
  match e.name with
  | "global-ref" => (s.globalRef e).map .fromGlobal
  | "local-ref" => do
    s.childless e
    let key ← s.attr e "key"
    pure (.fromLocal key)
  | _ => (s.literal e).map .literal

/-- An entry of a map: its key, and its value as `read` reads it. -/
def entry {α : Type} (s : Scope) (read : Element → Except Problem α) (e : Element) :
    Except Problem (String × α) :=
  if e.name = "value" then do
    let key ← s.attr e "key"
    match e.children with
    | [.element inner] => (read inner).map fun a => (key, a)
    | _ => s.wrongCount e 1
  else s.refuse e .notAnEntry

end Scope

/-- What a watch looks at: a value of its own, or a global. -/
inductive Watched
  | own (payload : Payload)
  | shared (key : String)

namespace Scope

/-- What an entry of a watch holds. -/
def watched (s : Scope) (e : Element) : Except Problem Watched :=
  if e.name = "global-ref" then (s.globalRef e).map .shared else (s.literal e).map .own

/-- The entries of a map, each key once. -/
def valueMap (s : Scope) (e : Element) : Except Problem (OrderedMap Watched) :=
  if e.name = "value-map" then do
    let items ← s.elements e
    items.foldlM (fun (m : OrderedMap Watched) item => do
      let (key, value) ← s.entry s.watched item
      if m.has key then s.refuse item (.repeatedKey key) else pure (m.insert key value)) .empty
  else s.refuse e .notAValueMap

end Scope

end LiveTemplate.Template
