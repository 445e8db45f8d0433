import LiveTemplate.OrderedMap
import LiveTemplate.Problem
import LiveTemplate.Text.Blank

/-!
# Maps of values

Operations on a map from keys to values that need to know what the values hold. The values are of
any type; `payload` says what one holds.

A format is a text in which `$(key)` stands for what the value under the key shows and `$$` for a
single `$`. It is read once from left to right, and what is put in is not read again.
-/

namespace LiveTemplate.OrderedMap

variable {α : Type}

/-- A map with what its values hold, in the order of its keys. -/
def describe (payload : α → Payload) (m : OrderedMap α) : String :=
  Text.braced (m.entries.map fun e => e.1 ++ ": " ++ (payload e.2).describe)

/-- The value under a key, or a problem that names the keys there are. -/
def expect (m : OrderedMap α) (key : String) (severity : Severity) : Except Problem α :=
  match m.get? key with
  | some a => .ok a
  | none => .error (.missingKey severity key m.keys)

/-- The payload under a key, which must be of a given kind. -/
def expectKind (payload : α → Payload) (m : OrderedMap α) (key : String) (kind : Kind) :
    Except Problem Payload := do
  let a ← m.expect key .fatal
  let p := payload a
  if p.kind = kind then pure p else .error (.otherKind key p.kind kind.name)

/-- The text that the rest of a format gives. -/
def formatRest (payload : α → Payload) (m : OrderedMap α) (whole : String) (s : List Char) :
    Except Problem (List Char) :=
  match s with
  | [] => .ok []
  | '$' :: '$' :: rest => (formatRest payload m whole rest).map ('$' :: ·)
  | '$' :: '(' :: inner =>
    match _h : Text.splitAt? [')'] inner with
    | none => .error (.unterminatedFormat whole)
    | some (key, rest) => do
      let a ← m.expect (String.ofList key) .error
      let after ← formatRest payload m whole rest
      pure ((payload a).display.toList ++ after)
  | c :: rest => (formatRest payload m whole rest).map (c :: ·)
termination_by s.length
decreasing_by
  · simp only [List.length_cons]
    omega
  · have := Text.length_of_splitAt? _h
    simp only [List.length_cons]
    omega
  · simp

/-- The text that a format gives. -/
def format (payload : α → Payload) (m : OrderedMap α) (whole : String) : Except Problem String :=
  (formatRest payload m whole whole.toList).map String.ofList

/-- Adds the entries of a map to those before it. Values of different kinds under one key clash. -/
def merge (payload : α → Payload) (before : OrderedMap α) (m : OrderedMap α) :
    Except Problem (OrderedMap α) :=
  m.entries.foldlM (fun acc e =>
    match acc.get? e.1 with
    | some previous =>
      if (payload previous).kind = (payload e.2).kind then .ok (acc.insert e.1 e.2)
      else .error (.kindClash e.1 (payload previous).kind (payload e.2).kind)
    | none => .ok (acc.insert e.1 e.2)) before

/-- The entries of several maps in one; of two values under one key the later stays, in the place of
the first. -/
def union (payload : α → Payload) (maps : List (OrderedMap α)) : Except Problem (OrderedMap α) :=
  maps.foldlM (merge payload) .empty

end LiveTemplate.OrderedMap
