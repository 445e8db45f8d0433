import LiveTemplate.Wire.Basic

/-!
# Writing tagged values

`Payload.toTagged` writes a payload with its texts in place. `Payload.toIndexed` puts the texts into a
table and writes their indices; one table can serve many payloads, and each text is in it once.
-/

namespace LiveTemplate

namespace Wire

/-- Texts in the order in which they were first used. -/
structure StringTable where
  strings : List String
  deriving Repr, DecidableEq

namespace StringTable

/-- The table without texts. -/
def empty : StringTable := ⟨[]⟩

/-- How many texts there are. -/
def size (t : StringTable) : Nat := t.strings.length

/-- The index of a text, which is added at the end if it is new. -/
def intern (t : StringTable) (s : String) : Nat × StringTable :=
  match t.strings.idxOf? s with
  | some i => (i, t)
  | none => (t.strings.length, ⟨t.strings ++ [s]⟩)

/-- The indices of several texts, from the first to the last. -/
def internAll (t : StringTable) : List String → List Nat × StringTable
  | [] => ([], t)
  | s :: rest =>
    let (i, grown) := t.intern s
    let (others, final) := grown.internAll rest
    (i :: others, final)

end StringTable

end Wire

namespace Payload

open Wire

/-- A payload as a tagged value, its texts in place. -/
def toTagged : Payload → Tagged
  | .empty => ⟨.empty, .null⟩
  | .string s => ⟨.string, .string s⟩
  | .stringList items => ⟨.stringList, .array (items.map .string)⟩
  | .stringSet items => ⟨.stringSet, .array (items.items.map .string)⟩
  | .int n => ⟨.int, .ofInt64 n⟩
  | .intList items => ⟨.intList, .array (items.map .ofInt64)⟩
  | .intSet items => ⟨.intSet, .array (items.items.map .ofInt64)⟩
  | .dbl x => ⟨.dbl, .ofDouble x⟩
  | .duration nanos => ⟨.duration, .ofInt64 nanos⟩
  | .timestamp t => ⟨.timestamp, .array [.ofInt64 t.seconds, .ofNat t.nanos.val]⟩

/-- A payload as a tagged value, its texts as indices into a table, and the table that has them. -/
def toIndexed (table : StringTable) : Payload → Tagged × StringTable
  | .string s =>
    let (i, grown) := table.intern s
    (⟨.stringIndex, .ofNat i⟩, grown)
  | .stringList items =>
    let (indices, grown) := table.internAll items
    (⟨.stringListIndices, .array (indices.map .ofNat)⟩, grown)
  | .stringSet items =>
    let (indices, grown) := table.internAll items.items
    (⟨.stringSetIndices, .array (indices.map .ofNat)⟩, grown)
  | other => (other.toTagged, table)

end Payload

end LiveTemplate
