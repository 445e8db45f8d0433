import LiveTemplate.Value.Payload

/-!
# Folding one payload into another

Folding brings a source payload into a payload of a kind of its own. An empty source leaves the
zero. A scalar takes the source, a list or set takes the items of the source: in place of its own
when `replace` is set, in addition to them otherwise. With `toggle`, a scalar or list that already
equals the source goes back to zero, and a set flips the membership of each item of the source.

Only some kinds fold into others: whole numbers and doubles into each other, and a scalar, list or
set of the same sort of item into a collection.
-/

namespace LiveTemplate.Payload

/-- How a fold treats what is there. -/
structure FoldMode where
  toggle : Bool
  replace : Bool
  deriving Repr, DecidableEq

/-- The source as a scalar of the kind of `current`. -/
def coerceScalar (current source : Payload) : Option Payload :=
  match current, source with
  | .string _, .string s => some (.string s)
  | .int _, .int n => some (.int n)
  | .int _, .dbl x => some (.int (floorInt64 x))
  | .dbl _, .dbl x => some (.dbl x)
  | .dbl _, .int n => some (.dbl n.toFloat)
  | .duration _, .duration n => some (.duration n)
  | .timestamp _, .timestamp t => some (.timestamp t)
  | _, _ => none

/-- The texts of a payload. -/
def strings? : Payload → Option (List String)
  | .string s => some [s]
  | .stringList items => some items
  | .stringSet items => some items.items
  | _ => none

/-- The whole numbers of a payload. -/
def ints? : Payload → Option (List Int64)
  | .int n => some [n]
  | .intList items => some items
  | .intSet items => some items.items
  | _ => none

/-- A list after items are folded into it. -/
def foldList {α : Type} [BEq α] (mode : FoldMode) (current items : List α) : List α :=
  if mode.toggle && current == items then []
  else if mode.replace then items
  else current ++ items

/-- A set after items are folded into it. -/
def foldSet {α : Type} [Ord α] [Std.TransOrd α] [Std.LawfulEqOrd α] [DecidableEq α]
    (mode : FoldMode) (current : SortedSet α) (items : List α) : SortedSet α :=
  if mode.toggle then current.symmDiff (.ofList items)
  else if mode.replace then .ofList items
  else current.union (.ofList items)

/-- The payload after `source` is folded into `current`, if it can be. -/
def fold (mode : FoldMode) (current source : Payload) : Option Payload :=
  match source with
  -- An empty source clears, whatever the mode.
  | .empty => some current.zero
  | _ =>
    match current with
    | .empty => none
    | .stringList items => (strings? source).map fun new => .stringList (foldList mode items new)
    | .intList items => (ints? source).map fun new => .intList (foldList mode items new)
    | .stringSet items => (strings? source).map fun new => .stringSet (foldSet mode items new)
    | .intSet items => (ints? source).map fun new => .intSet (foldSet mode items new)
    | scalar =>
      (coerceScalar scalar source).map fun next =>
        if mode.toggle && next == scalar then scalar.zero else next

theorem kind_coerceScalar {current source next : Payload}
    (h : coerceScalar current source = some next) : next.kind = current.kind := by
  unfold coerceScalar at h
  split at h <;> cases h <;> rfl

/-- Folding never changes the kind of a payload. -/
theorem kind_fold {mode : FoldMode} {current source next : Payload}
    (h : fold mode current source = some next) : next.kind = current.kind := by
  unfold fold at h
  split at h
  · cases h
    exact kind_zero current
  · split at h
    · exact nomatch h
    · obtain ⟨p, _, rfl⟩ := Option.map_eq_some_iff.1 h
      rfl
    · obtain ⟨p, _, rfl⟩ := Option.map_eq_some_iff.1 h
      rfl
    · obtain ⟨p, _, rfl⟩ := Option.map_eq_some_iff.1 h
      rfl
    · obtain ⟨p, _, rfl⟩ := Option.map_eq_some_iff.1 h
      rfl
    · obtain ⟨p, hp, rfl⟩ := Option.map_eq_some_iff.1 h
      split
      · exact kind_zero _
      · exact kind_coerceScalar hp

end LiveTemplate.Payload
