import LiveTemplate.Value.Payload

/-!
# Order, containment and prefixes

Three relations between payloads, which the terms of a predicate test.

Payloads of one kind are ordered as their contents are, collections by length before their items.
Whole numbers and doubles are compared as numbers. An empty payload equals every zero and is below
anything else. Any two other payloads do not compare, and each counts as greater than the other.
-/

namespace LiveTemplate.Payload

/-- The order of doubles; with what is not a number, the first counts as greater. -/
def compareDoubles (x y : Float) : Ordering :=
  if x < y then .lt else if x == y then .eq else .gt

/-- Shorter sequences first, then by the first items that differ. -/
def compareItems {α : Type} [Ord α] (xs ys : List α) : Ordering :=
  (compare xs.length ys.length).then (compare xs ys)

/-- How a payload compares to another. -/
def order : Payload → Payload → Ordering
  | .empty, .empty => .eq
  | .empty, p => if p.isZero then .eq else .lt
  | p, .empty => if p.isZero then .eq else .gt
  | .string a, .string b => compare a b
  | .int a, .int b => compare a b
  | .int a, .dbl b => compareDoubles a.toFloat b
  | .dbl a, .int b => compareDoubles a b.toFloat
  | .dbl a, .dbl b => compareDoubles a b
  | .duration a, .duration b => compare a b
  | .timestamp a, .timestamp b => compare a b
  | .stringList a, .stringList b => compareItems a b
  | .stringSet a, .stringSet b => compareItems a.items b.items
  | .intList a, .intList b => compareItems a b
  | .intSet a, .intSet b => compareItems a.items b.items
  -- Kinds that do not compare are neither equal nor less, in either direction.
  | _, _ => .gt

/-- Whether two payloads count as the same. -/
def equals (p q : Payload) : Bool := p.order q == .eq

/-- Whether a payload contains another. An empty item is in every collection and in every zero. An
item or a set is in a collection that has all of it; a list is in a list that has its items in the
same order, not necessarily side by side. A scalar contains what it equals. -/
def includes (container item : Payload) : Bool :=
  match container, item with
  | c, .empty => c.isCollection || c.isZero
  | .stringSet items, .string s => items.items.contains s
  | .stringSet items, .stringSet part => part.items.all items.items.contains
  | .stringSet items, .stringList part => part.all items.items.contains
  | .intSet items, .int n => items.items.contains n
  | .intSet items, .intSet part => part.items.all items.items.contains
  | .intSet items, .intList part => part.all items.items.contains
  | .stringList items, .string s => items.contains s
  | .stringList items, .stringList part => part.isSublist items
  | .stringList items, .stringSet part => part.items.all items.contains
  | .intList items, .int n => items.contains n
  | .intList items, .intList part => part.isSublist items
  | .intList items, .intSet part => part.items.all items.contains
  | c, i => !c.isCollection && c.equals i

/-- Whether a payload is a beginning of another. -/
def startsOff (p q : Payload) : Bool :=
  match p, q with
  | .empty, _ => true
  | .string a, .string b => a.toList.isPrefixOf b.toList
  | .stringList a, .stringList b => a.isPrefixOf b
  | .intList a, .intList b => a.isPrefixOf b
  | _, _ => false

end LiveTemplate.Payload
