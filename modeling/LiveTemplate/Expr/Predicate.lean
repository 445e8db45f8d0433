import LiveTemplate.Expr.Formula
import LiveTemplate.Problem
import LiveTemplate.Value.Relations

/-!
# Predicates

A predicate is a boolean formula whose terms test values: a relation between two operands, or
whether an operand has changed lately. An operand is a reference: a literal, or a key to look up in
the map at hand or in the global state.

The type of literals is a parameter. In a declaration a literal is a payload; once the declaration
is in use it is the value that holds the payload.
-/

namespace LiveTemplate

/-- Where a value is found. -/
inductive Reference (α : Type)
  | literal (a : α)
  | fromLocal (key : String)
  | fromGlobal (key : String)
  deriving Repr, DecidableEq

namespace Reference

variable {α β : Type}

/-- Applies a function to a literal. -/
def map (g : α → β) : Reference α → Reference β
  | literal a => literal (g a)
  | fromLocal key => fromLocal key
  | fromGlobal key => fromGlobal key

/-- Replaces a literal by a computation that may have effects. -/
def traverse {m : Type → Type} [Monad m] (g : α → m β) : Reference α → m (Reference β)
  | literal a => do
    let b ← g a
    pure (literal b)
  | fromLocal key => pure (fromLocal key)
  | fromGlobal key => pure (fromGlobal key)

/-- The literal of a reference, if it is one. -/
def literals : Reference α → List α
  | literal a => [a]
  | fromLocal _ => []
  | fromGlobal _ => []

/-- A reference as it is written, given how a literal is. -/
def describe (literalText : α → String) : Reference α → String
  | literal a => "literal " ++ literalText a
  | fromLocal key => "local-ref " ++ key
  | fromGlobal key => "global-ref " ++ key

end Reference

/-- The relations that a term can test. -/
inductive Relation
  | equals
  | lessThan
  | greaterThan
  | includes
  | prefixOf
  deriving Repr, DecidableEq

namespace Relation

/-- The name of a relation. -/
def name : Relation → String
  | equals => "equals"
  | lessThan => "less-than"
  | greaterThan => "greater-than"
  | includes => "includes"
  | prefixOf => "prefix-of"

/-- The relation with a given name. -/
def ofName? (s : String) : Option Relation :=
  [equals, lessThan, greaterThan, includes, prefixOf].find? (·.name == s)

theorem ofName?_name (r : Relation) : ofName? r.name = some r := by cases r <;> decide

/-- Whether a relation holds between two payloads. -/
def holds : Relation → Payload → Payload → Bool
  | equals, p, q => p.equals q
  | lessThan, p, q => p.order q == .lt
  | greaterThan, p, q => p.order q == .gt
  | includes, p, q => p.includes q
  | prefixOf, p, q => p.startsOff q

end Relation

/-- What a predicate tests. -/
inductive Term (α : Type)
  | relation (r : Relation) (left right : α)
  /-- Whether the operand changed less than `window` milliseconds ago. -/
  | changed (operand : α) (window : UInt64)
  deriving Repr, DecidableEq

namespace Term

variable {α β : Type}

/-- The name of a term. -/
def name : Term α → String
  | relation r _ _ => r.name
  | changed _ _ => "changed"

/-- The operands of a term, from left to right. -/
def operands : Term α → List α
  | relation _ left right => [left, right]
  | changed operand _ => [operand]

/-- Applies a function to every operand. -/
def map (g : α → β) : Term α → Term β
  | relation r left right => relation r (g left) (g right)
  | changed operand window => changed (g operand) window

/-- Replaces every operand, from left to right, by a computation that may have effects. -/
def traverse {m : Type → Type} [Monad m] (g : α → m β) : Term α → m (Term β)
  | relation r left right => do
    let left' ← g left
    let right' ← g right
    pure (relation r left' right')
  | changed operand window => do
    let operand' ← g operand
    pure (changed operand' window)

/-- The truth of a term over payloads at rest, where nothing has changed lately. -/
def holds (payload : α → Payload) : Term α → Bool
  | relation r left right => r.holds (payload left) (payload right)
  | changed _ _ => false

end Term

/-- A predicate with literals of a given type. -/
abbrev Predicate (α : Type) := Formula (Term (Reference α))

namespace Predicate

variable {α β : Type}

/-- Applies a function to every literal. -/
def mapLiterals (g : α → β) (p : Predicate α) : Predicate β :=
  Formula.map (Term.map (Reference.map g)) p

/-- Replaces every literal, from left to right, by a computation that may have effects. -/
def traverseLiterals {m : Type → Type} [Monad m] (g : α → m β) (p : Predicate α) :
    m (Predicate β) :=
  Formula.traverse (Term.traverse (Reference.traverse g)) p

/-- The literals of a predicate, from left to right. -/
def literals (p : Predicate α) : List α :=
  (Formula.terms p).flatMap fun t => t.operands.flatMap Reference.literals

/-- A conjunction, of two predicates or more. -/
def conjunction (ps : List (Predicate α)) : Except Problem (Predicate α) :=
  if ps.length < 2 then .error (.tooFewChildren "and" ps.length) else .ok (.and ps)

/-- A disjunction, of two predicates or more. -/
def disjunction (ps : List (Predicate α)) : Except Problem (Predicate α) :=
  if ps.length < 2 then .error (.tooFewChildren "or" ps.length) else .ok (.or ps)

end Predicate

end LiveTemplate
