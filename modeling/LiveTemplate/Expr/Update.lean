import LiveTemplate.Expr.Predicate
import LiveTemplate.Value.Fold

/-!
# Updates

An update changes values: it folds one value into another, clears values, or runs further updates,
in sequence or as a predicate decides.
-/

namespace LiveTemplate

/-- The ways of bringing one value into another. -/
inductive Assignment
  | set
  /-- Only while the target is zero. -/
  | setIfEmpty
  /-- Back to zero if the target equals the source. -/
  | setOrClear
  | toggle
  /-- In addition to what the target has. -/
  | extend
  deriving Repr, DecidableEq

namespace Assignment

/-- The name of an assignment. -/
def name : Assignment → String
  | set => "set"
  | setIfEmpty => "set-if-empty"
  | setOrClear => "set-or-clear"
  | toggle => "toggle"
  | extend => "extend"

/-- The assignment with a given name. -/
def ofName? (s : String) : Option Assignment :=
  [set, setIfEmpty, setOrClear, toggle, extend].find? (·.name == s)

theorem ofName?_name (a : Assignment) : ofName? a.name = some a := by cases a <;> decide

/-- How an assignment folds. -/
def mode : Assignment → Payload.FoldMode
  | set => ⟨false, true⟩
  | setIfEmpty => ⟨false, true⟩
  | setOrClear => ⟨true, true⟩
  | toggle => ⟨true, true⟩
  | extend => ⟨false, false⟩

end Assignment

mutual

/-- A change of values. -/
inductive Update (α : Type)
  | assign (a : Assignment) (target source : Reference α)
  /-- Brings every target back to zero. -/
  | clear (targets : List (Reference α))
  | sequence (updates : List (Update α))
  /-- Runs updates if a predicate holds. -/
  | when (condition : Predicate α) (updates : List (Update α))
  /-- Runs one of two lists of updates. -/
  | choose (condition : Predicate α) (updates otherwise : List (Update α))
  /-- Runs the updates of the first case whose predicate holds. -/
  | switch (cases : List (Case α))

/-- A predicate and the updates to run if it holds. -/
inductive Case (α : Type)
  | mk (condition : Predicate α) (updates : List (Update α))

end

namespace Case

variable {α : Type}

/-- The predicate of a case. -/
def condition : Case α → Predicate α
  | mk condition _ => condition

/-- The updates of a case. -/
def updates : Case α → List (Update α)
  | mk _ updates => updates

end Case

namespace Update

variable {α β : Type}

/-- The name of an update. -/
def name : Update α → String
  | assign a _ _ => a.name
  | clear _ => "clear"
  | sequence _ => "do"
  | when _ _ => "if"
  | choose _ _ _ => "if"
  | switch _ => "switch"

mutual

/-- Replaces every literal, from left to right, by a computation that may have effects. -/
def traverse {m : Type → Type} [Monad m] (g : α → m β) : Update α → m (Update β)
  | assign a target source => do
    let target' ← target.traverse g
    let source' ← source.traverse g
    pure (assign a target' source')
  | clear targets => do
    let targets' ← targets.mapM fun r => r.traverse g
    pure (clear targets')
  | sequence updates => do
    let updates' ← traverseAll g updates
    pure (sequence updates')
  | when condition updates => do
    let condition' ← condition.traverseLiterals g
    let updates' ← traverseAll g updates
    pure (when condition' updates')
  | choose condition updates otherwise => do
    let condition' ← condition.traverseLiterals g
    let updates' ← traverseAll g updates
    let otherwise' ← traverseAll g otherwise
    pure (choose condition' updates' otherwise')
  | switch cases => do
    let cases' ← traverseCases g cases
    pure (switch cases')

/-- Replaces every literal of a list of updates. -/
def traverseAll {m : Type → Type} [Monad m] (g : α → m β) : List (Update α) → m (List (Update β))
  | [] => pure []
  | u :: rest => do
    let u' ← u.traverse g
    let rest' ← traverseAll g rest
    pure (u' :: rest')

/-- Replaces every literal of a list of cases. -/
def traverseCases {m : Type → Type} [Monad m] (g : α → m β) : List (Case α) → m (List (Case β))
  | [] => pure []
  | .mk condition updates :: rest => do
    let condition' ← condition.traverseLiterals g
    let updates' ← traverseAll g updates
    let rest' ← traverseCases g rest
    pure (.mk condition' updates' :: rest')

end

mutual

/-- The literals of an update, from left to right. -/
def literals : Update α → List α
  | assign _ target source => target.literals ++ source.literals
  | clear targets => targets.flatMap Reference.literals
  | sequence updates => allLiterals updates
  | when condition updates => condition.literals ++ allLiterals updates
  | choose condition updates otherwise =>
    condition.literals ++ allLiterals updates ++ allLiterals otherwise
  | switch cases => caseLiterals cases

/-- The literals of a list of updates. -/
def allLiterals : List (Update α) → List α
  | [] => []
  | u :: rest => u.literals ++ allLiterals rest

/-- The literals of a list of cases. -/
def caseLiterals : List (Case α) → List α
  | [] => []
  | .mk condition updates :: rest =>
    condition.literals ++ allLiterals updates ++ caseLiterals rest

end

mutual

/-- A bound on the number of changes and choices that an update makes. -/
def weight : Update α → Nat
  | assign _ _ _ => 1
  | clear targets => targets.length + 1
  | sequence updates => weightAll updates + 1
  | when _ updates => weightAll updates + 1
  | choose _ updates otherwise => weightAll updates + weightAll otherwise + 1
  | switch cases => weightCases cases + 1

/-- The weight of a list of updates. -/
def weightAll : List (Update α) → Nat
  | [] => 0
  | u :: rest => u.weight + weightAll rest

/-- The weight of a list of cases. -/
def weightCases : List (Case α) → Nat
  | [] => 0
  | .mk _ updates :: rest => weightAll updates + weightCases rest

end

theorem weightAll_append (us vs : List (Update α)) :
    weightAll (us ++ vs) = weightAll us + weightAll vs := by
  induction us with
  | nil => simp [weightAll]
  | cons u rest ih => simp [weightAll, ih, Nat.add_assoc]

end Update

end LiveTemplate
