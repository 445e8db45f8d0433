import LiveTemplate.Expr.Predicate

/-!
# Circuits

A circuit keeps a formula up to date. Its leaves are terms that remember whether they were true when
they were last looked at, and each gate remembers what it put out last. When a leaf is looked at again
only the gates above it have anything to do, and of these only the ones that hear something: a gate
looks at its inputs when one of them turns, and the gate above it hears of that only if it turns
itself. So the memory of a gate may be all that stands between an input and the outside.
-/

namespace LiveTemplate.Engine

/-- The number of a cell. -/
abbrev CellId := Nat

/-- A term at work: its operands, whether it was true when it was last looked at, and the timer that
ends a recent change. -/
structure LiveTerm where
  term : Term CellId
  truth : Bool
  timer : Option Nat

/-- What a gate does with its inputs. -/
inductive Gate
  | negation
  | conjunction
  | disjunction
  deriving Repr, DecidableEq

namespace Gate

/-- What a gate puts out. A negation reads its first input, and puts out nothing if there is none. -/
def output : Gate → List Bool → Option Bool
  | negation, inputs => inputs.head?.map (!·)
  | conjunction, inputs => some (inputs.all id)
  | disjunction, inputs => some (inputs.any id)

/-- What a gate holds after its inputs went from one state to another. It looks at them only if one of
them turned. -/
def heed (g : Gate) (held : Bool) (before after : List Bool) : Bool :=
  if after = before then held else (g.output after).getD held

end Gate

/-- A formula kept up to date: a gate holds what it put out last. -/
inductive Circuit
  | const (truth : Bool)
  | leaf (live : LiveTerm)
  | gate (kind : Gate) (held : Bool) (inputs : List Circuit)

namespace Circuit

/-- Whether a circuit is true, as far as it remembers. -/
def truth : Circuit → Bool
  | const b => b
  | leaf live => live.truth
  | gate _ held _ => held

mutual

/-- The leaves of a circuit, from left to right. -/
def leaves : Circuit → List LiveTerm
  | const _ => []
  | leaf live => [live]
  | gate _ _ inputs => allLeaves inputs

/-- The leaves of a list of circuits, from left to right. -/
def allLeaves : List Circuit → List LiveTerm
  | [] => []
  | c :: rest => c.leaves ++ allLeaves rest

end

/-- The leaf at a place, counted from the left and from zero. -/
def leaf? (c : Circuit) (place : Nat) : Option LiveTerm := c.leaves[place]?

/-- Whether a circuit is nothing but a leaf. -/
def isLeaf : Circuit → Bool
  | leaf _ => true
  | _ => false

/-- A gate over circuits, which looks at all of them to begin with. -/
def join (g : Gate) (inputs : List Circuit) : Circuit :=
  gate g ((g.output (inputs.map truth)).getD false) inputs

mutual

/-- The circuit of a formula, given how its terms start out. -/
def build (start : Term CellId → LiveTerm) : Formula (Term CellId) → Circuit
  | .const b => const b
  | .not f => join .negation [build start f]
  | .and fs => join .conjunction (buildAll start fs)
  | .or fs => join .disjunction (buildAll start fs)
  | .term t => leaf (start t)

/-- The circuits of a list of formulas. -/
def buildAll (start : Term CellId → LiveTerm) : List (Formula (Term CellId)) → List Circuit
  | [] => []
  | f :: rest => build start f :: buildAll start rest

end

mutual

/-- Changes the leaf at a place, and lets the gates above it hear of that if it turns. -/
def amend (f : LiveTerm → LiveTerm) (place : Nat) : Circuit → Circuit
  | const b => const b
  | leaf live => if place = 0 then leaf (f live) else leaf live
  | gate g held inputs =>
    let after := amendAll f place inputs
    gate g (g.heed held (inputs.map truth) (after.map truth)) after

/-- Changes the leaf at a place of a list of circuits. -/
def amendAll (f : LiveTerm → LiveTerm) (place : Nat) : List Circuit → List Circuit
  | [] => []
  | c :: rest =>
    if place < c.leaves.length then c.amend f place :: rest
    else c :: amendAll f (place - c.leaves.length) rest

end

end Circuit

end LiveTemplate.Engine
