import LiveTemplate.Engine.World

/-!
# Observing predicates

To observe a predicate is to find the cells of all its operands, once, and to set up a signal that
observes each of them. If an operand is not found nothing is set up. To evaluate a predicate is to
observe it, to ask the signal, and to let go of it; a term that asks for a recent change is false
then, as nothing has changed since.
-/

namespace LiveTemplate.Engine.World

variable {η : Type}

/-- The cell of an operand of a term. -/
def operand (w : World η) (locals : ValueMap) (term : String) (r : Reference CellId) :
    Except Problem CellId := do
  match ← w.resolve locals r with
  | some c => pure c
  | none => .error (.unresolvedOperand term (r.describe w.describe) (w.describeMap locals))

/-- A predicate over the cells of its operands, found from left to right. -/
def bind (w : World η) (locals : ValueMap) (p : Predicate CellId) :
    Except Problem (Formula (Term CellId)) :=
  Formula.traverse (fun t => t.traverse (w.operand locals t.name)) p

/-- A term as it starts out: true if it holds now, with no timer set. -/
def startTerm (w : World η) (t : Term CellId) : LiveTerm := ⟨t, t.holds w.payload, none⟩

/-- Observes the operands of the terms of a signal, the first of which is at `place`. -/
def observeTerms (w : World η) (s : SignalId) (place : Nat) : List (Term CellId) → World η
  | [] => w
  | t :: rest =>
    let w' := t.operands.foldl (fun w c => (w.observe c (.term s place)).2) w
    w'.observeTerms s (place + 1) rest

/-- A signal for a predicate whose operands are found. -/
def openSignal (w : World η) (f : Formula (Term CellId)) : SignalId × World η :=
  let (s, w') := w.addSignal (.build w.startTerm f)
  (s, w'.observeTerms s 0 f.terms)

/-- A signal for a predicate, held once. -/
def observePredicate (w : World η) (locals : ValueMap) (p : Predicate CellId) :
    Except Problem (SignalId × World η) :=
  (w.bind locals p).map w.openSignal

/-- A signal that never changes. -/
def constant (w : World η) (truth : Bool) : SignalId × World η := w.addSignal (.const truth)

/-- Whether a signal is true. -/
def truth (w : World η) (s : SignalId) : Bool := ((w.signals.get? s).map Signal.truth).getD false

/-- Whether a predicate holds. -/
def evaluate (w : World η) (locals : ValueMap) (p : Predicate CellId) :
    Except Problem Bool × World η :=
  match w.observePredicate locals p with
  | .error e => (.error e, w)
  | .ok (s, w') => (.ok (w'.truth s), w'.letGo s)

end LiveTemplate.Engine.World
