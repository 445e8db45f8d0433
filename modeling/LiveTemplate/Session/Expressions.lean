import LiveTemplate.Engine.Installation
import LiveTemplate.Expr.Documentation
import LiveTemplate.Session.Undertaking

/-!
# Commands on predicates, updates and signals
-/

namespace LiveTemplate.Session

open Engine

/-- The truth of a signal. -/
def truth (s : SignalId) : Act Bool := do pure ((← get).world.truth s)

/-- Observes a predicate over a map, and keeps the signal under a name. -/
def observeAs (name : String) (p : Predicate CellId) (locals : ValueMap) : Act Bool := do
  let (s, world) ← sound ((← get).world.observePredicate locals p)
  setWorld world
  let b ← truth s
  keepSignal name s
  pure b

/-- The value that a reference stands for, in a map if there is one, and among the globals if they are
asked. -/
def find (r : Reference CellId) (of : Option ValueMap) (globals : Bool) :
    Act (Option CellId) := do
  match r with
  | .fromGlobal _ => if globals then sound ((← get).world.resolve .empty r) else pure none
  | _ => sound ((← get).world.resolve (of.getD .empty) r)

/-- Carries out a command on predicates, updates or signals. -/
def ExpressionCommand.run : ExpressionCommand → Act Undertaking
  | .resolve reference of globals => do
    let locals ← of.mapM mapOperand
    let r ← inWorld (World.installReference reference)
    let found ← find r locals globals
    let held ← found.mapM payload
    answer (.resolved (r.describe (← get).world.describe) held)
  | .evaluate predicate of => do
    let locals ← mapOperand of
    let p ← inWorld (World.installPredicate predicate)
    let result ← inWorld fun w => w.evaluate locals p
    answer (.flag (← sound result))
  | .apply update of => do
    let locals ← mapOperand of
    let us ← inWorld (World.installUpdates [update])
    pure ⟨[.perform us locals], .applied locals, locals.values⟩
  | .outlinePredicate predicate =>
    answer (.text (Formula.outline Payload.describe predicate).render)
  | .outlineUpdate update => answer (.text (Update.outline Payload.describe update).render)
  | .observe name predicate of => do
    let locals ← mapOperand of
    let p ← inWorld (World.installPredicate predicate)
    answer (.flag (← observeAs name p locals))
  | .constant name b => do
    let s ← inWorld fun w => w.constant b
    keepSignal name s
    answer (.flag b)
  | .signal name => do
    let s ← namedSignal name
    let subscribers := (((← get).world.signals.get? s).map Signal.subscribers).getD []
    answer (.signal (← truth s) subscribers.length)
  | .discardSignal name => do
    let former := (← get).signals.get? name
    modify fun s =>
      { s with
        signals := s.signals.without [name]
        world := former.toList.foldl World.letGo s.world }
    answer (.flag former.isSome)

end LiveTemplate.Session
