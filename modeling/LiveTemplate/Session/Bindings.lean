import LiveTemplate.Engine.Installation
import LiveTemplate.Expr.Inspection
import LiveTemplate.Session.Expressions

/-!
# Commands on interactions
-/

namespace LiveTemplate.Session

open Engine

/-- What it comes to that a handler is called at once, outside of all work: the session after it. -/
abbrev Calling := Handler → OrderedMap Payload → Session → Session

/-- A handler that is called at once notes what it is told, and does not act on it. -/
def noted : Calling := fun h args s =>
  { s with log := s.log ++ [.told h.name (.arguments args)] }

/-- Begins to watch: the watcher observes each of the arguments until a teardown fires, and is told
at once what they hold. Without such a watch nothing happens, and without the teardown nothing is
begun. -/
def beginWatch (call : Calling) (i : Interactions CellId CellId) (kind : String) (h : Handler)
    (teardown : String) : Act Unit := do
  match i.watch? kind with
  | none => pure ()
  | some watch =>
    expectTeardown (some teardown)
    let subs ← inWorld fun w => w.watch h watch.args
    handOver teardown subs
    modify (call h (← payloads watch.args))

/-- Begins to watch for some declared watches, one after the other. The watcher of each is taken out
of a table; a watch of which there is none in it is passed over. -/
def beginWatches (call : Calling) (i : Interactions CellId CellId) (teardown : String) :
    List (Watch CellId) → OrderedMap Handler → Act Unit
  | [], _ => pure ()
  | watch :: rest, table =>
    match table.get? watch.kind with
    | none => beginWatches call i teardown rest table
    | some h => do
      beginWatch call i watch.kind h teardown
      beginWatches call i teardown rest (table.without [watch.kind])

/-- Begins to watch everything that is declared, with the watchers in a table. Without a watcher for
each declared watch nothing is begun. -/
def beginAllWatches (call : Calling) (i : Interactions CellId CellId) (table : OrderedMap Handler)
    (teardown : String) : Act Unit := do
  let missing := i.watchKinds.filter fun kind => !table.has kind
  if !missing.isEmpty then throw (.problem (.unansweredWatches missing))
  beginWatches call i teardown i.watches table

/-- The updates of the action bound to a target and a kind; none if there is no such action. -/
def boundUpdates (target kind : String) : Act (List (Update CellId)) := do
  pure (((← declared).action? target kind).map Action.updates).toList.flatten

/-- Carries out a command on interactions. -/
def InteractionCommand.run : InteractionCommand → Act Undertaking
  | .build actions reactions watches => do
    let ws ← watches.mapM fun w => do
      let args ← mapOperand w.2
      pure (⟨w.1, args⟩ : Watch CellId)
    let i ← inWorld fun w => World.install pure ⟨actions, reactions, ws⟩ w
    let i ← sound i.build
    modify fun s => { s with interactions := some i }
    answer .done
  | .update target kind of => do
    let us ← boundUpdates target kind
    let locals ← mapOperand of
    pure ⟨[.perform us locals], .applied locals, locals.values⟩
  | .dispatch target kind of => do
    let us ← boundUpdates target kind
    let locals ← mapOperand of
    pure ⟨[.perform us locals], .dispatched locals, locals.values⟩
  | .observe name target kind of => do
    let i ← declared
    let locals ← mapOperand of
    match i.reaction? target kind with
    | some r => answer (.observed true (← observeAs name r.predicate locals))
    | none =>
      let s ← inWorld fun w => w.constant false
      keepSignal name s
      answer (.observed false false)
  | .watchAll kinds teardown => do
    let table : OrderedMap Handler := .ofList (kinds.map fun kind => (kind, ⟨some kind, []⟩))
    beginAllWatches noted (← declared) table teardown
    answer .done
  | .checkActions supported => do
    sound ((← declared).checkActions supported)
    answer .done
  | .checkReactions supported => do
    sound ((← declared).checkReactions supported)
    answer .done
  | .checkWatches supported => do
    sound ((← declared).checkWatches supported)
    answer .done
  | .outline => do
    let hold := (← get).world.payload
    answer (.text ((← declared).outline hold hold).render)
  | .count => do
    let i ← declared
    answer (.declared i.actions.length i.reactions.length i.watches.length)
  | .inspect => do
    answer (.text (Inspection.interactions (← get).world.payload (← declared)))

end LiveTemplate.Session
