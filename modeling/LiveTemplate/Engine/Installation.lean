import LiveTemplate.Engine.World
import LiveTemplate.Template.Document

/-!
# Putting declarations to use

A declaration holds payloads; in use, each of them is held by a cell of its own. A watch that looks at
a global shares the cell of that global, so that it sees every change.
-/

namespace LiveTemplate.Engine

open Template

variable {η : Type}

namespace World

/-- A new cell, as a computation over the world. -/
def newCell (p : Payload) : StateM (World η) CellId := modifyGet fun w => w.create p

/-- Replaces the literal of a reference by a new cell. -/
def installReference (r : Reference Payload) : StateM (World η) (Reference CellId) :=
  r.traverse newCell

/-- Replaces the literals of a predicate by new cells. -/
def installPredicate (p : Predicate Payload) : StateM (World η) (Predicate CellId) :=
  p.traverseLiterals newCell

/-- Replaces the literals of a list of updates by new cells. -/
def installUpdates (us : List (Update Payload)) : StateM (World η) (List (Update CellId)) :=
  Update.traverseAll newCell us

/-- Replaces the literals of an action by new cells. -/
def installAction (a : Action Payload) : StateM (World η) (Action CellId) := do
  let updates ← installUpdates a.updates
  pure ⟨a.target, a.kind, updates⟩

/-- Replaces the literals of a reaction by new cells. -/
def installReaction (r : Reaction Payload) : StateM (World η) (Reaction CellId) := do
  let predicate ← installPredicate r.predicate
  pure ⟨r.target, r.kind, predicate⟩

/-- Replaces what a watch looks at by cells. -/
def installWatch {β : Type} (cell : β → StateM (World η) CellId) (w : Watch β) :
    StateM (World η) (Watch CellId) := do
  let entries ← w.args.entries.mapM fun e => do
    let c ← cell e.2
    pure (e.1, c)
  pure ⟨w.kind, .ofList entries⟩

/-- Replaces the literals of interactions by new cells, and what they watch by cells. -/
def install {β : Type} (cell : β → StateM (World η) CellId) (i : Interactions Payload β) :
    StateM (World η) (Interactions CellId CellId) := do
  let actions ← i.actions.mapM installAction
  let reactions ← i.reactions.mapM installReaction
  let watches ← i.watches.mapM (installWatch cell)
  pure ⟨actions, reactions, watches⟩

/-- The cell that a watch looks at. -/
def watchedCell (globals : ValueMap) : Watched → StateM (World η) CellId
  | .own p => newCell p
  | .shared key =>
    match globals.get? key with
    | some c => pure c
    | none => newCell .empty

/-- Puts a document to use: its globals in new cells and published, and its interactions over them. -/
def ofDocument (d : Document) : Interactions CellId CellId × World η :=
  let (entries, w) := World.start.createAll d.globals.entries
  let globals : ValueMap := .ofList entries
  install (watchedCell globals) d.interactions { w with globals, published := true }

end World

end LiveTemplate.Engine
