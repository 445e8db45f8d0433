import LiveTemplate.Engine.Observation
import LiveTemplate.Engine.Teardown
import LiveTemplate.Session.Reply

/-!
# The state of a session

A world whose observers run commands, the things kept under names, at most one set of interactions,
and a log of what happened. A name that is used again loses what it stood for, and with it goes
whatever only that kept up: a subscription ends, a signal is let go, a teardown ends what it holds.

An `Act` is what a command does at once. If it fails with a reply, what it did before stays done.
-/

namespace LiveTemplate

open Engine

/-- The state of a session. -/
structure Session where
  world : World Session.Handler
  values : OrderedMap CellId
  weakValues : OrderedMap CellId
  maps : OrderedMap ValueMap
  subscriptions : OrderedMap Subscription
  signals : OrderedMap SignalId
  teardowns : OrderedMap Teardown
  timers : OrderedMap Nat
  interactions : Option (Interactions CellId CellId)
  table : Wire.StringTable
  /-- What happened since the last command was given. -/
  log : List Session.Event

namespace Session

/-- What a command does at once: it comes to a result or to a reply that tells why it cannot go on,
and in both cases to another session. -/
abbrev Act (α : Type) := ExceptT Reply (StateM Session) α

namespace Act

variable {α β : Type} {x : Act α} {f : α → Act β} {s s' : Session}

/-- To look at the session changes nothing. -/
theorem get_eq (s : Session) : (get : Act Session) s = (.ok s, s) := rfl

theorem bind_of_ok {a : α} (h : x s = (.ok a, s')) : (x >>= f) s = f a s' := by
  simp only [bind, ExceptT.bind, ExceptT.mk, StateT.bind, h, ExceptT.bindCont]

/-- Where a first step fails nothing follows, and what it did stays done. -/
theorem bind_of_error {r : Reply} (h : x s = (.error r, s')) :
    (x >>= f) s = (.error r, s') := by
  simp only [bind, ExceptT.bind, ExceptT.mk, StateT.bind, h, ExceptT.bindCont]
  rfl

/-- What is done in two steps is done by a first one that succeeds. -/
theorem exists_of_bind {b : β} (h : (x >>= f) s = (.ok b, s')) :
    ∃ a s₁, x s = (.ok a, s₁) ∧ f a s₁ = (.ok b, s') := by
  rcases hx : x s with ⟨_ | a, s₁⟩
  · rw [bind_of_error hx] at h
    cases h
  · exact ⟨a, s₁, rfl, (bind_of_ok hx).symm.trans h⟩

end Act

/-- What was looked up, or the reply that there is nothing. -/
def present {α : Type} : Option α → Act α
  | some a => pure a
  | none => throw .missing

/-- A result, or the reply that tells of a problem. -/
def sound {α : Type} : Except Problem α → Act α
  | .ok a => pure a
  | .error p => throw (.problem p)

/-- Notes that something happened. -/
def note (e : Event) : Act Unit := modify fun s => { s with log := s.log ++ [e] }

/-- Does something to the world. -/
def inWorld {α : Type} (f : World Handler → α × World Handler) : Act α :=
  modifyGet fun s =>
    let (a, world) := f s.world
    (a, { s with world })

/-- Replaces the world. -/
def setWorld (world : World Handler) : Act Unit := modify fun s => { s with world }

/-! ### Finding things -/

/-- The value that an operand stands for. -/
def operand : Operand → Act CellId
  | .fresh p => inWorld fun w => w.create p
  | .global key => do present ((← get).world.globals.get? key)
  | .entry map key => do
    let m ← present ((← get).maps.get? map)
    present (m.get? key)
  | .named name => do present ((← get).values.get? name)

/-- The map that an operand stands for. -/
def mapOperand : MapOperand → Act ValueMap
  | .named name => do present ((← get).maps.get? name)
  | .entries l => do
    let entries ← l.mapM fun e => do
      let c ← operand e.2
      pure (e.1, c)
    pure (.ofList entries)

/-- The signal under a name. -/
def namedSignal (name : String) : Act SignalId := do present ((← get).signals.get? name)

/-- The teardown under a name. -/
def namedTeardown (name : String) : Act Teardown := do present ((← get).teardowns.get? name)

/-- Makes sure that there is a teardown under a name, if one is given. -/
def expectTeardown : Option String → Act Unit
  | none => pure ()
  | some name => discard (namedTeardown name)

/-- The interactions of the session. -/
def declared : Act (Interactions CellId CellId) := do present (← get).interactions

/-- What a cell holds. -/
def payload (c : CellId) : Act Payload := do pure ((← get).world.payload c)

/-- What the cells of a map hold. -/
def payloads (m : ValueMap) : Act (OrderedMap Payload) := do pure (m.map (← get).world.payload)

/-! ### Keeping things -/

/-- Keeps a value under a name. -/
def keepValue (name : String) (c : CellId) : Act Unit :=
  modify fun s => { s with values := s.values.insert name c }

/-- Keeps a map under a name. -/
def keepMap (name : String) (m : ValueMap) : Act Unit :=
  modify fun s => { s with maps := s.maps.insert name m }

/-- Ends several subscriptions. -/
def cancelAll (subs : List Subscription) : Act Unit :=
  modify fun s => { s with world := s.world.cancelAll subs }

/-- Keeps a subscription under a name, and ends the one that was there. -/
def keepSubscription (name : String) (sub : Subscription) : Act Unit := do
  let former := (← get).subscriptions.get? name
  modify fun s => { s with subscriptions := s.subscriptions.insert name sub }
  cancelAll former.toList

/-- Keeps a signal under a name, and lets go of the one that was there. -/
def keepSignal (name : String) (signal : SignalId) : Act Unit := do
  let former := (← get).signals.get? name
  modify fun s =>
    { s with
      signals := s.signals.insert name signal
      world := former.toList.foldl World.letGo s.world }

/-- Keeps a new teardown under a name, and ends what the one that was there holds. -/
def renewTeardown (name : String) : Act Unit := do
  let former := (← get).teardowns.get? name
  modify fun s => { s with teardowns := s.teardowns.insert name .start }
  cancelAll (former.toList.flatMap Teardown.held)

/-- Hands subscriptions over to a teardown. -/
def handOver (name : String) (subs : List Subscription) : Act Unit := do
  let t ← namedTeardown name
  modify fun s =>
    let (t', world) := t.hold subs s.world
    { s with teardowns := s.teardowns.insert name t', world }

/-- Keeps a subscription under its name, or hands it over to a teardown. -/
def retain (name : String) (teardown : Option String) (sub : Subscription) : Act Unit :=
  match teardown with
  | none => keepSubscription name sub
  | some t => handOver t [sub]

/-! ### Values in use -/

/-- The cells that are in use: by what is kept under names, by the interactions, by the world, or in
the hands of commands that are not done. -/
def cellsInUse (s : Session) (inHand : List CellId) : List CellId :=
  s.values.values ++ s.maps.values.flatMap OrderedMap.values ++
    s.interactions.toList.flatMap Interactions.values ++ s.world.cellsInUse ++ inHand

end Session

end LiveTemplate
