import LiveTemplate.Engine.Observation

/-!
# Work

A change is not over when it is made: observers are told, one after the other, and while one of them
is at it there may be further changes. What is still to be done is kept as a list of work, the next
piece first, and `World.turn` does a small part of the first piece. When a handler has to be called,
the turn says so and leaves the call to whoever runs the world; whatever the handler does comes
before the rest of the work.

Whoever is told of a change is told by a list made at the change. An observer that has gone when its
turn comes is passed over; one that came later is not on the list.
-/

namespace LiveTemplate.Engine

/-- A piece of work. -/
inductive Work (η : Type)
  /-- Tells the observers of a cell that its payload has changed. The one before them may still be at
  it. -/
  | tellCell (cell : CellId) (current : Option (Observer η)) (rest : List (Observer η))
  /-- Tells the subscribers of a signal that it has become true or false. -/
  | tellSignal (signal : SignalId) (truth : Bool) (rest : List (Ticket × η))
  /-- Tells the listeners of a problem. -/
  | tellProblem (problem : Problem) (rest : List (Ticket × η))
  /-- Tells those who wait that the global state is published. -/
  | tellPublished (rest : List η)
  /-- Ends the answer of a changed term to a change. -/
  | settle (signal : SignalId) (place : Nat)
  /-- Lets go of a signal. -/
  | letGo (signal : SignalId)
  /-- Moves the clock on to a time, timer by timer. -/
  | advance (target : UInt64)
  /-- Runs updates, the first first. -/
  | perform (updates : List (Update CellId)) (locals : ValueMap)

/-- What a handler is told. -/
inductive Notice
  | payload (p : Payload)
  | truth (b : Bool)
  | arguments (args : OrderedMap Payload)
  | problem (p : Problem)
  | due (now : UInt64)
  | published (keys : Nat)

/-- A handler and what it is told. -/
structure Call (η : Type) where
  handler : η
  notice : Notice

/-- What comes of a turn: the world after it, a handler to call, the work that takes the place of the
piece that was begun, and, if updates have come to their end, how. -/
structure Turn (η : Type) where
  world : World η
  call : Option (Call η)
  next : List (Work η)
  outcome : Option (Except Problem Unit)

/-- The cells that an observer keeps in use: the arguments of a watcher. -/
def Observer.cells {η : Type} (o : Observer η) : List CellId :=
  match o.role with
  | .watcher _ args => args.values
  | _ => []

/-- The cells that a piece of work has in hand. -/
def Work.cells {η : Type} : Work η → List CellId
  | .tellCell c current rest => c :: (current.toList ++ rest).flatMap Observer.cells
  | .perform updates locals => Update.allLiterals updates ++ locals.values
  | _ => []

namespace Turn

variable {η : Type}

/-- A turn that only leaves work. -/
def goOn (w : World η) (next : List (Work η)) : Turn η := ⟨w, none, next, none⟩

/-- A turn that calls a handler. -/
def calling (w : World η) (h : η) (notice : Notice) (next : List (Work η)) : Turn η :=
  ⟨w, some ⟨h, notice⟩, next, none⟩

/-- A turn at which updates end. -/
def ending (w : World η) (outcome : Except Problem Unit) : Turn η := ⟨w, none, [], some outcome⟩

end Turn

namespace World

variable {η : Type}

/-! ### Changes -/

/-- Puts a payload into a cell. If it differs from the one before, the observers are to be told. Also
says whether it differed. -/
def write (w : World η) (c : CellId) (p : Payload) : Bool × World η × List (Work η) :=
  -- An equal payload changes nothing, so nobody is told.
  if w.payload c == p then (false, w, [])
  else
    (true, { w with cells := w.cells.modify c fun cell => { cell with payload := p } },
      [.tellCell c none (w.observers c)])

/-- Folds a cell into another, if their payloads allow it. -/
def fold (w : World η) (target source : CellId) (mode : Payload.FoldMode) :
    Option (World η × List (Work η)) :=
  (Payload.fold mode (w.payload target) (w.payload source)).map fun p => (w.write target p).2

/-- Puts a payload of the same kind into a cell. -/
def assign (w : World η) (c : CellId) (p : Payload) :
    Except Problem (Bool × World η × List (Work η)) :=
  if p.kind = (w.payload c).kind then .ok (w.write c p)
  else .error (.kindMismatch p.kind (w.payload c).kind)

/-- Brings a cell back to the zero of its kind. -/
def reset (w : World η) (c : CellId) : Bool × World η × List (Work η) :=
  w.write c (w.payload c).zero

/-- Changes a term of a signal. If that turns the signal, it is held while its subscribers are
told. -/
def setTerm (w : World η) (s : SignalId) (place : Nat) (f : LiveTerm → LiveTerm) :
    World η × List (Work η) :=
  match w.signals.get? s with
  | none => (w, [])
  | some signal =>
    let changed := { signal with circuit := signal.circuit.amend f place }
    let w' := { w with signals := w.signals.modify s fun _ => changed }
    if changed.truth = signal.truth then (w', [])
    else (w'.hold s, [.tellSignal s changed.truth changed.subscribers, .letGo s])

/-- The term of a signal at a place. -/
def term? (w : World η) (s : SignalId) (place : Nat) : Option LiveTerm :=
  (w.signals.get? s).bind fun signal => signal.circuit.leaf? place

/-- Whether a signal is for a single term. -/
def isBare (w : World η) (s : SignalId) : Bool :=
  ((w.signals.get? s).map fun signal => signal.circuit.isLeaf).getD false

/-- Looks at a term of a signal after one of its operands has changed. A relation is tested again. A
changed term drops its timer and becomes true; whether it stays so is settled once its subscribers
know, and until then a signal for that term alone is held. -/
def refresh (w : World η) (s : SignalId) (place : Nat) : World η × List (Work η) :=
  match w.term? s place with
  | none => (w, [])
  | some live =>
    match live.term with
    | .relation r left right =>
      w.setTerm s place fun t => { t with truth := r.holds (w.payload left) (w.payload right) }
    | .changed _ _ =>
      -- The end of the window of an earlier change must not end this one.
      let clock := live.timer.toList.foldl Clock.cancel w.clock
      let (w', works) := { w with clock }.setTerm s place fun t =>
        { t with truth := true, timer := none }
      if w.isBare s then (w'.hold s, works ++ [.settle s place, .letGo s])
      else (w', works ++ [.settle s place])

/-- Ends the answer of a changed term: without a window it becomes false at once, otherwise a timer is
set for the end of the window. -/
def settle (w : World η) (s : SignalId) (place : Nat) : World η × List (Work η) :=
  match w.term? s place with
  | some ⟨.changed _ window, _, _⟩ =>
    if window = 0 then w.setTerm s place fun t => { t with truth := false }
    else
      let (timer, clock) := w.clock.schedule window (.expire s place)
      { w with clock }.setTerm s place fun t => { t with timer := some timer }
  | _ => (w, [])

/-- The end of the window of a changed term. -/
def expire (w : World η) (s : SignalId) (place : Nat) : World η × List (Work η) :=
  w.setTerm s place fun t => { t with truth := false, timer := none }

/-- Calls a handler once the global state is published. -/
def onPublish (w : World η) (h : η) : World η × List (Work η) :=
  if w.published then (w, [.tellPublished [h]]) else ({ w with hooks := w.hooks ++ [h] }, [])

/-- Publishes the global state, the first time. -/
def publish (w : World η) : World η × List (Work η) :=
  if w.published then (w, [])
  else ({ w with published := true, hooks := [] }, [.tellPublished w.hooks])

/-- Reports a problem to all who listen. -/
def report (w : World η) (p : Problem) : List (Work η) := [.tellProblem p w.listeners]

/-- Moves the clock on by some milliseconds. -/
def advance (w : World η) (ms : UInt64) : List (Work η) := [.advance (addUpTo w.clock.now ms)]

/-! ### Updates -/

/-- The cell of a target of an update. -/
def target (w : World η) (locals : ValueMap) (update : String) (r : Reference CellId) :
    Except Problem CellId := do
  match ← w.resolve locals r with
  | some c => pure c
  | none => .error (.unresolvedTarget update (r.describe w.describe))

/-- Folds one reference into another. A source that is not found leaves everything as it is. -/
def foldInto (w : World η) (locals : ValueMap) (update : String) (target source : Reference CellId)
    (mode : Payload.FoldMode) : Except Problem (World η × List (Work η)) := do
  match ← w.resolve locals source with
  | none => pure (w, [])
  | some from_ =>
    let into ← w.target locals update target
    match w.fold into from_ mode with
    | some done => pure done
    | none => .error (.cannotFold update (w.payload from_).kind (w.payload into).kind)

/-- Carries out an assignment. -/
def assignReference (w : World η) (locals : ValueMap) (a : Assignment)
    (target source : Reference CellId) : Except Problem (World η × List (Work η)) :=
  match a with
  | .setIfEmpty => do
    let into ← w.target locals a.name target
    if (w.payload into).isZero then w.foldInto locals a.name target source a.mode else pure (w, [])
  | _ => w.foldInto locals a.name target source a.mode

/-- Brings a target back to zero. -/
def clearReference (w : World η) (locals : ValueMap) (target : Reference CellId) :
    Except Problem (World η × List (Work η)) := do
  let into ← w.target locals "clear" target
  pure (w.reset into).2

/-- One of two lists of updates, as a predicate decides. -/
def choice (w : World η) (locals : ValueMap) (condition : Predicate CellId)
    (updates otherwise : List (Update CellId)) :
    Except Problem (List (Update CellId)) × World η :=
  match w.evaluate locals condition with
  | (.error e, w') => (.error e, w')
  | (.ok true, w') => (.ok updates, w')
  | (.ok false, w') => (.ok otherwise, w')

/-- The updates of the first case whose predicate holds; none if there is no such case. -/
def chosenCase (w : World η) (locals : ValueMap) :
    List (Case CellId) → Except Problem (List (Update CellId)) × World η
  | [] => (.ok [], w)
  | .mk condition updates :: rest =>
    match w.evaluate locals condition with
    | (.error e, w') => (.error e, w')
    | (.ok true, w') => (.ok updates, w')
    | (.ok false, w') => w'.chosenCase locals rest

/-- Goes on with updates chosen by a predicate, or ends at its problem. -/
def branch (chosen : Except Problem (List (Update CellId)) × World η)
    (rest : List (Update CellId)) (locals : ValueMap) : Turn η :=
  match chosen with
  | (.error e, w) => .ending w (.error e)
  | (.ok updates, w) => .goOn w [.perform (updates ++ rest) locals]

/-- Goes on after a change that an update made, or ends at its problem. -/
def primitive (w : World η) (done : Except Problem (World η × List (Work η)))
    (rest : List (Update CellId)) (locals : ValueMap) : Turn η :=
  match done with
  | .error e => .ending w (.error e)
  | .ok (w', works) => .goOn w' (works ++ [.perform rest locals])

/-- Does the first part of a list of updates. -/
def perform (w : World η) (updates : List (Update CellId)) (locals : ValueMap) : Turn η :=
  match updates with
  | [] => .ending w (.ok ())
  | .assign a target source :: rest =>
    w.primitive (w.assignReference locals a target source) rest locals
  | .clear [] :: rest => .goOn w [.perform rest locals]
  | .clear (target :: others) :: rest =>
    w.primitive (w.clearReference locals target) (.clear others :: rest) locals
  -- Parts of an update are put in front of what follows it, so all goes on in order.
  | .sequence us :: rest => .goOn w [.perform (us ++ rest) locals]
  | .when condition us :: rest => branch (w.choice locals condition us []) rest locals
  | .choose condition us otherwise :: rest =>
    branch (w.choice locals condition us otherwise) rest locals
  | .switch cases :: rest => branch (w.chosenCase locals cases) rest locals

/-! ### Turns -/

/-- Does the first part of a piece of work. -/
def turn (w : World η) : Work η → Turn η
  | .tellCell _ _ [] => .goOn w []
  | .tellCell c _ (o :: rest) =>
    let after : Work η := .tellCell c (some o) rest
    -- Whoever stopped observing since the change is passed over.
    if w.observes c o.ticket then
      match o.role with
      | .handler h => .calling w h (.payload (w.payload c)) [after]
      | .watcher h args => .calling w h (.arguments (args.map w.payload)) [after]
      | .term s place =>
        let (w', works) := w.refresh s place
        .goOn w' (works ++ [after])
    else .goOn w [after]
  | .tellSignal _ _ [] => .goOn w []
  | .tellSignal s truth ((ticket, h) :: rest) =>
    let after : Work η := .tellSignal s truth rest
    if w.subscribes s ticket then .calling w h (.truth truth) [after] else .goOn w [after]
  | .tellProblem _ [] => .goOn w []
  | .tellProblem p ((ticket, h) :: rest) =>
    let after : Work η := .tellProblem p rest
    if w.listens ticket then .calling w h (.problem p) [after] else .goOn w [after]
  | .tellPublished [] => .goOn w []
  | .tellPublished (h :: rest) =>
    .calling w h (.published w.globals.size) [.tellPublished rest]
  | .settle s place =>
    let (w', works) := w.settle s place
    .goOn w' works
  | .letGo s => .goOn (w.letGo s) []
  | .advance target =>
    match w.clock.takeDue? target with
    | none => .goOn { w with clock := w.clock.moveTo target } []
    | some (timer, clock) =>
      let w' := { w with clock }
      match timer.task with
      | .handler h => .calling w' h (.due clock.now) [.advance target]
      | .expire s place =>
        let (w'', works) := w'.expire s place
        .goOn w'' (works ++ [.advance target])
  | .perform updates locals => w.perform updates locals

/-! ### Cells in use -/

/-- The cells that the world itself keeps in use: globals, the operands of signals, and the arguments of
watchers. -/
def cellsInUse (w : World η) : List CellId :=
  w.globals.values ++
    w.signals.entries.flatMap (fun e => e.2.circuit.leaves.flatMap fun t => t.term.operands) ++
    w.cells.entries.flatMap fun e => e.2.observers.flatMap Observer.cells

end World

end LiveTemplate.Engine
