import LiveTemplate.Engine.Circuit
import LiveTemplate.Engine.Clock
import LiveTemplate.Engine.Registry
import LiveTemplate.Expr.Interactions
import LiveTemplate.Value.Maps

/-!
# The world

All that lives while a template is in use: cells, which hold payloads and know who observes them;
signals, which are predicates kept up to date; the clock; the global state; and whoever listens for
problems.

Who is told of something is a *handler*, of a type `η` that is left open: the world stores handlers and
says when they are called, not what they do.

A cell is known by its number and never goes away. A signal goes away when its last holder lets go of
it, and with it everything it set up: its observers on the cells it reads and its timers.
-/

namespace LiveTemplate.Engine

/-- The number of a signal. -/
abbrev SignalId := Nat

/-- The number under which someone observes something. -/
abbrev Ticket := Nat

/-- A map from keys to cells. -/
abbrev ValueMap := OrderedMap CellId

/-- What an observer of a cell does when the payload changes. -/
inductive Role (η : Type)
  /-- Tells a handler what the cell holds. -/
  | handler (h : η)
  /-- Tells a handler what the cells of a map hold. -/
  | watcher (h : η) (args : ValueMap)
  /-- Looks at a term of a signal again. -/
  | term (signal : SignalId) (place : Nat)

/-- An observer of a cell. -/
structure Observer (η : Type) where
  ticket : Ticket
  role : Role η

/-- Whether an observer looks at a term of a signal. -/
def Observer.serves {η : Type} (s : SignalId) (o : Observer η) : Bool :=
  match o.role with
  | .term signal _ => signal == s
  | _ => false

/-- A value: what it holds, and its observers in the order in which they came. -/
structure Cell (η : Type) where
  payload : Payload
  observers : List (Observer η)

/-- A predicate kept up to date, with its subscribers in the order in which they came, and the number
of those who hold it. -/
structure Signal (η : Type) where
  circuit : Circuit
  subscribers : List (Ticket × η)
  holders : Nat

/-- What a timer is set for. -/
inductive Task (η : Type)
  | handler (h : η)
  /-- The end of the window of a changed term. -/
  | expire (signal : SignalId) (place : Nat)

/-- Everything that lives. -/
structure World (η : Type) where
  cells : Registry (Cell η)
  signals : Registry (Signal η)
  clock : Clock (Task η)
  nextTicket : Ticket
  globals : ValueMap
  published : Bool
  /-- Who waits for the global state to be published. -/
  hooks : List η
  /-- Who listens for problems. -/
  listeners : List (Ticket × η)

/-- Whether a signal is true, as its circuit remembers. -/
def Signal.truth {η : Type} (s : Signal η) : Bool := s.circuit.truth

/-- A way to stop observing. -/
inductive Subscription
  /-- Nothing to stop. -/
  | none
  | ofCell (cell : CellId) (ticket : Ticket)
  | ofSignal (signal : SignalId) (ticket : Ticket)
  | ofProblems (ticket : Ticket)
  deriving Repr, DecidableEq

namespace World

variable {η : Type}

/-- The world in which there is nothing yet. -/
def start : World η :=
  ⟨.empty, .empty, .start, 0, .empty, false, [], []⟩

/-! ### Cells -/

/-- What a cell holds. -/
def payload (w : World η) (c : CellId) : Payload :=
  ((w.cells.get? c).map Cell.payload).getD .empty

/-- Who observes a cell. -/
def observers (w : World η) (c : CellId) : List (Observer η) :=
  ((w.cells.get? c).map Cell.observers).getD []

/-- A new cell. -/
def create (w : World η) (p : Payload) : CellId × World η :=
  let (c, cells) := w.cells.add ⟨p, []⟩
  (c, { w with cells })

/-- New cells for the entries of a list. -/
def createAll (w : World η) : List (String × Payload) → List (String × CellId) × World η
  | [] => ([], w)
  | (key, p) :: rest =>
    let (c, w') := w.create p
    let (others, final) := w'.createAll rest
    ((key, c) :: others, final)

/-- Adds an observer to a cell. -/
def observe (w : World η) (c : CellId) (role : Role η) : Ticket × World η :=
  (w.nextTicket,
    { w with
      nextTicket := w.nextTicket + 1
      cells := w.cells.modify c fun cell =>
        { cell with observers := cell.observers ++ [⟨w.nextTicket, role⟩] } })

/-- Whether an observer is still there. -/
def observes (w : World η) (c : CellId) (ticket : Ticket) : Bool :=
  (w.observers c).any (·.ticket == ticket)

/-! ### Signals -/

/-- Adds a signal, held once, that nobody subscribes to. -/
def addSignal (w : World η) (circuit : Circuit) : SignalId × World η :=
  let (s, signals) := w.signals.add ⟨circuit, [], 1⟩
  (s, { w with signals })

/-- Adds a subscriber to a signal. -/
def subscribe (w : World η) (s : SignalId) (h : η) : Ticket × World η :=
  (w.nextTicket,
    { w with
      nextTicket := w.nextTicket + 1
      signals := w.signals.modify s fun signal =>
        { signal with subscribers := signal.subscribers ++ [(w.nextTicket, h)] } })

/-- Whether a subscriber of a signal is still there. -/
def subscribes (w : World η) (s : SignalId) (ticket : Ticket) : Bool :=
  match w.signals.get? s with
  | some signal => signal.subscribers.any (·.1 == ticket)
  | none => false

/-- Holds a signal once more. -/
def hold (w : World η) (s : SignalId) : World η :=
  { w with signals := w.signals.modify s fun signal => { signal with holders := signal.holders + 1 } }

/-- Takes a signal away, with its timers and its observers on the cells that it reads. -/
def dispose (w : World η) (s : SignalId) : World η :=
  match w.signals.get? s with
  | none => w
  | some signal =>
    let terms := signal.circuit.leaves
    let clock := (terms.filterMap LiveTerm.timer).foldl Clock.cancel w.clock
    let read := terms.flatMap fun t => t.term.operands
    let cells := read.foldl (fun cells c => cells.modify c fun cell =>
      { cell with observers := cell.observers.filter fun o => !o.serves s }) w.cells
    { w with clock, cells, signals := w.signals.remove s }

/-- Lets go of a signal; the last holder takes it away. -/
def letGo (w : World η) (s : SignalId) : World η :=
  match w.signals.get? s with
  | none => w
  | some signal =>
    if signal.holders ≤ 1 then w.dispose s
    else
      { w with signals := w.signals.modify s fun sig => { sig with holders := sig.holders - 1 } }

/-! ### Problems -/

/-- Adds a listener for problems. -/
def listen (w : World η) (h : η) : Ticket × World η :=
  (w.nextTicket,
    { w with nextTicket := w.nextTicket + 1, listeners := w.listeners ++ [(w.nextTicket, h)] })

/-- Whether a listener for problems is still there. -/
def listens (w : World η) (ticket : Ticket) : Bool := w.listeners.any (·.1 == ticket)

/-! ### Subscriptions -/

/-- Stops observing. What is gone already stays gone. -/
def cancel (w : World η) : Subscription → World η
  | .none => w
  | .ofCell c ticket =>
    { w with
      cells := w.cells.modify c fun cell =>
        { cell with observers := cell.observers.filter fun o => o.ticket != ticket } }
  | .ofSignal s ticket =>
    { w with
      signals := w.signals.modify s fun signal =>
        { signal with subscribers := signal.subscribers.filter fun e => e.1 != ticket } }
  | .ofProblems ticket => { w with listeners := w.listeners.filter fun e => e.1 != ticket }

/-- Adds a watcher to every cell of a map, in order. -/
def watch (w : World η) (h : η) (args : ValueMap) : List Subscription × World η :=
  args.values.foldl (fun (subs, w) c =>
    let (ticket, w') := w.observe c (.watcher h args)
    (subs ++ [.ofCell c ticket], w')) ([], w)

/-! ### Global state -/

/-- The cell of a global: none before the global state is published, and a problem for an unknown key
afterwards. -/
def global? (w : World η) (key : String) : Except Problem (Option CellId) :=
  if w.published then
    match w.globals.get? key with
    | some c => .ok (some c)
    | none => .error (.unknownGlobal key)
  else .ok none

/-- Adds a global. Once published, the global state takes no more keys. -/
def addGlobal (w : World η) (key : String) (c : CellId) : Except Problem (World η) :=
  if w.published then .error (.frozenGlobals key)
  else if w.globals.has key then .error (.repeatedGlobal key)
  else .ok { w with globals := w.globals.insert key c }

/-! ### References -/

/-- The cell a reference stands for, if any, in a map of local values. -/
def resolve (w : World η) (locals : ValueMap) : Reference CellId → Except Problem (Option CellId)
  | .literal c => .ok (some c)
  | .fromLocal key => .ok (locals.get? key)
  | .fromGlobal key => w.global? key

/-- What a cell holds, with its kind. -/
def describe (w : World η) (c : CellId) : String := (w.payload c).describe

/-- What the cells of a map hold. -/
def describeMap (w : World η) (m : ValueMap) : String := m.describe w.payload

end World

end LiveTemplate.Engine
