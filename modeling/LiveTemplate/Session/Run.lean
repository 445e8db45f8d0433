import LiveTemplate.Session.Listening

/-!
# Runs

While a command is carried out, observers are told of changes and run commands of their own, which may
make further changes. A run keeps all that is begun and not done as a stack: work of the world, the
rest of a body, and the replies that are due. `Run.step` does a little of what is on top, and the run
is over when the stack is empty.

Some commands never come to an end, as two values can change each other for ever. `Run.upTo` therefore
takes a bound on the number of steps, and a session that reaches its bound gives no answer.
-/

namespace LiveTemplate.Session

open Engine

/-- Something that is begun and not done. -/
inductive Frame
  | work (w : Work Handler)
  | commands (rest : List (String × Command))
  /-- A reply that is due, to be noted under a label if the command stands in a body. -/
  | reply (label : Option String) (pending : Pending) (inHand : List CellId)

/-- The cells that something begun has in hand. -/
def Frame.cells : Frame → List CellId
  | work w => w.cells
  | commands _ => []
  | reply _ _ inHand => inHand

/-- A session at work: what is begun, the latest first, and the reply once it is known. -/
structure Run where
  session : Session
  frames : List Frame
  reply : Option Reply

/-- The reply that is due, as things stand. -/
def settle (s : Session) : Pending → Reply
  | .ready r => r
  | .clock => .clock s.world.clock.now s.world.clock.pending
  | .applied locals => .applied (.ok ()) (locals.map s.world.payload)
  | .dispatched locals => .applied (.ok ()) (locals.map s.world.payload)
  | .ended result locals => .applied result (locals.map s.world.payload)

/-- Tells the command that runs updates how they ended. One that dispatches reports a problem. -/
def conclude (w : World Handler) (result : Except Problem Unit) : List Frame → List Frame
  | .reply label (.applied locals) inHand :: rest =>
    .reply label (.ended result locals) inHand :: rest
  | .reply label (.dispatched locals) inHand :: rest =>
    let due : Frame := .reply label (.ended (.ok ()) locals) inHand
    match result with
    | .ok _ => due :: rest
    | .error p => (w.report p).map .work ++ due :: rest
  | frames => frames

namespace Run

/-- Begins a command on top of what is begun already. What one that fails has done stays done. -/
def enter (r : Run) (label : Option String) (c : Command) : Run :=
  let (result, session) := c.run (r.frames.flatMap Frame.cells) r.session
  let u := Undertaking.ofResult result
  -- What is begun already stays below, and goes on when the command is done.
  { r with
    session
    frames := u.work.map .work ++ .reply label u.pending u.inHand :: r.frames }

/-- A run of one command. -/
def start (s : Session) (c : Command) : Run := enter ⟨{ s with log := [] }, [], none⟩ none c

/-- Does a turn of work. A handler that is called notes what it is told and runs its body. -/
def turn (r : Run) (w : Work Handler) (rest : List Frame) : Run :=
  let t := r.session.world.turn w
  let called := t.call.toList
  { r with
    session :=
      { r.session with
        world := t.world
        log := r.session.log ++ called.map fun c => .told c.handler.name c.notice }
    -- The body comes before the rest of the work, so it acts while others are not yet told.
    frames := (called.map fun c => .commands c.handler.body) ++ t.next.map .work ++
      match t.outcome with
      | some result => conclude t.world result rest
      | none => rest }

/-- Does a little of what was begun last. -/
def step (r : Run) : Run :=
  match r.frames with
  | [] => r
  | .work w :: rest => r.turn w rest
  | .commands [] :: rest => { r with frames := rest }
  | .commands ((label, c) :: more) :: rest =>
    { r with frames := .commands more :: rest }.enter (some label) c
  | .reply label pending _ :: rest =>
    let reply := settle r.session pending
    match label with
    | some l =>
      { r with
        session := { r.session with log := r.session.log ++ [.did l reply] }
        frames := rest }
    | none => { r with frames := rest, reply := some reply }

/-- Whether nothing is left to do. -/
def isOver (r : Run) : Bool := r.frames.isEmpty

/-- Steps until a run is over, or a number of times. -/
def upTo : Nat → Run → Run
  | 0, r => r
  | n + 1, r => if r.isOver then r else upTo n r.step

end Run

end Session

open Engine Session

/-- What a session answers to a command: the reply, what happened, and what the globals hold
afterwards. -/
structure Session.Answer where
  reply : Reply
  log : List Event
  globals : OrderedMap Payload

namespace Session

/-- The session over a world, without anything kept. Its first listener for problems only notes
them. -/
def ofWorld (w : World Handler) (interactions : Option (Interactions CellId CellId)) : Session :=
  { world := (w.listen ⟨none, []⟩).2
    values := .empty, weakValues := .empty, maps := .empty, subscriptions := .empty
    signals := .empty, teardowns := .empty, timers := .empty
    interactions, table := .empty, log := [] }

/-- The session of a document. -/
def ofDocument (d : Template.Document) : Session :=
  let (i, w) := World.ofDocument d
  ofWorld w (some i)

/-- A session without interactions over some globals, which may be published. -/
def ofGlobals (globals : List (String × Payload)) (published : Bool) : Session :=
  let (entries, w) := World.start.createAll globals
  ofWorld { w with globals := .ofList entries, published } none

/-- Carries out a command in at most a number of steps. -/
def carryOut (bound : Nat) (s : Session) (c : Command) : Option (Answer × Session) :=
  let r := (Run.start s c).upTo bound
  if r.isOver then
    r.reply.map fun reply =>
      (⟨reply, r.session.log, r.session.world.globals.map r.session.world.payload⟩, r.session)
  else none

/-- Carries out commands one after the other, until one does not come to an end. -/
def answers (bound : Nat) (s : Session) : List Command → List Answer
  | [] => []
  | c :: rest =>
    match s.carryOut bound c with
    | some (a, s') => a :: answers bound s' rest
    | none => []

end Session

end LiveTemplate
