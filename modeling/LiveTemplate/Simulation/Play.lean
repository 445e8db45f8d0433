import LiveTemplate.Engine.Completion
import LiveTemplate.Engine.Installation
import LiveTemplate.Simulation.Script

/-!
# Playing a script

A script is played step by step against a document. Nobody observes the world of a simulation, so
there are no handlers. The one listener for problems gathers what is reported to it in a sink, which
is drained into the report of the step after each step.

An appearance that was asked for is kept up to date from then on. A later step that asks for it under
the same description is told how it stands, which for a recent change is not what a new look would
show.
-/

namespace LiveTemplate.Simulation

open Engine Wire

/-- What is at play: the world, the interactions, and the signals that were asked for, by their
descriptions. The problems that were reported wait in the sink, the latest last. -/
structure Stage where
  world : World Empty
  interactions : Interactions CellId CellId
  signals : OrderedMap SignalId
  sink : List Problem

/-- What comes of a step: the stage after it, and the answer if one was asked for. -/
structure Result where
  stage : Stage
  answer : Option Bool

/-- What is reported of a step. -/
structure Report where
  label : String
  answer : Option Bool
  problems : List Problem
  globals : OrderedMap Payload

namespace Stage

/-- The stage of a document. -/
def ofDocument (d : Template.Document) : Stage :=
  let (interactions, world) := World.ofDocument d
  ⟨world, interactions, .empty, []⟩

/-- Reports problems. -/
def report (s : Stage) (problems : List Problem) : Stage := { s with sink := s.sink ++ problems }

/-- Takes what is in the sink. -/
def drain (s : Stage) : List Problem × Stage := (s.sink, { s with sink := [] })

/-- A step that only reports a problem. -/
def fails (s : Stage) (p : Problem) : Result := ⟨s.report [p], none⟩

/-- The stage after work. A problem that it ended with is reported. -/
def after (s : Stage) (done : Completion Empty) : Result :=
  let problems := match done.outcome with
    | .ok _ => []
    | .error p => [p]
  ⟨{ s with world := done.world }.report problems, none⟩

theorem after_of_ok {s : Stage} {done : Completion Empty} (h : done.outcome = .ok ()) :
    s.after done = ⟨{ s with world := done.world }, none⟩ := by
  rw [after, h, report, List.append_nil]

theorem after_of_error {s : Stage} {done : Completion Empty} {p : Problem}
    (h : done.outcome = .error p) : s.after done = { s with world := done.world }.fails p := by
  rw [after, h]
  rfl

/-- What the globals hold. -/
def globals (s : Stage) : OrderedMap Payload := s.world.globals.map s.world.payload

/-- New values in a map. -/
def createMap (s : Stage) (entries : List (String × Payload)) : ValueMap × Stage :=
  let (cells, world) := s.world.createAll entries
  (.ofList cells, { s with world })

/-- Runs the action bound to a target and a kind. -/
def update (s : Stage) (target kind : String) (entries : List (String × Payload)) : Result :=
  let (locals, s') := s.createMap entries
  let updates := ((s.interactions.action? target kind).map Action.updates).getD []
  s'.after (s'.world.apply updates locals)

/-- Sets a global. -/
def set (s : Stage) (key : String) (p : Payload) : Result :=
  match s.world.global? key with
  | .error problem => s.fails problem
  | .ok none => ⟨s, none⟩
  | .ok (some c) =>
    match Payload.fold ⟨false, true⟩ (s.world.payload c) p with
    | none => s.fails (.cannotAssign p.kind key (s.world.payload c).kind)
    | some q =>
      let (_, world, work) := s.world.write c q
      s.after (world.completeAll work)

/-- The description under which an appearance is kept. -/
def description (target kind : String) (entries : List (String × Payload)) : String :=
  target ++ "/" ++ kind ++ " " ++ (OrderedMap.ofList entries).describe id

/-- Keeps a signal, and answers how it stands. -/
def keep (s : Stage) (key : String) (opened : SignalId × World Empty) : Result :=
  ⟨{ s with world := opened.2, signals := s.signals.insert key opened.1 },
    some (opened.2.truth opened.1)⟩

/-- Answers how the reaction bound to a target and a kind stands; without one, that it does not
hold. -/
def observe (s : Stage) (target kind : String) (entries : List (String × Payload)) : Result :=
  let key := description target kind entries
  match s.signals.get? key with
  -- A signal that was opened before is asked again: it may remember a change.
  | some signal => ⟨s, some (s.world.truth signal)⟩
  | none =>
    match s.interactions.reaction? target kind with
    | none => s.keep key (s.world.constant false)
    | some r =>
      let (locals, s') := s.createMap entries
      match s'.world.observePredicate locals r.predicate with
      | .error p => s'.fails p
      | .ok opened => s'.keep key opened

/-- Lets time pass. -/
def advance (s : Stage) (ms : UInt64) : Result := s.after (s.world.wait ms)

/-- Plays a step, its tagged values over a table of texts. -/
def play (s : Stage) (table : List String) : Step → Result
  | .update target kind locals =>
    match Tagged.payloads table locals with
    | .error m => s.fails (.misfit m)
    | .ok entries => s.update target kind entries
  | .set key value =>
    match value.payload table with
    | .error m => s.fails (.misfit m)
    | .ok p => s.set key p
  | .observe target kind locals =>
    match Tagged.payloads table locals with
    | .error m => s.fails (.misfit m)
    | .ok entries => s.observe target kind entries
  | .advance ms => s.advance ms

/-- Plays steps one after the other, and drains the sink after each. -/
def reports (s : Stage) (table : List String) : List Step → List Report
  | [] => []
  | step :: rest =>
    let r := s.play table step
    let drained := r.stage.drain
    ⟨step.label, r.answer, drained.1, drained.2.globals⟩ :: drained.2.reports table rest

end Stage

/-- The reports of a script played against a document. -/
def play (d : Template.Document) (script : Script) : List Report :=
  (Stage.ofDocument d).reports script.strings script.steps

end LiveTemplate.Simulation
