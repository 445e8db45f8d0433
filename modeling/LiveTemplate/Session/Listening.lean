import LiveTemplate.Session.Bindings
import LiveTemplate.Session.Globals
import LiveTemplate.Session.Maps
import LiveTemplate.Session.Upkeep

/-!
# Carrying out commands

What any command does at once, and what it leaves to be done. An observer of a value, a signal or a
watch is told how things stand when it begins to observe, and does not act on that; only what it is
told later makes it run its body.
-/

namespace LiveTemplate.Session

open Engine

/-- Begins to observe a channel. If a teardown is to hold what stops the observer, nothing is begun
without it. -/
def listen (channel : Channel) (name : String) (teardown : Option String)
    (body : List (String × Command)) : Act Undertaking := do
  let h : Handler := ⟨some name, body⟩
  match channel with
  | .value of => do
    let c ← operand of
    expectTeardown teardown
    let ticket ← inWorld fun w => w.observe c (.handler h)
    retain name teardown (.ofCell c ticket)
    note (.told h.name (.payload (← payload c)))
    answer .done
  | .signal of => do
    let s ← namedSignal of
    expectTeardown teardown
    let ticket ← inWorld fun w => w.subscribe s h
    retain name teardown (.ofSignal s ticket)
    note (.told h.name (.truth (← truth s)))
    answer .done
  | .problems => do
    expectTeardown teardown
    let ticket ← inWorld fun w => w.listen h
    retain name teardown (.ofProblems ticket)
    answer .done
  | .publication => do leave ((← get).world.onPublish h) .done []
  | .timer delay => do
    let timer ← inWorld fun w =>
      let (id, clock) := w.clock.schedule delay (.handler h)
      (id, { w with clock })
    modify fun s => { s with timers := s.timers.insert name timer }
    answer .done
  | .watch kind => do
    let i ← declared
    let t ← present teardown
    beginWatch noted i kind h t
    answer .done

/-- Carries out a command, while other commands have some cells in hand. -/
def Command.run (inHand : List CellId) : Command → Act Undertaking
  | .value c => c.run inHand
  | .map c => c.run
  | .upkeep c => c.run
  | .globals c => c.run
  | .expression c => c.run
  | .interactions c => c.run
  | .listen channel name teardown body => Session.listen channel name teardown body
  | .refused p => throw (.problem p)
  | .untagged => throw .untagged

end LiveTemplate.Session
