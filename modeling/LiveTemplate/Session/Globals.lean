import LiveTemplate.Session.Undertaking

/-!
# Commands on the global state and on problems
-/

namespace LiveTemplate.Session

open Engine

/-- Carries out a command on the global state or on problems. -/
def GlobalCommand.run : GlobalCommand → Act Undertaking
  | .insert key value => do
    let c ← operand value
    setWorld (← sound ((← get).world.addGlobal key c))
    answer .done
  | .find key => do
    match ← sound ((← get).world.global? key) with
    | some c => answer (.described (← payload c))
    | none => answer .nothing
  | .publish => do leave (← get).world.publish .done []
  | .inspect => do
    let w := (← get).world
    answer (.globals w.published (← payloads w.globals))
  | .report problem => do pure (.after ((← get).world.report problem) .done [])

end LiveTemplate.Session
