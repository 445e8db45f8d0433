import LiveTemplate.Session.Undertaking

/-!
# Commands on values
-/

namespace LiveTemplate.Session

open Engine

/-- The texts that the indices of a tagged value point into. -/
def textsFor (strings : Option (List String)) : Act (List String) := do
  pure (strings.getD (← get).table.strings)

/-- Writes a payload, its texts into the table of the session if `indexed`. -/
def taggedForm (p : Payload) (indexed : Bool) : Act Wire.Tagged :=
  if indexed then
    modifyGet fun s =>
      let (tagged, grown) := p.toIndexed s.table
      (tagged, { s with table := grown })
  else pure p.toTagged

/-- Carries out a command on values, while other commands have some cells in hand. -/
def ValueCommand.run (inHand : List CellId) : ValueCommand → Act Undertaking
  | .keep name form of => do
    let c ← operand of
    let p ← payload c
    let kept ← match form with
      | .itself => pure c
      | .copy => inWorld fun w => w.create p
      | .zero => inWorld fun w => w.create p.zero
    keepValue name kept
    answer (.described (← payload kept))
  | .discard name => do
    let known := (← get).values.has name
    modify fun s => { s with values := s.values.without [name] }
    answer (.flag known)
  | .keepWeakly name of => do
    let c ← operand of
    modify fun s => { s with weakValues := s.weakValues.insert name c }
    answer .done
  | .upgrade name => do
    let s ← get
    let c ← present (s.weakValues.get? name)
    answer (if (s.cellsInUse inHand).contains c then .described (s.world.payload c) else .nothing)
  | .inspect of => do answer (.inspected (← payload (← operand of)))
  | .fold target source mode => do
    let into ← operand target
    let from_ ← operand source
    match (← get).world.fold into from_ mode with
    | none => answer (.flag false)
    | some done => leave done (.flag true) [into, from_]
  | .assign target source => do
    let into ← operand target
    let from_ ← operand source
    let (changed, done) ← sound ((← get).world.assign into (← payload from_))
    leave done (.flag changed) [into, from_]
  | .reset of => do
    let c ← operand of
    let (changed, done) := (← get).world.reset c
    leave done (.flag changed) [c]
  | .relate left right => do
    let a ← operand left
    let b ← operand right
    answer (.related (← payload a) (← payload b))
  | .same left right => do
    let a ← operand left
    let b ← operand right
    answer (.flag (a == b))
  | .read of kind => do
    let p ← payload (← operand of)
    answer (if p.kind = kind then .content p else .nothing)
  | .countObservers of => do
    let c ← operand of
    answer (.number ((← get).world.observers c).length)
  | .encode of indexed => do
    let p ← payload (← operand of)
    answer (.tagged (← taggedForm p indexed))
  | .decode name tagged strings => do
    let p ← sound ((tagged.payload (← textsFor strings)).mapError .misfit)
    let c ← inWorld fun w => w.create p
    keepValue name c
    answer (.described p)

end LiveTemplate.Session
