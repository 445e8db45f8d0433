import LiveTemplate.Session.Values

/-!
# Commands on maps of values
-/

namespace LiveTemplate.Session

open Engine

/-- Keeps a map under a name and replies what it holds. -/
def keepAndShow (name : String) (m : ValueMap) : Act Undertaking := do
  keepMap name m
  answer (.map (← payloads m))

/-- A map of new values. -/
def freshMap (entries : List (String × Payload)) : Act ValueMap := do
  let cells ← inWorld fun w => w.createAll entries
  pure (.ofList cells)

/-- Carries out a command on maps. -/
def MapCommand.run : MapCommand → Act Undertaking
  | .keep name of => do keepAndShow name (← mapOperand of)
  | .keepCopy name of => do
    let m ← payloads (← mapOperand of)
    keepAndShow name (← freshMap m.entries)
  | .insert name key value => do
    let m ← present ((← get).maps.get? name)
    let c ← operand value
    keepAndShow name (m.insert key c)
  | .keepWithout name of keys => do
    let m ← mapOperand of
    keepAndShow name (m.without keys)
  | .keepWith name of key value => do
    let m ← mapOperand of
    let c ← operand value
    keepAndShow name (m.insert key c)
  | .keepUnion name of => do
    let maps ← of.mapM mapOperand
    let m ← sound (OrderedMap.union (← get).world.payload maps)
    keepAndShow name m
  | .decode name entries strings => do
    let decoded ← sound ((Wire.Tagged.payloads (← textsFor strings) entries).mapError .misfit)
    keepAndShow name (← freshMap decoded)
  | .find of key => do
    let m ← payloads (← mapOperand of)
    answer (.found (m.get? key))
  | .inspect of => do answer (.inspectedMap (← payloads (← mapOperand of)))
  | .expect of key kind => do
    let m ← payloads (← mapOperand of)
    match kind with
    | none => answer (.described (← sound (m.expect key .fatal)))
    | some kind => answer (.content (← sound (OrderedMap.expectKind id m key kind)))
  | .format of template => do
    let m ← payloads (← mapOperand of)
    answer (.text (← sound (OrderedMap.format id m template)))

end LiveTemplate.Session
