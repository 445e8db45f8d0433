import LiveTemplate.Session.Undertaking

/-!
# Commands on subscriptions, teardowns, timers and the table of texts
-/

namespace LiveTemplate.Session

open Engine

/-- Whether a subscription has something to end. -/
def isActive (sub : Subscription) : Bool := sub != .none

/-- Carries out a command on what is kept for the observers' sake. -/
def UpkeepCommand.run : UpkeepCommand → Act Undertaking
  | .unsubscribe name => do
    let former := (← get).subscriptions.get? name
    modify fun s => { s with subscriptions := s.subscriptions.without [name] }
    cancelAll former.toList
    answer (.flag former.isSome)
  | .keepNoSubscription name => do
    keepSubscription name .none
    answer .done
  | .subscription name => do
    match (← get).subscriptions.get? name with
    | some sub => answer (.subscription (isActive sub))
    | none => answer .nothing
  | .keepTeardown name => do
    renewTeardown name
    answer .done
  | .fire name => do
    let t ← namedTeardown name
    modify fun s =>
      let (t', world) := t.fire s.world
      { s with teardowns := s.teardowns.insert name t', world }
    answer .done
  | .teardown name => do
    let t ← namedTeardown name
    answer (.teardown t.isFired t.held.length)
  | .cancelTimer name => do
    let timer ← present ((← get).timers.get? name)
    inWorld fun w => ((), { w with clock := w.clock.cancel timer })
    answer .done
  | .advance ms => do pure ⟨(← get).world.advance ms, .clock, []⟩
  | .clock => do
    let clock := (← get).world.clock
    answer (.clock clock.now clock.pending)
  | .intern text => do
    let i ← modifyGet fun s =>
      let (i, grown) := s.table.intern text
      (i, { s with table := grown })
    answer (.number i)
  | .table => do answer (.table (← get).table)

end LiveTemplate.Session
