import LiveTemplate.Engine.Work
import LiveTemplate.Wire.StringTable

/-!
# Commands

What can be asked of a session. Commands keep what they make under names, a separate namespace for
each kind of thing, and later commands refer to it by name.

A command that observes something comes with a body: commands that are run each time the observer is
told of a change.
-/

namespace LiveTemplate.Session

/-- Where a command finds a value. -/
inductive Operand
  /-- A new value. -/
  | fresh (p : Payload)
  | global (key : String)
  /-- The value under a key of a named map. -/
  | entry (map key : String)
  | named (name : String)

/-- Where a command finds a map of values. -/
inductive MapOperand
  | named (name : String)
  | entries (l : List (String × Operand))

/-- What is made of a value that is to be kept. -/
inductive Form
  | itself
  /-- A new value with the same payload. -/
  | copy
  /-- A new value with the zero of the kind. -/
  | zero
  deriving Repr, DecidableEq

/-- Commands on single values. -/
inductive ValueCommand
  | keep (name : String) (form : Form) (of : Operand)
  | discard (name : String)
  /-- Keeps a value in mind without keeping it in use. -/
  | keepWeakly (name : String) (of : Operand)
  /-- What a value kept in mind holds, if it is still in use. -/
  | upgrade (name : String)
  | inspect (of : Operand)
  | fold (target source : Operand) (mode : Payload.FoldMode)
  | assign (target source : Operand)
  | reset (of : Operand)
  | relate (left right : Operand)
  | same (left right : Operand)
  | read (of : Operand) (kind : Kind)
  | countObservers (of : Operand)
  /-- Writes a value, its texts into the table of the session if `indexed`. -/
  | encode (of : Operand) (indexed : Bool)
  /-- Keeps what a tagged value denotes over some texts, or over the table of the session. -/
  | decode (name : String) (tagged : Wire.Tagged) (strings : Option (List String))

/-- Commands on maps of values. -/
inductive MapCommand
  | keep (name : String) (of : MapOperand)
  | keepCopy (name : String) (of : MapOperand)
  | insert (name key : String) (value : Operand)
  | keepWithout (name : String) (of : MapOperand) (keys : List String)
  | keepWith (name : String) (of : MapOperand) (key : String) (value : Operand)
  | keepUnion (name : String) (of : List MapOperand)
  | decode (name : String) (entries : List (String × Wire.Tagged)) (strings : Option (List String))
  | find (of : MapOperand) (key : String)
  | inspect (of : MapOperand)
  /-- What a map must hold under a key, of one kind or of any. -/
  | expect (of : MapOperand) (key : String) (kind : Option Kind)
  | format (of : MapOperand) (template : String)

/-- Commands on what is kept for the observers' sake: subscriptions, teardowns, timers and the table
of texts. -/
inductive UpkeepCommand
  | unsubscribe (name : String)
  | keepNoSubscription (name : String)
  | subscription (name : String)
  | keepTeardown (name : String)
  | fire (name : String)
  | teardown (name : String)
  | cancelTimer (name : String)
  | advance (ms : UInt64)
  | clock
  | intern (text : String)
  | table

/-- Commands on the global state and on problems. -/
inductive GlobalCommand
  | insert (key : String) (value : Operand)
  | find (key : String)
  | publish
  | inspect
  | report (problem : Problem)

/-- Commands on predicates, updates and signals. -/
inductive ExpressionCommand
  /-- Finds a reference, in a map if there is one, and among the globals if they are asked. -/
  | resolve (reference : Reference Payload) (of : Option MapOperand) (globals : Bool)
  | evaluate (predicate : Predicate Payload) (of : MapOperand)
  | apply (update : Update Payload) (of : MapOperand)
  | outlinePredicate (predicate : Predicate Payload)
  | outlineUpdate (update : Update Payload)
  | observe (name : String) (predicate : Predicate Payload) (of : MapOperand)
  | constant (name : String) (truth : Bool)
  | signal (name : String)
  | discardSignal (name : String)

/-- Commands on interactions. -/
inductive InteractionCommand
  | build (actions : List (Action Payload)) (reactions : List (Reaction Payload))
      (watches : List (String × MapOperand))
  | update (target kind : String) (of : MapOperand)
  /-- Updates, and reports a problem to those who listen for problems. -/
  | dispatch (target kind : String) (of : MapOperand)
  | observe (name target kind : String) (of : MapOperand)
  | watchAll (kinds : List String) (teardown : String)
  | checkActions (supported : List (String × String))
  | checkReactions (supported : List (String × String))
  | checkWatches (supported : List String)
  | outline
  | count
  | inspect

/-- What an observer waits for. -/
inductive Channel
  | value (of : Operand)
  | signal (name : String)
  | problems
  | publication
  | timer (delay : UInt64)
  | watch (kind : String)

/-- What a session can be asked to do. -/
inductive Command
  | value (c : ValueCommand)
  | map (c : MapCommand)
  | upkeep (c : UpkeepCommand)
  | globals (c : GlobalCommand)
  | expression (c : ExpressionCommand)
  | interactions (c : InteractionCommand)
  /-- Observes a channel. What stops the observer is kept under its name, or held by a teardown. The
  body is a list of commands with their labels. -/
  | listen (channel : Channel) (name : String) (teardown : Option String)
      (body : List (String × Command))
  /-- A command that cannot be put together. -/
  | refused (p : Problem)
  /-- A command on a tagged value that is none. -/
  | untagged

/-- An observer: its name, none for the one that each session has for problems, and its body. -/
structure Handler where
  name : Option String
  body : List (String × Command)

end LiveTemplate.Session
