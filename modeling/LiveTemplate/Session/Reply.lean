import LiveTemplate.Session.Command

/-!
# Replies and events

What a session answers to a command, and what it notes down while the command is at work: that an
observer was told something, and that a command of a body was carried out.
-/

namespace LiveTemplate.Session

open Engine

/-- An answer to a command. -/
inductive Reply
  | done
  /-- There is nothing under a name or key. -/
  | missing
  /-- A tagged value is none. -/
  | untagged
  | problem (p : Problem)
  | nothing
  | flag (b : Bool)
  | number (n : Nat)
  | text (s : String)
  /-- A payload with its kind. -/
  | described (p : Payload)
  /-- A payload on its own. -/
  | content (p : Payload)
  | inspected (p : Payload)
  | related (left right : Payload)
  | tagged (w : Wire.Tagged)
  | table (t : Wire.StringTable)
  | map (m : OrderedMap Payload)
  | inspectedMap (m : OrderedMap Payload)
  | found (p : Option Payload)
  | globals (published : Bool) (m : OrderedMap Payload)
  | subscription (active : Bool)
  | teardown (fired : Bool) (held : Nat)
  | clock (now : UInt64) (pending : Nat)
  | resolved (reference : String) (p : Option Payload)
  /-- How updates ended, and the map they ran over. -/
  | applied (result : Except Problem Unit) (locals : OrderedMap Payload)
  | signal (truth : Bool) (subscribers : Nat)
  | observed (bound truth : Bool)
  | declared (actions reactions watches : Nat)

/-- Something that happened. -/
inductive Event
  | told (name : Option String) (notice : Notice)
  | did (label : String) (reply : Reply)

end LiveTemplate.Session
