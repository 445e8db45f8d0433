import LiveTemplate.Session.State

/-!
# Undertakings

A command does some things at once and leaves others to be done, such as to tell observers of
changes. Its reply is due when all of that is done, and may depend on it.
-/

namespace LiveTemplate.Session

open Engine

/-- The reply that a command will give. -/
inductive Pending
  | ready (reply : Reply)
  /-- The clock as it will stand. -/
  | clock
  /-- How updates will have ended. -/
  | applied (locals : ValueMap)
  /-- That updates are done; a problem is to be reported. -/
  | dispatched (locals : ValueMap)
  /-- How updates have ended. -/
  | ended (result : Except Problem Unit) (locals : ValueMap)

/-- What a command leaves to be done. -/
structure Undertaking where
  work : List (Work Handler)
  pending : Pending
  /-- The cells that the command has in hand until it is done. -/
  inHand : List CellId

namespace Undertaking

/-- A reply with nothing left to do. -/
def reply (r : Reply) : Undertaking := ⟨[], .ready r, []⟩

/-- A reply after some work. -/
def after (work : List (Work Handler)) (r : Reply) (inHand : List CellId) : Undertaking :=
  ⟨work, .ready r, inHand⟩

/-- What a command leaves to be done as it ends: one that fails replies at once. -/
def ofResult : Except Reply Undertaking → Undertaking
  | .ok u => u
  | .error r => reply r

end Undertaking

/-- Replies at once. -/
def answer (r : Reply) : Act Undertaking := pure (.reply r)

/-- Does something to the world, and replies when the work it leaves is done. -/
def leave (done : World Handler × List (Work Handler)) (r : Reply) (inHand : List CellId) :
    Act Undertaking := do
  setWorld done.1
  pure (.after done.2 r inHand)

end LiveTemplate.Session
