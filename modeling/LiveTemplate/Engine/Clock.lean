import LiveTemplate.Bounds

/-!
# The virtual clock

A clock that stands still until it is moved on, and timers waiting on it. A timer is due at a time,
and timers due at the same time come in the order in which they were set. Times are milliseconds
and stop at the largest number of 64 bits.
-/

namespace LiveTemplate.Engine

/-- Something to do at a time. -/
structure Timer (κ : Type) where
  due : UInt64
  id : Nat
  task : κ

/-- The time, and the timers that wait, the next one first. -/
structure Clock (κ : Type) where
  now : UInt64
  nextId : Nat
  queue : List (Timer κ)

namespace Clock

variable {κ : Type}

/-- The clock at its beginning, without timers. -/
def start : Clock κ := ⟨0, 0, []⟩

/-- Puts a timer behind those that are due no later. -/
def enqueue (t : Timer κ) : List (Timer κ) → List (Timer κ)
  | [] => [t]
  -- At the same time the timer that was set first stays first.
  | u :: rest => if u.due ≤ t.due then u :: enqueue t rest else t :: u :: rest

/-- Sets a timer a delay from now. -/
def schedule (c : Clock κ) (delay : UInt64) (task : κ) : Nat × Clock κ :=
  (c.nextId,
    { c with
      nextId := c.nextId + 1
      queue := enqueue ⟨addUpTo c.now delay, c.nextId, task⟩ c.queue })

/-- Drops a timer that waits; any other number is ignored. -/
def cancel (c : Clock κ) (id : Nat) : Clock κ :=
  { c with queue := c.queue.filter fun t => t.id != id }

/-- Takes the next timer due by a time, and moves the clock to when it is due. -/
def takeDue? (c : Clock κ) (target : UInt64) : Option (Timer κ × Clock κ) :=
  match c.queue with
  | [] => none
  | t :: rest => if t.due ≤ target then some (t, { c with now := t.due, queue := rest }) else none

/-- Moves the clock to a time. -/
def moveTo (c : Clock κ) (time : UInt64) : Clock κ := { c with now := time }

/-- How many timers wait. -/
def pending (c : Clock κ) : Nat := c.queue.length

end Clock

end LiveTemplate.Engine
