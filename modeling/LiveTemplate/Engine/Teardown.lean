import LiveTemplate.Engine.World

/-!
# Teardowns

A teardown ends subscriptions together. It fires once: what it holds ends then, and what is handed
over to it later ends on the spot.
-/

namespace LiveTemplate.Engine

variable {η : Type}

/-- Stops observing in several ways, one after the other. -/
def World.cancelAll (w : World η) (subs : List Subscription) : World η := subs.foldl World.cancel w

/-- Subscriptions to end together, as long as that is not done. -/
inductive Teardown
  | waiting (held : List Subscription)
  | fired

namespace Teardown

/-- A teardown that holds nothing yet. -/
def start : Teardown := .waiting []

/-- What a teardown holds. -/
def held : Teardown → List Subscription
  | waiting held => held
  | fired => []

/-- Whether a teardown has fired. -/
def isFired : Teardown → Bool
  | waiting _ => false
  | fired => true

/-- Hands subscriptions over to a teardown. -/
def hold (t : Teardown) (subs : List Subscription) (w : World η) : Teardown × World η :=
  match t with
  | waiting held => (waiting (held ++ subs), w)
  | fired => (fired, w.cancelAll subs)

/-- Ends what a teardown holds, for good. -/
def fire (t : Teardown) (w : World η) : Teardown × World η := (fired, w.cancelAll t.held)

end Teardown

end LiveTemplate.Engine
