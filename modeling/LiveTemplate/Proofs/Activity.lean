import LiveTemplate.Engine.Work

/-!
# Activities

What goes on around a world from the outside. A caller, or a handler in the middle of being told
something, may do anything at any time: bring in values and change them, observe and stop observing,
open signals and let go of them, run updates, set timers, move the clock. Each of these is a *deed*.
A step of an activity is a turn of the first piece of work, or a deed, whose work then comes first;
so deeds between two turns are what the handler that was just called does, to any depth.

A deed is *permitted* if whoever does it can have what it is done with: a subscription that was
given out is not that of a term, a timer that was given out does not end a window, and the operands
of a formula are cells that exist. Nothing else restricts a step; a statement about handlers that
hold back names the deeds that may be done when (`may`).

`Run` collects what happens on the way: payloads that change, signals that turn, subscribers that
are told, timers that are set for the end of a window.
-/

namespace LiveTemplate.Engine

variable {η : Type}

/-- Whether an observer looks at a term. -/
def Observer.looks (o : Observer η) : Prop := ∃ s place, o.role = .term s place

/-! ### Deeds -/

/-- What a caller or a handler can do to the world at once. -/
inductive Deed (η : Type)
  | create (p : Payload)
  | write (c : CellId) (p : Payload)
  | observe (c : CellId) (role : Role η)
  | cancel (sub : Subscription)
  | openSignal (f : Formula (Term CellId))
  | subscribe (s : SignalId) (h : η)
  | hold (s : SignalId)
  | letGo (s : SignalId)
  | perform (updates : List (Update CellId)) (locals : ValueMap)
  | schedule (delay : UInt64) (h : η)
  | cancelTimer (id : Nat)
  | advance (ms : UInt64)
  | addGlobal (key : String) (c : CellId)
  | publish
  /-- Waits for the global state to be published. -/
  | await (h : η)
  | listen (h : η)
  | report (p : Problem)

namespace Deed

/-- Whether a deed changes payloads. -/
def mutates : Deed η → Prop
  | write _ _ => True
  | perform _ _ => True
  | _ => False

/-- Whether a deed moves the clock. -/
def passes : Deed η → Prop
  | advance _ => True
  | _ => False

end Deed

/-! ### What happens -/

/-- Something that happens while work is done. -/
inductive Happening
  /-- A cell gets another payload. -/
  | changed (c : CellId) (time : UInt64)
  /-- A signal becomes true or false. -/
  | turned (s : SignalId) (truth : Bool)
  /-- A subscriber of a signal is told. -/
  | told (s : SignalId) (ticket : Ticket) (truth : Bool)
  /-- A timer is set for the end of the window of a changed term, over the one that the term
  remembered. -/
  | armed (s : SignalId) (place : Nat) (former : Option Nat)
  deriving DecidableEq

/-- What has happened when a piece of work appears. -/
def Work.news (time : UInt64) : Work η → Option Happening
  | .tellCell c none _ => some (.changed c time)
  | .tellSignal s b _ => some (.turned s b)
  | _ => none

namespace World

/-- Whether a cell exists. -/
def HasCell (w : World η) (c : CellId) : Prop := (w.cells.get? c).isSome

/-- Whether a signal lives. -/
def Lives (w : World η) (s : SignalId) : Prop := (w.signals.get? s).isSome

instance (w : World η) (c : CellId) : Decidable (w.HasCell c) :=
  inferInstanceAs (Decidable ((w.cells.get? c).isSome = true))

instance (w : World η) (s : SignalId) : Decidable (w.Lives s) :=
  inferInstanceAs (Decidable ((w.signals.get? s).isSome = true))

/-- Whether a deed can be done: it is done with what can have been given out. -/
def Permits (w : World η) : Deed η → Prop
  | .observe _ role => ∀ s place, role ≠ .term s place
  | .cancel (.ofCell c ticket) => ∀ o ∈ w.observers c, o.ticket = ticket → ¬o.looks
  | .openSignal f => ∀ t ∈ f.terms, ∀ c ∈ t.operands, w.HasCell c
  | .subscribe s _ => w.Lives s
  | .cancelTimer id => ∀ t ∈ w.clock.queue, t.id = id → ∃ h, t.task = .handler h
  | _ => True

/-- The world after a deed, and the work that it leaves. -/
def after (w : World η) : Deed η → World η × List (Work η)
  | .create p => ((w.create p).2, [])
  | .write c p => (w.write c p).2
  | .observe c role => ((w.observe c role).2, [])
  | .cancel sub => (w.cancel sub, [])
  | .openSignal f => ((w.openSignal f).2, [])
  | .subscribe s h => ((w.subscribe s h).2, [])
  | .hold s => (w.hold s, [])
  | .letGo s => (w.letGo s, [])
  | .perform updates locals => (w, [.perform updates locals])
  | .schedule delay h => ({ w with clock := (w.clock.schedule delay (.handler h)).2 }, [])
  | .cancelTimer id => ({ w with clock := w.clock.cancel id }, [])
  | .advance ms => (w, w.advance ms)
  | .addGlobal key c =>
    match w.addGlobal key c with
    | .ok w' => (w', [])
    | .error _ => (w, [])
  | .publish => w.publish
  | .await h => w.onPublish h
  | .listen h => ((w.listen h).2, [])
  | .report p => (w, w.report p)

/-- What happens when a deed is done. A new subscriber is told how things stand. -/
def atDeed (w : World η) (d : Deed η) : List Happening :=
  match d with
  | .subscribe s _ => [.told s w.nextTicket (w.truth s)]
  | _ => (w.after d).2.filterMap (Work.news w.clock.now)

/-- What happens as a changed term settles, besides that its signal may turn. -/
def atSettle (w : World η) (s : SignalId) (place : Nat) : List Happening :=
  match w.term? s place with
  | some ⟨.changed _ window, _, timer⟩ => if window = 0 then [] else [.armed s place timer]
  | _ => []

/-- What happens in a turn. That a signal turned is news only when its subscribers are about to be
told, not as they are told. -/
def atTurn (w : World η) : Work η → List Happening
  | .tellSignal _ _ [] => []
  | .tellSignal s b ((ticket, _) :: _) => if w.subscribes s ticket then [.told s ticket b] else []
  | .settle s place =>
    w.atSettle s place ++ (w.turn (.settle s place)).next.filterMap (Work.news w.clock.now)
  | x => (w.turn x).next.filterMap (Work.news w.clock.now)

end World

/-! ### Steps and runs -/

/-- A world at work: what is left to be done, the next piece first. -/
structure Activity (η : Type) where
  world : World η
  stack : List (Work η)

namespace Activity

variable {may : Activity η → Deed η → Prop}

/-- A step: a turn of the first piece of work, or a deed that may be done. -/
inductive Step (may : Activity η → Deed η → Prop) :
    Activity η → List Happening → Activity η → Prop
  | turn (w : World η) (x : Work η) (stack : List (Work η)) :
      Step may ⟨w, x :: stack⟩ (w.atTurn x) ⟨(w.turn x).world, (w.turn x).next ++ stack⟩
  | deed (w : World η) (d : Deed η) (stack : List (Work η)) (hpermits : w.Permits d)
      (hmay : may ⟨w, stack⟩ d) :
      Step may ⟨w, stack⟩ (w.atDeed d) ⟨(w.after d).1, (w.after d).2 ++ stack⟩

/-- Steps one after the other, with all that happens on the way. -/
inductive Run (may : Activity η → Deed η → Prop) :
    Activity η → List Happening → Activity η → Prop
  | refl (a : Activity η) : Run may a [] a
  | tail {a b c : Activity η} {es es' : List Happening} :
      Run may a es b → Step may b es' c → Run may a (es ++ es') c

/-- What a number of turns come to, if that much is left to be done. -/
def turns : Nat → Activity η → List Happening × Activity η
  | 0, a => ([], a)
  | _ + 1, ⟨w, []⟩ => ([], ⟨w, []⟩)
  | n + 1, ⟨w, x :: stack⟩ =>
    let (es, b) := turns n ⟨(w.turn x).world, (w.turn x).next ++ stack⟩
    (w.atTurn x ++ es, b)

/-- Anything may be done at any time. -/
def anything : Activity η → Deed η → Prop := fun _ _ ↦ True

theorem Step.mono {may' : Activity η → Deed η → Prop} (hle : ∀ a d, may a d → may' a d)
    {a b : Activity η} {es : List Happening} (h : Step may a es b) : Step may' a es b := by
  cases h with
  | turn w x stack => exact .turn w x stack
  | deed w d stack hpermits hmay => exact .deed w d stack hpermits (hle _ _ hmay)

namespace Run

variable {a b c : Activity η} {es es' : List Happening}

theorem mono {may' : Activity η → Deed η → Prop} (hle : ∀ a d, may a d → may' a d)
    (h : Run may a es b) : Run may' a es b := by
  induction h with
  | refl => exact .refl _
  | tail _ step ih => exact ih.tail (step.mono hle)

theorem any (h : Run may a es b) : Run anything a es b := h.mono fun _ _ _ ↦ trivial

theorem single (h : Step may a es b) : Run may a es b := by
  simpa using (Run.refl a).tail h

theorem trans (h : Run may a es b) (h' : Run may b es' c) : Run may a (es ++ es') c := by
  induction h' with
  | refl => simpa using h
  | tail _ step ih => simpa only [List.append_assoc] using ih.tail step

theorem turn {w : World η} {x : Work η} {stack : List (Work η)} (h : Run may a es ⟨w, x :: stack⟩) :
    Run may a (es ++ w.atTurn x) ⟨(w.turn x).world, (w.turn x).next ++ stack⟩ :=
  h.tail (.turn w x stack)

theorem deed {w : World η} {stack : List (Work η)} (h : Run may a es ⟨w, stack⟩) (d : Deed η)
    (hpermits : w.Permits d) (hmay : may ⟨w, stack⟩ d) :
    Run may a (es ++ w.atDeed d) ⟨(w.after d).1, (w.after d).2 ++ stack⟩ :=
  h.tail (.deed w d stack hpermits hmay)

theorem turns (h : Run may a es b) (n : Nat) :
    Run may a (es ++ (b.turns n).1) (b.turns n).2 := by
  induction n generalizing b es with
  | zero => simpa [Activity.turns] using h
  | succ n ih =>
    obtain ⟨w, stack⟩ := b
    cases stack with
    | nil => simpa [Activity.turns] using h
    | cons x stack => simpa [Activity.turns] using ih h.turn

/-- What every step keeps, a run keeps. -/
theorem invariant {P : Activity η → Prop}
    (hstep : ∀ {a b es}, P a → Step may a es b → P b) (h : Run may a es b) (ha : P a) : P b := by
  induction h with
  | refl => exact ha
  | tail _ step ih => exact hstep ih step

end Run

end Activity

end LiveTemplate.Engine
