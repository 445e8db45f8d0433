import LiveTemplate.Proofs.Dealings
import Mathlib.Data.List.Induction

/-!
# Moments

A run says what has happened, in the order in which it happened, but not when what was done. A
*history* of an activity keeps all of it: it is the list of its *moments*, each of them a turn or a
deed together with the world and the work that it found. Histories and runs are the same thing seen
from near and from far (`History.run`, `Run.exists_history`), so what holds of runs holds of
histories, and a history can be cut anywhere (`History.split`).

How deep a moment is, is told by its *height*, the number of pieces of work that it found: all that
comes of a piece of work, to any depth, happens above the work that is below it.
-/

namespace LiveTemplate.Engine

open World

variable {η : Type}

/-! ### Deciding what can be done -/

instance (role : Role η) : Decidable (∀ s place, role ≠ .term s place) :=
  match role with
  | .handler _ => isTrue nofun
  | .watcher _ _ => isTrue nofun
  | .term s place => isFalse fun h ↦ h s place rfl

instance (o : Observer η) : Decidable o.looks := decidable_of_iff _ Observer.direct_eq_false

instance (task : Task η) : Decidable (∃ h, task = .handler h) :=
  match task with
  | .handler h => isTrue ⟨h, rfl⟩
  | .expire _ _ => isFalse nofun

instance (w : World η) (d : Deed η) : Decidable (w.Permits d) :=
  match d with
  | .observe _ role => inferInstanceAs (Decidable (∀ s place, role ≠ .term s place))
  | .cancel (.ofCell c ticket) =>
    inferInstanceAs (Decidable (∀ o ∈ w.observers c, o.ticket = ticket → ¬o.looks))
  | .openSignal f => inferInstanceAs (Decidable (∀ t ∈ f.terms, ∀ c ∈ t.operands, w.HasCell c))
  | .subscribe s _ => inferInstanceAs (Decidable (w.Lives s))
  | .cancelTimer id =>
    inferInstanceAs (Decidable (∀ t ∈ w.clock.queue, t.id = id → ∃ h, t.task = .handler h))
  | .cancel .none | .cancel (.ofSignal _ _) | .cancel (.ofProblems _) => isTrue trivial
  | .create _ | .write _ _ | .hold _ | .letGo _ | .perform _ _ | .schedule _ _ | .advance _
  | .addGlobal _ _ | .publish | .await _ | .listen _ | .report _ => isTrue trivial

namespace Activity

/-! ### Moments -/

/-- A moment of an activity: a turn of the first piece of work, or a deed. -/
inductive Moment (η : Type)
  | turn (w : World η) (x : Work η) (stack : List (Work η))
  | deed (w : World η) (d : Deed η) (stack : List (Work η))

namespace Moment

/-- What a moment finds. -/
def before : Moment η → Activity η
  | turn w x stack => ⟨w, x :: stack⟩
  | deed w _ stack => ⟨w, stack⟩

/-- What a moment leaves. -/
def after : Moment η → Activity η
  | turn w x stack => ⟨(w.turn x).world, (w.turn x).next ++ stack⟩
  | deed w d stack => ⟨(w.after d).1, (w.after d).2 ++ stack⟩

/-- What happens at a moment. -/
def news : Moment η → List Happening
  | turn w x _ => w.atTurn x
  | deed w d _ => w.atDeed d

/-- A deed is one that can be done, and that may be done. -/
def Allowed (may : Activity η → Deed η → Prop) : Moment η → Prop
  | turn _ _ _ => True
  | deed w d stack => w.Permits d ∧ may ⟨w, stack⟩ d

instance : (m : Moment η) → Decidable (m.Allowed anything)
  | .turn _ _ _ => isTrue trivial
  | .deed w d _ => inferInstanceAs (Decidable (w.Permits d ∧ True))

/-- The number of pieces of work that a moment finds. -/
def height (m : Moment η) : Nat := m.before.stack.length

variable {may : Activity η → Deed η → Prop}

theorem step {m : Moment η} (h : m.Allowed may) : Step may m.before m.news m.after := by
  cases m with
  | turn w x stack => exact .turn w x stack
  | deed w d stack => exact .deed w d stack h.1 h.2

end Moment

variable {may : Activity η → Deed η → Prop} {a b c : Activity η} {es : List Happening}
  {ms ms' : List (Moment η)}

/-- Each step is that of a moment. -/
theorem Step.exists_moment (h : Step may a es b) :
    ∃ m : Moment η, m.before = a ∧ m.news = es ∧ m.after = b ∧ m.Allowed may := by
  cases h with
  | turn w x stack => exact ⟨.turn w x stack, rfl, rfl, rfl, trivial⟩
  | deed w d stack hpermits hmay => exact ⟨.deed w d stack, rfl, rfl, rfl, hpermits, hmay⟩

/-- Moments one after the other, each of which finds what the one before has left. -/
inductive History (may : Activity η → Deed η → Prop) :
    Activity η → List (Moment η) → Activity η → Prop
  | refl (a : Activity η) : History may a [] a
  | tail {a : Activity η} {ms : List (Moment η)} (m : Moment η) :
      History may a ms m.before → m.Allowed may → History may a (ms ++ [m]) m.after

/-- The moments in which what is planned is done, deed by deed, and in which all between two deeds
are turns (`none`). -/
def follow : List (Option (Deed η)) → Activity η → List (Moment η) × Activity η
  | [], a => ([], a)
  | some d :: plan, ⟨w, stack⟩ =>
    let m : Moment η := .deed w d stack
    let (ms, b) := follow plan m.after
    (m :: ms, b)
  | none :: _, ⟨w, []⟩ => ([], ⟨w, []⟩)
  | none :: plan, ⟨w, x :: stack⟩ =>
    let m : Moment η := .turn w x stack
    let (ms, b) := follow plan m.after
    (m :: ms, b)

/-! ### Histories and runs -/

theorem History.run (h : History may a ms b) : Run may a (ms.flatMap Moment.news) b := by
  induction h with
  | refl => exact .refl a
  | tail m _ hallowed ih =>
    rw [List.flatMap_append, List.flatMap_singleton]
    exact ih.tail (Moment.step hallowed)

/-- **A run has a history.** -/
theorem Run.exists_history (h : Run may a es b) :
    ∃ ms : List (Moment η), ms.flatMap Moment.news = es ∧ History may a ms b := by
  induction h with
  | refl => exact ⟨[], rfl, .refl _⟩
  | tail _ step ih =>
    obtain ⟨ms, rfl, hms⟩ := ih
    obtain ⟨m, rfl, rfl, rfl, hallowed⟩ := step.exists_moment
    refine ⟨ms ++ [m], ?_, hms.tail m hallowed⟩
    rw [List.flatMap_append, List.flatMap_singleton]

namespace History

/-! ### Putting histories together and cutting them -/

theorem single {m : Moment η} (h : m.Allowed may) : History may m.before [m] m.after :=
  (refl m.before).tail m h

theorem trans (h : History may a ms b) (h' : History may b ms' c) :
    History may a (ms ++ ms') c := by
  induction h' with
  | refl => rwa [List.append_nil]
  | tail m _ hallowed ih =>
    rw [← List.append_assoc]
    exact ih.tail m hallowed

theorem cons {m : Moment η} (h : m.Allowed may) (h' : History may m.after ms b) :
    History may m.before (m :: ms) b :=
  (single h).trans h'

theorem eq_of_nil (h : History may a [] b) : b = a := by
  generalize hms : ([] : List (Moment η)) = ms at h
  cases h with
  | refl => rfl
  | tail m _ _ => exact absurd hms (List.append_ne_nil_of_right_ne_nil _ (List.cons_ne_nil _ _)).symm

/-- What comes at last in a history. -/
theorem of_concat {m : Moment η} (h : History may a (ms ++ [m]) b) :
    History may a ms m.before ∧ m.Allowed may ∧ b = m.after := by
  generalize hall : ms ++ [m] = all at h
  cases h with
  | refl => exact absurd hall (List.append_ne_nil_of_right_ne_nil _ (List.cons_ne_nil _ _))
  | tail m' h hallowed =>
    obtain ⟨rfl, hm⟩ := List.append_inj' hall rfl
    obtain rfl := List.cons.inj hm |>.1
    exact ⟨h, hallowed, rfl⟩

/-- **A history can be cut anywhere.** -/
theorem split (h : History may a (ms ++ ms') c) :
    ∃ b, History may a ms b ∧ History may b ms' c := by
  induction ms' using List.reverseRecOn generalizing c with
  | nil =>
    rw [List.append_nil] at h
    exact ⟨c, h, .refl c⟩
  | append_singleton ms' m ih =>
    rw [← List.append_assoc] at h
    obtain ⟨hbefore, hallowed, rfl⟩ := h.of_concat
    obtain ⟨b, hfirst, hrest⟩ := ih hbefore
    exact ⟨b, hfirst, hrest.tail m hallowed⟩

/-- What comes first in a history. -/
theorem of_cons {m : Moment η} (h : History may a (m :: ms) c) :
    a = m.before ∧ m.Allowed may ∧ History may m.after ms c := by
  have hcut : History may a ([m] ++ ms) c := h
  obtain ⟨b, hfirst, hrest⟩ := hcut.split
  have hlast : History may a ([] ++ [m]) b := hfirst
  obtain ⟨hnil, hallowed, rfl⟩ := hlast.of_concat
  exact ⟨hnil.eq_of_nil.symm, hallowed, hrest⟩

/-- A moment within a history, what comes before it and what comes after it. -/
theorem at_moment {m : Moment η} (h : History may a (ms ++ m :: ms') c) :
    History may a ms m.before ∧ m.Allowed may ∧ History may m.after ms' c := by
  obtain ⟨b, hfirst, hrest⟩ := h.split
  obtain ⟨rfl, hallowed, hafter⟩ := hrest.of_cons
  exact ⟨hfirst, hallowed, hafter⟩

/-! ### What a history keeps -/

/-- What every moment keeps in worlds that are in order, a history keeps, with the moments so far. -/
theorem keeps {P : List (Moment η) → Activity η → Prop}
    (hmoment : ∀ {ms} {m : Moment η}, m.before.world.Orderly → m.Allowed may → P ms m.before →
      P (ms ++ [m]) m.after)
    (h : History may a ms b) (ho : a.world.Orderly) (ha : P [] a) : P ms b := by
  induction h with
  | refl => exact ha
  | tail m h hallowed ih => exact hmoment (h.run.orderly ho) hallowed ih

/-! ### Following a plan -/

/-- What is planned comes to a history, if the deeds are allowed. -/
theorem ofPlan (plan : List (Option (Deed η))) (a : Activity η)
    (h : ∀ m ∈ (follow plan a).1, m.Allowed may) :
    History may a (follow plan a).1 (follow plan a).2 := by
  induction plan generalizing a with
  | nil => exact .refl a
  | cons step plan ih =>
    obtain ⟨w, stack⟩ := a
    match step, stack with
    | some d, stack =>
      exact cons (m := .deed w d stack) (h _ List.mem_cons_self)
        (ih _ fun m hm ↦ h m (List.mem_cons_of_mem _ hm))
    | none, [] => exact .refl _
    | none, x :: stack =>
      exact cons (m := .turn w x stack) (h _ List.mem_cons_self)
        (ih _ fun m hm ↦ h m (List.mem_cons_of_mem _ hm))

end History

/-! ### Above other work -/

/-- Nobody does anything: all there is are turns. -/
def never : Activity η → Deed η → Prop := fun _ _ ↦ False

/-- An activity above other work. -/
def onto (base : List (Work η)) (a : Activity η) : Activity η := ⟨a.world, a.stack ++ base⟩

/-- Where a moment takes place that finds a piece of work between others: it is the turn of that
piece, or of the first above it, or a deed. -/
theorem Moment.place {above : List (Work η)} {x : Work η} {base : List (Work η)} {m : Moment η}
    (h : m.before.stack = above ++ x :: base) :
    (∃ w, above = [] ∧ m = .turn w x base) ∨
      (∃ w y rest, above = y :: rest ∧ m = .turn w y (rest ++ x :: base)) ∨
      ∃ w d, m = .deed w d (above ++ x :: base) := by
  cases m with
  | deed w d stack =>
    obtain rfl : stack = _ := h
    exact .inr (.inr ⟨w, d, rfl⟩)
  | turn w y stack =>
    have hstack : y :: stack = above ++ x :: base := h
    cases above with
    | nil =>
      obtain ⟨rfl, rfl⟩ := List.cons.inj hstack
      exact .inl ⟨w, rfl, rfl⟩
    | cons z rest =>
      obtain ⟨rfl, rfl⟩ := List.cons.inj hstack
      exact .inr (.inl ⟨w, y, rest, rfl, rfl⟩)

theorem length_lt_above (above : List (Work η)) (x : Work η) (base : List (Work η)) :
    base.length < (above ++ x :: base).length := by
  rw [List.length_append, List.length_cons]
  omega

/-- A moment above other work. -/
def Moment.onto (base : List (Work η)) : Moment η → Moment η
  | turn w x stack => turn w x (stack ++ base)
  | deed w d stack => deed w d (stack ++ base)

namespace Moment

variable (base : List (Work η)) (m : Moment η)

theorem before_onto : (m.onto base).before = m.before.onto base := by cases m <;> rfl

theorem after_onto : (m.onto base).after = m.after.onto base := by
  cases m <;> simp [onto, Activity.onto, after]

theorem height_onto : (m.onto base).height = m.height + base.length := by
  rw [height, before_onto]
  exact List.length_append

end Moment

/-- **Turns can be taken above other work**, and then they take place above it. -/
theorem History.onto (h : History never a ms b) (may : Activity η → Deed η → Prop)
    (base : List (Work η)) :
    History may (a.onto base) (ms.map (·.onto base)) (b.onto base) ∧
      ∀ m ∈ ms.map (·.onto base), base.length < m.height := by
  induction h with
  | refl => exact ⟨.refl _, fun _ h ↦ absurd h List.not_mem_nil⟩
  | tail m _ hallowed ih =>
    obtain ⟨hhistory, hheight⟩ := ih
    obtain ⟨w, x, stack, rfl⟩ : ∃ w x stack, m = .turn w x stack := by
      cases m with
      | turn w x stack => exact ⟨w, x, stack, rfl⟩
      | deed => exact absurd hallowed.2 id
    rw [← Moment.before_onto] at hhistory
    rw [List.map_append, ← Moment.after_onto]
    refine ⟨hhistory.tail _ trivial, List.forall_mem_append.2 ⟨hheight, fun m hm ↦ ?_⟩⟩
    rw [List.mem_singleton.1 hm, Moment.height_onto]
    exact Nat.lt_add_of_pos_left (Nat.succ_pos _)

end Activity

end LiveTemplate.Engine
