import LiveTemplate.Engine.Teardown
import LiveTemplate.Proofs.Undisturbed
import Mathlib.Data.List.Nodup
import Mathlib.Logic.Relation

/-!
# Dealings with a world

Those who use a world have things in their hands: subscriptions, teardowns, and handles to streams.
A *dealing* is a step that keeps track of that: a turn of work, or something done with what is at
hand, between any two turns. A subscription can be ended, or handed over to a teardown; a stream can
be shared or dropped, and lives as long as there is a handle to it; a predicate can be observed or
just evaluated.

What this makes of the observers of a cell is said in terms of their tickets: no two observers of a
cell have one (`World.Ticketed`), so a subscription in hand is that of one observer.
-/

namespace LiveTemplate.Engine

variable {η : Type}

/-! ### What is in hands -/

/-- The ticket of a subscription to a cell. -/
def Subscription.ticket? (c : CellId) : Subscription → Option Ticket
  | .ofCell c' ticket => if c' = c then .some ticket else Option.none
  | _ => Option.none

/-- Whether a subscription is to a cell. -/
def Subscription.isTo (c : CellId) : Subscription → Bool
  | .ofCell c' _ => c' == c
  | _ => false

namespace Subscription

theorem isSome_ticket? (c : CellId) (sub : Subscription) : (sub.ticket? c).isSome = sub.isTo c := by
  cases sub with
  | ofCell c' ticket => by_cases h : c' = c <;> simp [ticket?, isTo, h]
  | _ => rfl

/-- The tickets of the subscriptions to a cell. -/
def tickets (c : CellId) (subs : List Subscription) : List Ticket := subs.filterMap (ticket? c)

variable {c c' : CellId} {sub : Subscription} {subs : List Subscription}

theorem tickets_ofCell (c : CellId) (ticket : Ticket) (subs : List Subscription) :
    tickets c (.ofCell c ticket :: subs) = ticket :: tickets c subs :=
  List.filterMap_cons_some (if_pos rfl)

theorem tickets_ofCell_of_ne (h : c' ≠ c) (ticket : Ticket) (subs : List Subscription) :
    tickets c (.ofCell c' ticket :: subs) = tickets c subs :=
  List.filterMap_cons_none (if_neg h)

theorem tickets_cons (h : sub.ticket? c = Option.none) : tickets c (sub :: subs) = tickets c subs :=
  List.filterMap_cons_none h

theorem length_tickets (c : CellId) (subs : List Subscription) :
    (tickets c subs).length = subs.countP (isTo c) := by
  rw [tickets, List.length_filterMap_eq_countP]
  simp only [isSome_ticket?]

end Subscription

/-- What those who use a world have in their hands. -/
structure Holdings where
  subscriptions : List Subscription
  teardowns : List Teardown
  /-- All that has been observed: the signals, and the formulas that they stand for. -/
  streams : List (SignalId × Formula (Term CellId))
  /-- The handles to streams. A stream that is shared has several. -/
  handles : List SignalId

namespace Holdings

/-- Empty hands. -/
def none : Holdings := ⟨[], [], [], []⟩

/-- The subscriptions in hand, and those that teardowns hold. -/
def held (H : Holdings) : List Subscription :=
  H.subscriptions ++ H.teardowns.flatMap Teardown.held

/-- The streams to which there still is a handle. -/
def alive (H : Holdings) : List (SignalId × Formula (Term CellId)) :=
  H.streams.filter fun stream ↦ stream.1 ∈ H.handles

/-- How many of the subscriptions are to a cell. -/
def subscribed (H : Holdings) (c : CellId) : Nat := H.held.countP (Subscription.isTo c)

/-- How often a cell is an operand of the streams to which there still is a handle. -/
def reads (H : Holdings) (c : CellId) : Nat :=
  (H.alive.flatMap fun stream ↦ stream.2.terms.flatMap Term.operands).count c

end Holdings

/-! ### Dealings -/

/-- Whether a deed neither gives anything out nor takes it back. -/
def Deed.plain : Deed η → Bool
  | .observe _ _ | .cancel _ | .openSignal _ | .subscribe _ _ => false
  | .hold _ | .letGo _ | .listen _ => false
  | _ => true

theorem Deed.aloof_of_plain {d : Deed η} (h : d.plain = true) : d.aloof = true := by
  cases d <;> first | rfl | cases h

/-- A world at work, with what those who use it have in their hands. -/
structure Usage (η : Type) where
  world : World η
  stack : List (Work η)
  hands : Holdings

/-- A step of a world at work, on the part of the world or of those who use it. -/
inductive Dealing : Usage η → Usage η → Prop
  | turn (w : World η) (x : Work η) (stack : List (Work η)) (H : Holdings) :
      Dealing ⟨w, x :: stack, H⟩ ⟨(w.turn x).world, (w.turn x).next ++ stack, H⟩
  /-- Something is done with which nothing is given out: a value is created or changed, updates are
  run, the clock is moved. -/
  | deed (w : World η) (d : Deed η) (stack : List (Work η)) (H : Holdings) (hd : d.plain = true)
      (hpermits : w.Permits d) :
      Dealing ⟨w, stack, H⟩ ⟨(w.after d).1, (w.after d).2 ++ stack, H⟩
  /-- Someone subscribes to a cell. -/
  | subscribe (w : World η) (c : CellId) (h : η) (stack : List (Work η)) (H : Holdings)
      (hc : w.HasCell c) :
      Dealing ⟨w, stack, H⟩ ⟨(w.observe c (.handler h)).2, stack,
        { H with subscriptions := .ofCell c w.nextTicket :: H.subscriptions }⟩
  /-- Someone subscribes to a stream. -/
  | follow (w : World η) (s : SignalId) (h : η) (stack : List (Work η)) (H : Holdings)
      (hs : s ∈ H.handles) :
      Dealing ⟨w, stack, H⟩ ⟨(w.subscribe s h).2, stack,
        { H with subscriptions := .ofSignal s w.nextTicket :: H.subscriptions }⟩
  /-- Someone listens for problems. -/
  | listen (w : World η) (h : η) (stack : List (Work η)) (H : Holdings) :
      Dealing ⟨w, stack, H⟩ ⟨(w.listen h).2, stack,
        { H with subscriptions := .ofProblems w.nextTicket :: H.subscriptions }⟩
  /-- There is a subscription with nothing to end. -/
  | blank (w : World η) (stack : List (Work η)) (H : Holdings) :
      Dealing ⟨w, stack, H⟩ ⟨w, stack, { H with subscriptions := .none :: H.subscriptions }⟩
  /-- A subscription is ended or dropped. -/
  | unsubscribe (w : World η) (sub : Subscription) (stack : List (Work η)) (H : Holdings)
      (hsub : sub ∈ H.subscriptions) :
      Dealing ⟨w, stack, H⟩
        ⟨w.cancel sub, stack, { H with subscriptions := H.subscriptions.erase sub }⟩
  /-- A predicate is observed, over cells that exist. -/
  | observe (w w' : World η) (locals : ValueMap) (p : Predicate CellId) (f : Formula (Term CellId))
      (s : SignalId) (stack : List (Work η)) (H : Holdings) (hbind : w.bind locals p = .ok f)
      (hcells : ∀ t ∈ f.terms, ∀ c ∈ t.operands, w.HasCell c)
      (hobserve : w.observePredicate locals p = .ok (s, w')) :
      Dealing ⟨w, stack, H⟩
        ⟨w', stack, { H with streams := H.streams ++ [(s, f)], handles := s :: H.handles }⟩
  /-- A predicate is not observed, as an operand is not found. -/
  | fail (w : World η) (locals : ValueMap) (p : Predicate CellId) (e : Problem)
      (stack : List (Work η)) (H : Holdings) (hfail : w.observePredicate locals p = .error e) :
      Dealing ⟨w, stack, H⟩ ⟨w, stack, H⟩
  /-- There is nothing to observe, and a stream that never changes takes its place. -/
  | constant (w : World η) (truth : Bool) (stack : List (Work η)) (H : Holdings) :
      Dealing ⟨w, stack, H⟩ ⟨(w.constant truth).2, stack,
        { H with
          streams := H.streams ++ [((w.constant truth).1, .const truth)]
          handles := (w.constant truth).1 :: H.handles }⟩
  /-- A predicate is evaluated. -/
  | evaluate (w : World η) (locals : ValueMap) (p : Predicate CellId) (stack : List (Work η))
      (H : Holdings) : Dealing ⟨w, stack, H⟩ ⟨(w.evaluate locals p).2, stack, H⟩
  /-- A handle to a stream is copied. -/
  | share (w : World η) (s : SignalId) (stack : List (Work η)) (H : Holdings)
      (hs : s ∈ H.handles) :
      Dealing ⟨w, stack, H⟩ ⟨w.hold s, stack, { H with handles := s :: H.handles }⟩
  /-- A handle to a stream is dropped. -/
  | drop (w : World η) (s : SignalId) (stack : List (Work η)) (H : Holdings)
      (hs : s ∈ H.handles) :
      Dealing ⟨w, stack, H⟩ ⟨w.letGo s, stack, { H with handles := H.handles.erase s }⟩
  /-- There is a new teardown. -/
  | ready (w : World η) (stack : List (Work η)) (H : Holdings) :
      Dealing ⟨w, stack, H⟩ ⟨w, stack, { H with teardowns := .start :: H.teardowns }⟩
  /-- A subscription is handed over to a teardown. -/
  | handOver (w : World η) (sub : Subscription) (before after : List Teardown) (t : Teardown)
      (stack : List (Work η)) (H : Holdings) (hsub : sub ∈ H.subscriptions) :
      Dealing ⟨w, stack, { H with teardowns := before ++ t :: after }⟩ ⟨(t.hold [sub] w).2, stack,
        { H with
          subscriptions := H.subscriptions.erase sub
          teardowns := before ++ (t.hold [sub] w).1 :: after }⟩
  /-- Someone watches the cells of a map until a teardown fires. -/
  | watch (w : World η) (h : η) (args : ValueMap) (before after : List Teardown) (t : Teardown)
      (stack : List (Work η)) (H : Holdings) (hargs : ∀ c ∈ args.values, w.HasCell c) :
      Dealing ⟨w, stack, { H with teardowns := before ++ t :: after }⟩
        ⟨(t.hold (w.watch h args).1 (w.watch h args).2).2, stack,
        { H with teardowns := before ++ (t.hold (w.watch h args).1 (w.watch h args).2).1 :: after }⟩
  /-- A teardown fires. -/
  | fire (w : World η) (before after : List Teardown) (t : Teardown) (stack : List (Work η))
      (H : Holdings) :
      Dealing ⟨w, stack, { H with teardowns := before ++ t :: after }⟩
        ⟨(t.fire w).2, stack, { H with teardowns := before ++ (t.fire w).1 :: after }⟩
  /-- A teardown is dropped, and what it holds ends. -/
  | discard (w : World η) (before after : List Teardown) (t : Teardown) (stack : List (Work η))
      (H : Holdings) :
      Dealing ⟨w, stack, { H with teardowns := before ++ t :: after }⟩
        ⟨w.cancelAll t.held, stack, { H with teardowns := before ++ after }⟩

/-- What comes of a usage by dealings, one after the other. -/
def Reaches : Usage η → Usage η → Prop := Relation.ReflTransGen Dealing

/-! ### Tickets -/

/-- Whether an observer was set up directly, and not for a term of a signal. -/
def Observer.direct (o : Observer η) : Bool :=
  match o.role with
  | .term _ _ => false
  | _ => true

theorem Observer.direct_eq_false {o : Observer η} : o.direct = false ↔ o.looks := by
  obtain ⟨ticket, role⟩ := o
  cases role <;> simp [direct, looks]

theorem Observer.direct_of_serves {s : SignalId} {o : Observer η} (h : o.serves s = true) :
    o.direct = false := by
  obtain ⟨place, hrole⟩ := serves_iff.1 h
  exact direct_eq_false.2 ⟨s, place, hrole⟩

namespace World

/-- No two observers of a cell have one ticket, and no ticket is yet to be given out. -/
structure Ticketed (w : World η) : Prop where
  given : ∀ c, ∀ o ∈ w.observers c, o.ticket < w.nextTicket
  nodup : ∀ c, ((w.observers c).map Observer.ticket).Nodup

variable {w w' : World η} {s : SignalId} {c : CellId} {subs : List Subscription}

theorem observers_observe (w : World η) (c : CellId) (role : Role η) (c' : CellId) :
    (w.observe c role).2.observers c' =
      if c' = c ∧ w.HasCell c' then w.observers c' ++ [⟨w.nextTicket, role⟩]
      else w.observers c' := by
  have hw : (w.observe c role).2.cells = w.cells.modify c fun cell ↦
      { cell with observers := cell.observers ++ [⟨w.nextTicket, role⟩] } := rfl
  exact observers_modify (g := (· ++ [⟨w.nextTicket, role⟩])) hw (fun _ ↦ rfl) c'

theorem hasCell_observe (w : World η) (c : CellId) (role : Role η) (c' : CellId) :
    (w.observe c role).2.HasCell c' ↔ w.HasCell c' :=
  hasCell_modify (f := fun cell ↦
    { cell with observers := cell.observers ++ [⟨w.nextTicket, role⟩] }) rfl c'

theorem observers_cancel (w : World η) (c : CellId) (ticket : Ticket) (c' : CellId) :
    (w.cancel (.ofCell c ticket)).observers c' =
      if c' = c then (w.observers c').filter (fun o ↦ o.ticket != ticket) else w.observers c' := by
  have hw : (w.cancel (.ofCell c ticket)).cells = w.cells.modify c fun cell ↦
      { cell with observers := cell.observers.filter fun o ↦ o.ticket != ticket } := rfl
  rw [observers_modify (g := (·.filter fun o ↦ o.ticket != ticket)) hw (fun _ ↦ rfl) c']
  by_cases hc : c' = c
  · by_cases hcell : w.HasCell c'
    · rw [if_pos ⟨hc, hcell⟩, if_pos hc]
    · have hnil : w.observers c' = [] := by
        rw [observers, Option.not_isSome_iff_eq_none.1 hcell]
        rfl
      simp [hnil]
  · simp [hc]

theorem Ticketed.of_sublist (h : w.Ticketed) (htickets : w.nextTicket ≤ w'.nextTicket)
    (hobservers : ∀ c, (w'.observers c).Sublist (w.observers c)) : w'.Ticketed where
  given := fun c o ho ↦ Nat.lt_of_lt_of_le (h.given c o ((hobservers c).subset ho)) htickets
  nodup := fun c ↦ (h.nodup c).sublist ((hobservers c).map _)

theorem Ticketed.observe (h : w.Ticketed) (c : CellId) (role : Role η) :
    (w.observe c role).2.Ticketed where
  given := fun c' o ho ↦ by
    show o.ticket < w.nextTicket + 1
    rw [observers_observe] at ho
    split at ho
    · rcases List.mem_append.1 ho with ho | ho
      · exact Nat.lt_succ_of_lt (h.given c' o ho)
      · rw [List.mem_singleton.1 ho]
        exact Nat.lt_succ_self _
    · exact Nat.lt_succ_of_lt (h.given c' o ho)
  nodup := fun c' ↦ by
    rw [observers_observe]
    split
    · rw [List.map_append, List.nodup_append]
      refine ⟨h.nodup c', List.nodup_singleton _, fun t ht t' ht' heq ↦ ?_⟩
      obtain ⟨o, ho, rfl⟩ := List.mem_map.1 ht
      have hnext : t' = w.nextTicket := List.mem_singleton.1 ht'
      exact absurd (h.given c' o ho) (by rw [heq, hnext]; exact Nat.lt_irrefl _)
    · exact h.nodup c'

theorem Ticketed.observeTerms (h : w.Ticketed) (s : SignalId) (place : Nat)
    (ts : List (Term CellId)) : (w.observeTerms s place ts).Ticketed := by
  have hoperands : ∀ (cs : List CellId) (place : Nat) {w : World η}, w.Ticketed →
      (cs.foldl (fun w c ↦ (w.observe c (.term s place)).2) w).Ticketed := by
    intro cs place
    induction cs with
    | nil => exact id
    | cons c cs ih => exact fun h ↦ ih (h.observe c _)
  induction ts generalizing w place with
  | nil => exact h
  | cons t ts ih => exact ih (hoperands t.operands place h) (place + 1)

theorem Ticketed.openSignal (h : w.Ticketed) (f : Formula (Term CellId)) :
    (w.openSignal f).2.Ticketed := by
  have hadded : (w.withSignal f).Ticketed := ⟨h.given, h.nodup⟩
  exact hadded.observeTerms _ 0 f.terms

end World

end LiveTemplate.Engine
