import LiveTemplate.Proofs.Moments

/-!
# When timers ring

In a run in which timers are set and dropped and the clock is moved on, handlers setting and dropping
timers too but leaving the clock alone, every timer rings at most once, at its time, and in its turn;
and the clock does not arrive anywhere before all that were due by then have rung.

What carries this is that a timer that rings is the first of the queue. So those that have rung,
followed by those that wait, are one list that changes only where a timer is set or dropped; it is
always in order (`Timed.ordered`), and every timer that was set is on it or was dropped
(`Timed.accounted`).
-/

namespace LiveTemplate.Engine

/-! ### The order of timers -/

namespace Timer

variable {κ : Type}

/-- Timers ring in the order in which they are due, and at the same time in the order in which they
were set. -/
def Before (t u : Timer κ) : Prop := t.due < u.due ∨ t.due = u.due ∧ t.id < u.id

theorem before_of_le {t u : Timer κ} (hdue : t.due ≤ u.due) (hid : t.id < u.id) : t.Before u := by
  rcases UInt64.le_iff_lt_or_eq.1 hdue with hlt | heq
  · exact .inl hlt
  · exact .inr ⟨heq, hid⟩

theorem Before.due_le {t u : Timer κ} (h : t.Before u) : t.due ≤ u.due := by
  rcases h with hlt | ⟨heq, -⟩
  · exact UInt64.le_of_lt hlt
  · exact UInt64.le_of_eq heq

/-- A timer rings before another one. -/
def Precedes (t u : Timer κ) : Prop := t.Before u ∧ t.id ≠ u.id

theorem precedes_of_le {t u : Timer κ} (hdue : t.due ≤ u.due) (hid : t.id < u.id) : t.Precedes u :=
  ⟨before_of_le hdue hid, Nat.ne_of_lt hid⟩

end Timer

namespace Clock

variable {κ : Type} {t : Timer κ} {rung queue : List (Timer κ)}

/-- The timer that was set last comes behind those that are due no later. -/
theorem precedes_enqueue (h : queue.Pairwise Timer.Precedes) (hid : ∀ u ∈ queue, u.id < t.id) :
    (enqueue t queue).Pairwise Timer.Precedes := by
  induction queue with
  | nil => exact List.pairwise_singleton _ _
  | cons v rest ih =>
    obtain ⟨hfirst, hrest⟩ := List.pairwise_cons.1 h
    rw [enqueue]
    split
    · rename_i hle
      refine List.pairwise_cons.2
        ⟨fun u hu ↦ ?_, ih hrest fun u hu ↦ hid u (List.mem_cons_of_mem _ hu)⟩
      rcases mem_enqueue.1 hu with rfl | hu
      · exact Timer.precedes_of_le hle (hid v List.mem_cons_self)
      · exact hfirst u hu
    · rename_i hlt
      have hlt : t.due < v.due := UInt64.not_le.1 hlt
      refine List.pairwise_cons.2 ⟨fun u hu ↦ ⟨.inl ?_, (Nat.ne_of_lt (hid u hu)).symm⟩, h⟩
      rcases List.mem_cons.1 hu with rfl | hu
      · exact hlt
      · exact UInt64.lt_of_lt_of_le hlt (hfirst u hu).1.due_le

theorem precedes_append_enqueue (h : (rung ++ queue).Pairwise Timer.Precedes)
    (hrung : ∀ u ∈ rung, u.due ≤ t.due) (hid : ∀ u ∈ rung ++ queue, u.id < t.id) :
    (rung ++ enqueue t queue).Pairwise Timer.Precedes := by
  obtain ⟨hleft, hright, hacross⟩ := List.pairwise_append.1 h
  refine List.pairwise_append.2
    ⟨hleft, precedes_enqueue hright fun u hu ↦ hid u (List.mem_append_right _ hu), ?_⟩
  intro u hu v hv
  rcases mem_enqueue.1 hv with rfl | hv
  · exact Timer.precedes_of_le (hrung u hu) (hid u (List.mem_append_left _ hu))
  · exact hacross u hu v hv

/-! ### The accounts of a clock -/

/-- The accounts of a clock: the timers that were set, those that have rung, and the numbers of those
that were dropped. -/
structure Accounts (set rung : List (Timer κ)) (dropped : List Nat) (c : Clock κ) : Prop where
  orderly : c.Orderly
  /-- Those that have rung, and then those that wait. -/
  ordered : (rung ++ c.queue).Pairwise Timer.Precedes
  wereSet : ∀ t ∈ rung ++ c.queue, t ∈ set
  counted : set.Pairwise fun t u ↦ t.id < u.id
  numbered : ∀ t ∈ set, t.id < c.nextId
  past : ∀ t ∈ rung, t.due ≤ c.now
  accounted : ∀ t ∈ set, t ∈ rung ++ c.queue ∨ t.id ∈ dropped
  given : ∀ id ∈ dropped, id < c.nextId
  gone : ∀ t ∈ c.queue, t.id ∉ dropped

theorem accounts_start : Accounts [] [] [] (start : Clock κ) where
  orderly := orderly_start
  ordered := .nil
  wereSet := nofun
  counted := .nil
  numbered := nofun
  past := nofun
  accounted := nofun
  given := nofun
  gone := nofun

namespace Accounts

variable {set : List (Timer κ)} {dropped : List Nat} {c c' : Clock κ}

theorem id_lt (h : Accounts set rung dropped c) (ht : t ∈ rung ++ c.queue) : t.id < c.nextId :=
  h.numbered t (h.wereSet t ht)

/-- A timer is set. -/
theorem schedule (h : Accounts set rung dropped c) (delay : UInt64) (task : κ) :
    Accounts (set ++ [⟨addUpTo c.now delay, c.nextId, task⟩]) rung dropped
      (c.schedule delay task).2 where
  orderly := h.orderly.schedule delay task
  ordered := precedes_append_enqueue h.ordered
    (fun u hu ↦ UInt64.le_trans (h.past u hu) (le_addUpTo _ _)) fun u hu ↦ h.id_lt hu
  wereSet := by
    intro t ht
    rcases List.mem_append.1 ht with hrung | hwaits
    · exact List.mem_append_left _ (h.wereSet t (List.mem_append_left _ hrung))
    · rcases mem_enqueue.1 hwaits with rfl | hwaits
      · exact List.mem_append_right _ (List.mem_singleton_self _)
      · exact List.mem_append_left _ (h.wereSet t (List.mem_append_right _ hwaits))
  counted := by
    refine List.pairwise_append.2 ⟨h.counted, List.pairwise_singleton _ _, fun t ht u hu ↦ ?_⟩
    rw [List.mem_singleton.1 hu]
    exact h.numbered t ht
  numbered := by
    intro t ht
    rcases List.mem_append.1 ht with ht | ht
    · exact Nat.lt_succ_of_lt (h.numbered t ht)
    · rw [List.mem_singleton.1 ht]
      exact Nat.lt_succ_self _
  past := h.past
  accounted := by
    intro t ht
    rcases List.mem_append.1 ht with ht | ht
    · refine (h.accounted t ht).imp_left fun ht ↦ ?_
      exact List.mem_append.2 ((List.mem_append.1 ht).imp_right fun ht ↦ mem_enqueue.2 (.inr ht))
    · exact .inl (List.mem_append_right _ (mem_enqueue.2 (.inl (List.mem_singleton.1 ht))))
  given := fun id hid ↦ Nat.lt_succ_of_lt (h.given id hid)
  gone := by
    intro t ht hid
    rcases mem_enqueue.1 ht with rfl | ht
    · exact Nat.lt_irrefl _ (h.given _ hid)
    · exact h.gone t ht hid

/-- A number is dropped, that of a timer if it was given out. -/
theorem cancel (h : Accounts set rung dropped c) (id : Nat) :
    Accounts set rung (dropped ++ (if id < c.nextId then some id else none).toList)
      (c.cancel id) where
  orderly := h.orderly.cancel id
  ordered := h.ordered.sublist ((List.Sublist.refl _).append List.filter_sublist)
  wereSet := fun t ht ↦ h.wereSet t
    (((List.Sublist.refl _).append List.filter_sublist).subset ht)
  counted := h.counted
  numbered := h.numbered
  past := h.past
  accounted := by
    intro t ht
    by_cases hid : t.id = id
    · have hlt : id < c.nextId := hid ▸ h.numbered t ht
      exact .inr (List.mem_append_right _ (by rw [if_pos hlt, hid]; exact List.mem_singleton_self _))
    · refine (h.accounted t ht).imp (fun ht ↦ ?_) fun ht ↦ List.mem_append_left _ ht
      refine List.mem_append.2 ((List.mem_append.1 ht).imp_right fun ht ↦ ?_)
      exact List.mem_filter.2 ⟨ht, bne_iff_ne.2 hid⟩
  given := by
    intro i hi
    rcases List.mem_append.1 hi with hi | hi
    · exact h.given i hi
    · split at hi
      · rwa [List.mem_singleton.1 hi]
      · cases hi
  gone := by
    intro t ht hid
    obtain ⟨hwaits, hne⟩ := List.mem_filter.1 ht
    rcases List.mem_append.1 hid with hid | hid
    · exact h.gone t hwaits hid
    · split at hid
      · exact bne_iff_ne.1 hne (List.mem_singleton.1 hid)
      · cases hid

/-- The next timer rings, so it goes over from those that wait to those that have rung. -/
theorem takeDue? (h : Accounts set rung dropped c) {target : UInt64}
    (hdue : c.takeDue? target = some (t, c')) : Accounts set (rung ++ [t]) dropped c' := by
  obtain ⟨hqueue, hnext, hnow, -⟩ := queue_takeDue? hdue
  have hreel : rung ++ [t] ++ c'.queue = rung ++ c.queue := by rw [hqueue, List.append_assoc]; rfl
  have hfirst : t ∈ c.queue := hqueue ▸ List.mem_cons_self
  refine ⟨h.orderly.takeDue? hdue, hreel ▸ h.ordered, hreel ▸ h.wereSet, h.counted,
    hnext ▸ h.numbered, fun u hu ↦ ?_, hreel ▸ h.accounted, hnext ▸ h.given,
    fun u hu ↦ h.gone u (hqueue ▸ List.mem_cons_of_mem _ hu)⟩
  rw [hnow]
  rcases List.mem_append.1 hu with hu | hu
  · exact UInt64.le_trans (h.past u hu) (h.orderly.ahead t hfirst)
  · rw [List.mem_singleton.1 hu]
    exact UInt64.le_refl _

/-- The clock arrives at a time by which nothing is due. -/
theorem moveTo (h : Accounts set rung dropped c) {target : UInt64}
    (hdue : c.takeDue? target = none) (hle : c.now ≤ target) :
    Accounts set rung dropped (c.moveTo target) where
  orderly := h.orderly.moveTo hdue
  ordered := h.ordered
  wereSet := h.wereSet
  counted := h.counted
  numbered := h.numbered
  past := fun t ht ↦ UInt64.le_trans (h.past t ht) hle
  accounted := h.accounted
  given := h.given
  gone := h.gone

end Accounts

end Clock

namespace Activity

variable {η : Type}

/-- Timers are set and dropped at any time, and the clock is moved on by nobody who is called
meanwhile. Nothing else is done. -/
def timing : Activity η → Deed η → Prop := fun a d ↦
  match d with
  | .schedule _ _ => True
  | .cancelTimer _ => True
  | .advance _ => a.stack = []
  | _ => False

instance (a : Activity η) (d : Deed η) : Decidable (timing a d) :=
  match d with
  | .schedule _ _ | .cancelTimer _ => isTrue trivial
  | .advance _ => decidable_of_iff (a.stack.isEmpty = true) List.isEmpty_iff
  | .create _ | .write _ _ | .observe _ _ | .cancel _ | .openSignal _ | .subscribe _ _ | .hold _
  | .letGo _ | .perform _ _ | .addGlobal _ _ | .publish | .await _ | .listen _ | .report _ =>
    isFalse id

instance : (m : Moment η) → Decidable (m.Allowed timing)
  | .turn _ _ _ => isTrue trivial
  | .deed w d stack => inferInstanceAs (Decidable (w.Permits d ∧ timing ⟨w, stack⟩ d))

namespace Moment

/-- The timer that rings at a moment. -/
def rings : Moment η → Option (Timer (Task η))
  | turn w (.advance target) _ => (w.clock.takeDue? target).map Prod.fst
  | _ => none

/-- The timer that is set at a moment. -/
def sets : Moment η → Option (Timer (Task η))
  | deed w (.schedule delay h) _ =>
    some ⟨addUpTo w.clock.now delay, w.clock.nextId, .handler h⟩
  | _ => none

/-- The number of the timer that is dropped at a moment. Only a number that was given out is that of
a timer. -/
def drops : Moment η → Option Nat
  | deed w (.cancelTimer id) _ => if id < w.clock.nextId then some id else none
  | _ => none

/-- Who is called at a moment. -/
def call : Moment η → Option (Call η)
  | turn w x _ => (w.turn x).call
  | deed _ _ _ => none

/-- Whether something is done at a moment, rather than a turn taken. -/
def isDeed : Moment η → Bool
  | deed _ _ _ => true
  | turn _ _ _ => false

/-- The moments there can be when there is nothing but timers. -/
inductive Timely : Moment η → Prop
  | set (w : World η) (delay : UInt64) (h : η) (stack : List (Work η)) :
      Timely (.deed w (.schedule delay h) stack)
  | drop (w : World η) (id : Nat) (stack : List (Work η)) :
      Timely (.deed w (.cancelTimer id) stack)
  | depart (w : World η) (ms : UInt64) : Timely (.deed w (.advance ms) [])
  | ring {w : World η} {target : UInt64} {t : Timer (Task η)} {clock : Clock (Task η)} {h : η}
      (hdue : w.clock.takeDue? target = some (t, clock)) (htask : t.task = .handler h) :
      Timely (.turn w (.advance target) [])
  | arrive {w : World η} {target : UInt64} (hdue : w.clock.takeDue? target = none) :
      Timely (.turn w (.advance target) [])

end Moment

theorem turn_of_due {w : World η} {target : UInt64} {t : Timer (Task η)} {clock : Clock (Task η)}
    {h : η} (hdue : w.clock.takeDue? target = some (t, clock)) (htask : t.task = .handler h) :
    w.turn (.advance target) = .calling { w with clock } h (.due t.due) [.advance target] := by
  obtain ⟨-, -, hnow, -⟩ := Clock.queue_takeDue? hdue
  simp only [World.turn, hdue, htask, hnow]

theorem turn_of_not_due {w : World η} {target : UInt64} (hdue : w.clock.takeDue? target = none) :
    w.turn (.advance target) = .goOn { w with clock := w.clock.moveTo target } [] := by
  simp only [World.turn, hdue]

theorem filterMap_concat {β : Type} (f : Moment η → Option β) (ms : List (Moment η))
    (m : Moment η) : (ms ++ [m]).filterMap f = ms.filterMap f ++ (f m).toList := by
  rw [List.filterMap_append, List.filterMap_cons]
  cases f m <;> rfl

/-- A moment that has nothing to say can be left out. -/
theorem filterMap_append_concat {β : Type} (f : Moment η → Option β) {m : Moment η}
    (hm : f m = none) (ms ms' : List (Moment η)) :
    (ms ++ [m] ++ ms').filterMap f = (ms ++ ms').filterMap f := by
  rw [List.filterMap_append, filterMap_concat, hm, List.filterMap_append]
  exact congrArg (· ++ _) (List.append_nil _)

/-- The accounts at a moment, and whether the clock is on its way. -/
structure Timed (ms : List (Moment η)) (a : Activity η) : Prop where
  accounts : Clock.Accounts (ms.filterMap Moment.sets) (ms.filterMap Moment.rings)
    (ms.filterMap Moment.drops) a.world.clock
  stack : a.stack = [] ∨ ∃ target, a.stack = [.advance target] ∧ a.world.clock.now ≤ target

variable {w : World η} {ms : List (Moment η)} {m : Moment η} {a b : Activity η}

theorem timed_start (hstart : w.clock = .start) : Timed [] ⟨w, []⟩ where
  accounts := by
    rw [hstart]
    exact Clock.accounts_start
  stack := .inl rfl

namespace Timed

theorem handler (h : Timed ms a) {t : Timer (Task η)} (ht : t ∈ a.world.clock.queue) :
    ∃ called, t.task = .handler called := by
  obtain ⟨m, -, hm⟩ := List.mem_filterMap.1 (h.accounts.wereSet t (List.mem_append_right _ ht))
  unfold Moment.sets at hm
  split at hm
  · cases hm
    exact ⟨_, rfl⟩
  · cases hm

/-- **What can happen next.** -/
theorem timely (h : Timed ms m.before) (hallowed : m.Allowed timing) : m.Timely := by
  cases m with
  | deed w d stack =>
    obtain ⟨-, hmay⟩ := hallowed
    cases d with
    | schedule delay called => exact .set w delay called stack
    | cancelTimer id => exact .drop w id stack
    | advance ms =>
      obtain rfl : stack = [] := hmay
      exact .depart w ms
    | _ => exact absurd hmay id
  | turn w x stack =>
    rcases h.stack with hnil | ⟨target, hstack, -⟩
    · cases hnil
    · cases hstack
      cases hdue : w.clock.takeDue? target with
      | none => exact .arrive hdue
      | some taken =>
        obtain ⟨t, clock⟩ := taken
        obtain ⟨hqueue, -⟩ := Clock.queue_takeDue? hdue
        have hwaits : t ∈ w.clock.queue := hqueue ▸ List.mem_cons_self
        obtain ⟨called, htask⟩ := h.handler hwaits
        exact .ring hdue htask

/-- **The accounts are kept up at every moment.** -/
theorem concat (h : Timed ms m.before) (hallowed : m.Allowed timing) :
    Timed (ms ++ [m]) m.after := by
  have haccounts := h.accounts
  have hstack := h.stack
  refine ⟨?_, ?_⟩
  · rw [filterMap_concat, filterMap_concat, filterMap_concat]
    cases h.timely hallowed with
    | set w delay called stack =>
      show Clock.Accounts (_ ++ [_]) (_ ++ []) (_ ++ []) _
      rw [List.append_nil, List.append_nil]
      exact haccounts.schedule delay (.handler called)
    | drop w id stack =>
      show Clock.Accounts (_ ++ []) (_ ++ []) (_ ++ Option.toList (if _ then _ else _)) _
      rw [List.append_nil, List.append_nil]
      exact haccounts.cancel id
    | depart w ms =>
      show Clock.Accounts (_ ++ []) (_ ++ []) (_ ++ []) _
      simp only [List.append_nil]
      exact haccounts
    | ring hdue htask =>
      rw [Moment.after, turn_of_due hdue htask, Moment.rings, hdue]
      show Clock.Accounts (_ ++ []) (_ ++ [_]) (_ ++ []) _
      rw [List.append_nil, List.append_nil]
      exact haccounts.takeDue? hdue
    | @arrive w target hdue =>
      have hle : w.clock.now ≤ target := by
        rcases hstack with hnil | ⟨t, ht, hle⟩
        · cases hnil
        · cases ht
          exact hle
      rw [Moment.after, turn_of_not_due hdue, Moment.rings, hdue]
      show Clock.Accounts (_ ++ []) (_ ++ []) (_ ++ []) _
      simp only [List.append_nil]
      exact haccounts.moveTo hdue hle
  · cases h.timely hallowed with
    | set w delay called stack => exact hstack
    | drop w id stack => exact hstack
    | depart w ms => exact .inr ⟨_, rfl, le_addUpTo _ _⟩
    | ring hdue htask =>
      obtain ⟨-, -, hnow, hle⟩ := Clock.queue_takeDue? hdue
      rw [Moment.after, turn_of_due hdue htask]
      exact .inr ⟨_, rfl, hnow ▸ hle⟩
    | arrive hdue =>
      rw [Moment.after, turn_of_not_due hdue]
      exact .inl rfl

/-- Time does not go back. -/
theorem now_le (h : Timed ms m.before) (hallowed : m.Allowed timing) :
    m.before.world.clock.now ≤ m.after.world.clock.now := by
  have hstack := h.stack
  have horderly := h.accounts.orderly
  cases h.timely hallowed with
  | set w delay called stack => exact UInt64.le_refl _
  | drop w id stack => exact UInt64.le_refl _
  | depart w ms => exact UInt64.le_refl _
  | ring hdue htask =>
    obtain ⟨hqueue, -, hnow, -⟩ := Clock.queue_takeDue? hdue
    rw [Moment.after, turn_of_due hdue htask]
    exact UInt64.le_trans (horderly.ahead _ (hqueue ▸ List.mem_cons_self)) (UInt64.le_of_eq hnow.symm)
  | @arrive w target hdue =>
    rw [Moment.after, turn_of_not_due hdue]
    rcases hstack with hnil | ⟨t, ht, hle⟩
    · cases hnil
    · cases ht
      exact hle

end Timed

namespace History

/-- **The accounts are in order at any time.** -/
theorem timed (h : History timing ⟨w, []⟩ ms b) (hstart : w.clock = .start) : Timed ms b := by
  induction h with
  | refl => exact timed_start hstart
  | tail m _ hallowed ih => exact ih.concat hallowed

theorem timed_after {ms' : List (Moment η)} {c : Activity η} (ha : Timed ms a)
    (h : History timing a ms' c) : Timed (ms ++ ms') c := by
  induction h with
  | refl => rwa [List.append_nil]
  | tail m _ hallowed ih =>
    rw [← List.append_assoc]
    exact ih.concat hallowed

theorem now_le {ms' : List (Moment η)} {c : Activity η} (ha : Timed ms a)
    (h : History timing a ms' c) : a.world.clock.now ≤ c.world.clock.now := by
  induction h with
  | refl => exact UInt64.le_refl _
  | tail m h hallowed ih => exact UInt64.le_trans ih ((timed_after ha h).now_le hallowed)

/-- While nobody takes a turn, time stands still. -/
theorem now_of_deeds (h : History timing a ms b) (hdeeds : ∀ m ∈ ms, m.isDeed) :
    b.world.clock.now = a.world.clock.now ∧
      ∀ m ∈ ms, m.after.world.clock.now = a.world.clock.now := by
  induction h with
  | refl => exact ⟨rfl, fun _ hm ↦ absurd hm List.not_mem_nil⟩
  | tail m _ hallowed ih =>
    obtain ⟨hnow, hall⟩ := ih fun m hm ↦ hdeeds m (List.mem_append_left _ hm)
    have hlast : m.after.world.clock.now = m.before.world.clock.now := by
      cases m with
      | turn w x stack =>
        have hdeed := hdeeds _ (List.mem_append_right _ (List.mem_singleton_self _))
        exact absurd hdeed Bool.false_ne_true
      | deed w d stack =>
        cases d with
        | schedule | cancelTimer | advance => rfl
        | _ => exact absurd hallowed.2 id
    refine ⟨hlast.trans hnow, fun m' hm' ↦ ?_⟩
    rcases List.mem_append.1 hm' with hm' | hm'
    · exact hall m' hm'
    · rw [List.mem_singleton.1 hm']
      exact hlast.trans hnow

/-- Until the clock arrives it is on its way to where it was moved. -/
theorem stack_until_arrival {ms' : List (Moment η)} {target : UInt64} (ha : Timed ms a)
    (hstack : a.stack = [.advance target]) (h : History timing a ms' b)
    (hms' : ∀ m ∈ ms', m.after.stack ≠ []) : b.stack = [.advance target] := by
  induction h with
  | refl => exact hstack
  | tail m h hallowed ih =>
    have hbefore := ih fun m hm ↦ hms' m (List.mem_append_left _ hm)
    have hafter := hms' m (List.mem_append_right _ (List.mem_singleton_self m))
    cases (timed_after ha h).timely hallowed with
    | set | drop => exact hbefore
    | depart => cases hbefore
    | ring hdue htask =>
      rw [Moment.after, turn_of_due hdue htask]
      exact hbefore
    | arrive hdue =>
      rw [Moment.after, turn_of_not_due hdue] at hafter
      exact absurd rfl hafter

end History

/-! ### Punctuality -/

/-- Timers ring once, in their turn and at their time. -/
structure Punctual (ms : List (Moment η)) : Prop where
  /-- No timer rings twice. -/
  once : ((ms.filterMap Moment.rings).map Timer.id).Nodup
  /-- What rings later is due later, or at the same time has a later number. -/
  inTurn : (ms.filterMap Moment.rings).Pairwise Timer.Before
  /-- Numbers are given out in the order in which timers are set. -/
  numbered : (ms.filterMap Moment.sets).Pairwise fun t u ↦ t.id < u.id
  /-- Nobody is called but by a timer. -/
  calls : ∀ m ∈ ms, m.rings = none → m.call = none
  /-- What was dropped does not ring. -/
  kept : ∀ earlier m later t, ms = earlier ++ m :: later → m.rings = some t →
    t.id ∉ earlier.filterMap Moment.drops
  /-- What rings was set before, and calls whom it was set for when its delay is over; and time stands
  still until the next turn. -/
  onTime : ∀ earlier m later t, ms = earlier ++ m :: later → m.rings = some t →
    ∃ v delay called stack, Moment.deed v (.schedule delay called) stack ∈ earlier ∧
      t = ⟨addUpTo v.clock.now delay, v.clock.nextId, .handler called⟩ ∧
      t.due.toNat = v.clock.now.toNat + delay.toNat ∧ m.call = some ⟨called, .due t.due⟩ ∧
      m.after.world.clock.now = t.due ∧
      ∀ m' ∈ later.takeWhile Moment.isDeed, m'.after.world.clock.now = t.due
  /-- The clock arrives where it was moved to, and what was due by then and was not dropped has
  rung. -/
  complete : ∀ earlier v time during m later,
    ms = earlier ++ .deed v (.advance time) [] :: (during ++ m :: later) →
      (∀ m' ∈ during, m'.after.stack ≠ []) → m.after.stack = [] →
        m.after.world.clock.now.toNat = v.clock.now.toNat + time.toNat ∧
        ∀ t ∈ (earlier ++ during).filterMap Moment.sets, t.due ≤ m.after.world.clock.now →
          t ∈ (earlier ++ during).filterMap Moment.rings ∨
            t.id ∈ (earlier ++ during).filterMap Moment.drops

namespace Moment.Timely

theorem of_rings (h : m.Timely) {t : Timer (Task η)} (ht : m.rings = some t) :
    ∃ v target clock called, m = .turn v (.advance target) [] ∧
      v.clock.takeDue? target = some (t, clock) ∧ t.task = .handler called := by
  cases h with
  | ring hdue htask =>
    rw [rings, hdue] at ht
    cases ht
    exact ⟨_, _, _, _, rfl, hdue, htask⟩
  | arrive hdue =>
    rw [rings, hdue] at ht
    cases ht
  | _ => cases ht

theorem call_of_rings (h : m.Timely) (hm : m.rings = none) : m.call = none := by
  cases h with
  | ring hdue htask =>
    rw [rings, hdue] at hm
    cases hm
  | arrive hdue => rw [call, turn_of_not_due hdue]; rfl
  | _ => rfl

end Moment.Timely

namespace History

variable {earlier later during : List (Moment η)} {t : Timer (Task η)} {v : World η}
  {time : UInt64}

theorem timed_before (h : History timing ⟨w, []⟩ (earlier ++ m :: later) b)
    (hstart : w.clock = .start) :
    Timed earlier m.before ∧ m.Timely ∧ Timed (earlier ++ [m]) m.after ∧
      History timing m.after later b := by
  obtain ⟨hbefore, hallowed, hafter⟩ := h.at_moment
  have htimed := hbefore.timed hstart
  exact ⟨htimed, htimed.timely hallowed, htimed.concat hallowed, hafter⟩

theorem not_dropped (h : History timing ⟨w, []⟩ (earlier ++ m :: later) b)
    (hstart : w.clock = .start) (ht : m.rings = some t) : t.id ∉ earlier.filterMap Moment.drops := by
  obtain ⟨htimed, htimely, -, -⟩ := h.timed_before hstart
  obtain ⟨v, target, clock, called, rfl, hdue, -⟩ := htimely.of_rings ht
  obtain ⟨hqueue, -⟩ := Clock.queue_takeDue? hdue
  have hwaits : t ∈ v.clock.queue := hqueue ▸ List.mem_cons_self
  exact htimed.accounts.gone t hwaits

/-- A delay that comes to less than the largest time there is, is kept exactly. -/
theorem due_of_lt {x y : UInt64} (h : (addUpTo x y).toNat < UInt64.size - 1) :
    (addUpTo x y).toNat = x.toNat + y.toNat := by
  rw [toNat_addUpTo] at h ⊢
  omega

theorem rings_on_time (h : History timing ⟨w, []⟩ (earlier ++ m :: later) b)
    (hstart : w.clock = .start) (hmax : b.world.clock.now.toNat < UInt64.size - 1)
    (ht : m.rings = some t) :
    ∃ v delay called stack, Moment.deed v (.schedule delay called) stack ∈ earlier ∧
      t = ⟨addUpTo v.clock.now delay, v.clock.nextId, .handler called⟩ ∧
      t.due.toNat = v.clock.now.toNat + delay.toNat ∧ m.call = some ⟨called, .due t.due⟩ ∧
      m.after.world.clock.now = t.due ∧
      ∀ m' ∈ later.takeWhile Moment.isDeed, m'.after.world.clock.now = t.due := by
  obtain ⟨htimed, htimely, htimed', hafter⟩ := h.timed_before hstart
  obtain ⟨v, target, clock, called, rfl, hdue, htask⟩ := htimely.of_rings ht
  obtain ⟨hqueue, -, hnow, -⟩ := Clock.queue_takeDue? hdue
  have hafter_now : (Moment.turn v (.advance target) []).after.world.clock.now = t.due := by
    rw [Moment.after, turn_of_due hdue htask]
    exact hnow
  -- What rings has waited, and what waits was set.
  have hset : t ∈ earlier.filterMap Moment.sets :=
    htimed.accounts.wereSet t (List.mem_append_right _ (hqueue ▸ List.mem_cons_self))
  obtain ⟨m', hm', hsets⟩ := List.mem_filterMap.1 hset
  unfold Moment.sets at hsets
  split at hsets
  · rename_i v' delay called' stack
    cases hsets
    cases htask
    refine ⟨v', delay, called, stack, hm', rfl, due_of_lt ?_, ?_, hafter_now, ?_⟩
    · have hle := hafter.now_le htimed'
      rw [hafter_now, UInt64.le_iff_toNat_le] at hle
      exact Nat.lt_of_le_of_lt hle hmax
    · rw [Moment.call, turn_of_due hdue rfl]
      rfl
    · rw [← List.takeWhile_append_dropWhile (p := Moment.isDeed) (l := later)] at hafter
      obtain ⟨c, hdeeds, -⟩ := hafter.split
      rw [← hafter_now]
      exact (hdeeds.now_of_deeds (List.all_eq_true.1 List.all_takeWhile)).2
  · cases hsets

theorem arrives (h : History timing ⟨w, []⟩
      (earlier ++ .deed v (.advance time) [] :: (during ++ m :: later)) b)
    (hstart : w.clock = .start) (hmax : b.world.clock.now.toNat < UInt64.size - 1)
    (hduring : ∀ m' ∈ during, m'.after.stack ≠ []) (hm : m.after.stack = []) :
    m.after.world.clock.now.toNat = v.clock.now.toNat + time.toNat ∧
      ∀ t ∈ (earlier ++ during).filterMap Moment.sets, t.due ≤ m.after.world.clock.now →
        t ∈ (earlier ++ during).filterMap Moment.rings ∨
          t.id ∈ (earlier ++ during).filterMap Moment.drops := by
  obtain ⟨-, -, hdeparted, hrest⟩ := h.timed_before hstart
  obtain ⟨hway, hallowed, hafter⟩ := hrest.at_moment
  have hstack : m.before.stack = [.advance (addUpTo v.clock.now time)] :=
    stack_until_arrival hdeparted rfl hway hduring
  have htimed := timed_after hdeparted hway
  have htimed' := htimed.concat hallowed
  have hle := hafter.now_le htimed'
  rw [UInt64.le_iff_toNat_le] at hle
  cases htimed.timely hallowed with
  | set | drop => cases hm.symm.trans hstack
  | depart => cases hstack
  | ring hdue htask =>
    rw [Moment.after, turn_of_due hdue htask] at hm
    cases hm
  | @arrive v' target hdue =>
    cases hstack
    have haccounts := htimed.accounts
    have hsilent {β : Type} (f : Moment η → Option β) (hf : f (.deed v (.advance time) []) = none) :=
      filterMap_append_concat f hf earlier during
    rw [hsilent Moment.sets rfl, hsilent Moment.rings rfl, hsilent Moment.drops rfl] at haccounts
    rw [Moment.after, turn_of_not_due hdue] at hle ⊢
    refine ⟨due_of_lt (Nat.lt_of_le_of_lt hle hmax), fun t ht hpast ↦ ?_⟩
    refine (haccounts.accounted t ht).imp_left fun hmem ↦ ?_
    rcases List.mem_append.1 hmem with hrung | hwaits
    · exact hrung
    · exact absurd (haccounts.orderly.lt_due hdue hwaits) (UInt64.not_lt.2 hpast)

/-- **Timers ring exactly once, in order, at their time**: in every run in which they are set and
dropped and the clock is moved on, from a clock at its beginning and as long as it stays below the
largest time there is. And whoever drops a timer, can drop it. -/
theorem punctual (h : History timing ⟨w, []⟩ ms b) (hstart : w.clock = .start)
    (hmax : b.world.clock.now.toNat < UInt64.size - 1) :
    Punctual ms ∧ ∀ id, b.world.Permits (.cancelTimer id) := by
  have htimed := h.timed hstart
  have haccounts := htimed.accounts
  obtain ⟨hordered, -, -⟩ := List.pairwise_append.1 haccounts.ordered
  refine ⟨⟨?_, ?_, haccounts.counted, ?_, ?_, ?_, ?_⟩, ?_⟩
  · exact List.pairwise_map.2 (hordered.imp And.right)
  · exact hordered.imp And.left
  · intro m hm hnone
    obtain ⟨earlier, later, rfl⟩ := List.append_of_mem hm
    exact (h.timed_before hstart).2.1.call_of_rings hnone
  · rintro earlier m later t rfl ht
    exact h.not_dropped hstart ht
  · rintro earlier m later t rfl ht
    exact h.rings_on_time hstart hmax ht
  · rintro earlier v time during m later rfl hduring hm
    exact h.arrives hstart hmax hduring hm
  · intro id t ht _
    exact htimed.handler ht

/-- Four timers are set, one of them is dropped, and the clock is moved on beyond all of them. The
first that rings sets one for the same time, and drops one that is due later. -/
def crowded : List (Option (Deed Unit)) :=
  [some (.schedule 5 ()), some (.schedule 3 ()), some (.schedule 3 ()), some (.schedule 4 ()),
    some (.cancelTimer 2), some (.advance 10), none, some (.schedule 0 ()), some (.cancelTimer 3),
    none, none, none]

/-- Three timers ring, and the clock arrives. -/
theorem punctual_crowded :
    ((follow crowded ⟨World.start, []⟩).1.filterMap Moment.rings).map (fun t ↦ (t.due, t.id))
        = [(3, 1), (3, 4), (5, 0)] ∧
      (follow crowded ⟨World.start, []⟩).2.world.clock.now = 10 ∧
      Punctual (follow crowded ⟨World.start, []⟩).1 := by
  have hhistory : History timing _ _ _ := History.ofPlan crowded ⟨World.start, []⟩ (by decide)
  exact ⟨by decide, by decide, (hhistory.punctual rfl (by decide)).1⟩

end History

end Activity

end LiveTemplate.Engine
