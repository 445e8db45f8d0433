import LiveTemplate.Proofs.Freshness
import LiveTemplate.Proofs.Passing

/-!
# The timers of changed terms

A changed term remembers the timer that is set for the end of its window. Normally that is the only
timer that waits for it, and none waits once its signal has gone (`Neat`). Every change keeps this
but one: a changed term drops its timer *before* its subscribers are told that it has become true,
and sets another *afterwards*. If a subscriber changes the value meanwhile, the timer that is set
for that change is remembered first and forgotten then, without being dropped; the happening `armed`
over a timer says so.

So in a run all states are neat exactly if no timer is ever set over another (`neat_change_iff`);
and as long as that is so, and time passes only while nothing is being done, no term becomes false
before its window is over (`le_now_of_ended`).
-/

namespace LiveTemplate.Engine

variable {η : Type}

/-- Whether a task ends the window of a term. -/
def Task.endsAt (s : SignalId) (place : Nat) : Task η → Bool
  | .handler _ => false
  | .expire s' place' => s' == s && place' == place

theorem Task.endsAt_iff {s : SignalId} {place : Nat} {task : Task η} :
    task.endsAt s place = true ↔ task = .expire s place := by
  cases task <;> simp [endsAt]

namespace World

/-- The timer that a term remembers. -/
def slot (w : World η) (s : SignalId) (place : Nat) : Option Nat :=
  (w.term? s place).bind LiveTerm.timer

/-- The timers that wait for the end of the window of a term. -/
def alarms (w : World η) (s : SignalId) (place : Nat) : List Nat :=
  (w.clock.queue.filter (·.task.endsAt s place)).map Timer.id

/-- At most one timer waits for the end of the window of a term, and the term remembers it; none
waits for a term of a signal that has gone. -/
def Neat (w : World η) (s : SignalId) (place : Nat) : Prop :=
  w.alarms s place = (w.slot s place).toList

variable {w w' : World η} {s : SignalId} {place : Nat}

theorem mem_alarms {id : Nat} :
    id ∈ w.alarms s place ↔ ∃ t ∈ w.clock.queue, t.task = .expire s place ∧ t.id = id := by
  simp [alarms, Task.endsAt_iff, and_assoc]

theorem slot_eq_some {id : Nat} :
    w.slot s place = some id ↔ ∃ live, w.term? s place = some live ∧ live.timer = some id :=
  Option.bind_eq_some_iff

/-- The timer that waits for a term is the one that it remembers. -/
theorem Neat.slot_of_mem (h : w.Neat s place) {t : Timer (Task η)} (ht : t ∈ w.clock.queue)
    (htask : t.task = .expire s place) : w.slot s place = some t.id := by
  have hmem : t.id ∈ w.alarms s place := mem_alarms.2 ⟨t, ht, htask, rfl⟩
  rw [h] at hmem
  exact Option.mem_toList.1 hmem

/-- A term remembers the timer that waits for it. -/
theorem Neat.timer_eq (h : w.Neat s place) {live : LiveTerm} (hlive : w.term? s place = some live)
    {t : Timer (Task η)} (ht : t ∈ w.clock.queue) (htask : t.task = .expire s place) :
    live.timer = some t.id := by
  obtain ⟨live', hlive', htimer⟩ := slot_eq_some.1 (h.slot_of_mem ht htask)
  rw [hlive] at hlive'
  cases hlive'
  exact htimer

theorem slot_of_term? (h : w'.term? s place = w.term? s place) :
    w'.slot s place = w.slot s place := by
  rw [slot, slot, h]

/-- A world with the same timers for a term and the same term is as neat. -/
theorem Neat.congr (h : w.Neat s place)
    (hqueue : w'.clock.queue.filter (·.task.endsAt s place) =
      w.clock.queue.filter (·.task.endsAt s place))
    (hterm : w'.term? s place = w.term? s place) : w'.Neat s place := by
  rw [Neat, alarms, hqueue, slot_of_term? hterm]
  exact h

theorem alarms_eq_nil (h : ∀ t ∈ w.clock.queue, t.task ≠ .expire s place) :
    w.alarms s place = [] := by
  rw [alarms, List.map_eq_nil_iff, List.filter_eq_nil_iff]
  exact fun t ht hends ↦ h t ht (Task.endsAt_iff.1 hends)

theorem term?_eq_none_of_not_lives (h : ¬w.Lives s) : w.term? s place = none := by
  have hnone : w.signals.get? s = none := by simpa [Lives] using h
  rw [term?, hnone]
  rfl

theorem term?_of_circuit {sig sig' : Signal η} (hsig : w.signals.get? s = some sig)
    (hsig' : w'.signals.get? s = some sig') (h : sig'.circuit = sig.circuit) :
    w'.term? s place = w.term? s place := by
  rw [term?, term?, hsig, hsig', Option.bind_some, Option.bind_some, h]

/-! ### What keeps a world neat -/

theorem neat_of_spares (h : Spares w w') (hneat : w.Neat s place) : w'.Neat s place := by
  by_cases hlives : w'.Lives s
  · obtain ⟨sig', hsig'⟩ := Option.isSome_iff_exists.1 hlives
    obtain ⟨sig, hsig, hcircuit, -⟩ := h.signal s sig' hsig'
    refine hneat.congr ?_ (term?_of_circuit hsig hsig' hcircuit)
    have hends : ∀ t : Timer (Task η),
        t.task.endsAt s place = (t.task.endsAt s place && t.task.ends s) := by
      intro t
      cases ht : t.task.endsAt s place with
      | false => rfl
      | true => simp [Task.endsAt_iff.1 ht, Task.ends]
    rw [List.filter_congr fun t _ ↦ hends t, List.filter_congr fun t _ ↦ hends t,
      ← List.filter_filter, ← List.filter_filter, h.ends s hlives]
  · -- The signal has gone, and with it the only timer that could have waited.
    rw [Neat, slot, term?_eq_none_of_not_lives hlives]
    refine alarms_eq_nil fun t ht htask ↦ ?_
    rcases h.old t ht with hold | ⟨-, k, hk⟩
    · obtain ⟨live, hlive, htimer⟩ := slot_eq_some.1 (hneat.slot_of_mem hold htask)
      obtain ⟨sig, hsig, hleaf⟩ := term?_eq_some.1 hlive
      obtain ⟨k, hk⟩ :=
        h.gone s sig hsig hlives t ht live (List.mem_of_getElem? hleaf) htimer
      rw [hk] at htask
      cases htask
    · rw [hk] at htask
      cases htask

theorem term?_next (ho : w.Orderly) : w.term? w.signals.next place = none := by
  rw [term?, ho.signals.get?_next]
  rfl

theorem neat_next (ho : w.Orderly) : w.Neat w.signals.next place := by
  rw [Neat, slot, term?_next ho]
  exact alarms_eq_nil fun t ht htask ↦ Nat.lt_irrefl _ (ho.ends t ht _ _ htask)

theorem Neat.openSignal (hneat : w.Neat s place) (ho : w.Orderly) (f : Formula (Term CellId)) :
    (w.openSignal f).2.Neat s place := by
  have hqueue : (w.openSignal f).2.clock = w.clock := (attaches_openSignal w f).clock
  rw [Neat, alarms, hqueue]
  by_cases hs : w.signals.next = s
  · -- There was no such term before, and a new term remembers no timer.
    subst hs
    have hnew : (w.openSignal f).2.slot w.signals.next place = none := by
      rw [slot, term?, get?_openSignal, if_pos rfl, Option.bind_some, newSignal, Circuit.leaf?,
        Circuit.leaves_build, List.getElem?_map]
      cases f.terms[place]? <;> rfl
    rw [hnew]
    rwa [Neat, slot, term?_next ho] at hneat
  · have hterm : (w.openSignal f).2.term? s place = w.term? s place := by
      rw [term?, term?, get?_openSignal, if_neg hs]
    rw [slot_of_term? hterm]
    exact hneat

section Amendment

variable {s' : SignalId} {place' : Nat} {sig : Signal η} {live : LiveTerm}
  {begun left : List (Work η)} {g : LiveTerm → LiveTerm} {k : Clock (Task η)}
  {news : List Happening}

theorem term?_of_amends (h : Amends s place g k w w') (hsig : w.signals.get? s = some sig)
    (hlive : sig.circuit.leaf? place = some live) : w'.term? s place = some (g live) := by
  obtain ⟨sig', hsig', hcircuit, -⟩ := h.signal sig hsig
  rw [term?, hsig', Option.bind_some, hcircuit, Circuit.leaf?_amend, if_pos rfl, hlive]
  rfl

theorem term?_of_amends_other (h : Amends s place g k w w') (hsig : w.signals.get? s = some sig)
    (hne : s' = s → place' ≠ place) : w'.term? s' place' = w.term? s' place' := by
  by_cases heq : s' = s
  · subst heq
    obtain ⟨sig', hsig', hcircuit, -⟩ := h.signal sig hsig
    rw [term?, term?, hsig, hsig', Option.bind_some, Option.bind_some, hcircuit,
      Circuit.leaf?_amend, if_neg (Ne.symm (hne rfl))]
  · rw [term?, term?, h.others s' heq]

/-- A change of a leaf has no bearing on the timers of another. -/
theorem filter_of_amendment (ho : w.Orderly) (hsig : w.signals.get? s = some sig)
    (hlive : sig.circuit.leaf? place = some live)
    (how : Amendment w s place live begun g k left news) (hne : s' = s → place' ≠ place) :
    k.queue.filter (·.task.endsAt s' place') = w.clock.queue.filter (·.task.endsAt s' place') := by
  have hother : (Task.expire (η := η) s place).endsAt s' place' = false := by
    rw [← Bool.not_eq_true, Task.endsAt_iff]
    intro heq
    cases heq
    exact hne rfl rfl
  cases how with
  | look => rfl
  | flash => rfl
  | restart =>
    rw [Clock.foldl_cancel, List.filter_filter]
    refine List.filter_congr fun t ht ↦ ?_
    cases hends : t.task.endsAt s' place' with
    | false => rfl
    | true =>
      -- The timer that is dropped is another.
      rw [Bool.true_and, Bool.not_eq_true', List.contains_eq_mem, decide_eq_false_iff_not]
      intro hmem
      have htimer : live.timer = some t.id := Option.mem_toList.1 hmem
      have htask := (ho.slots s sig place live t.id hsig hlive htimer).2 t ht rfl
      rw [htask, hother] at hends
      cases hends
  | arm => exact Clock.filter_enqueue hother _
  | expire _ hdue htask =>
    rw [(Clock.queue_takeDue? hdue).1, List.filter_cons_of_neg]
    rw [htask, hother]
    exact Bool.false_ne_true

/-- **The timers of the leaf that changes** stay in order, unless one is set over another. -/
theorem neat_amend_iff (hsig : w.signals.get? s = some sig)
    (hlive : sig.circuit.leaf? place = some live)
    (how : Amendment w s place live begun g k left news) (h : Amends s place g k w w')
    (hneat : w.Neat s place) :
    w'.Neat s place ↔ ∀ id, .armed s place (some id) ∉ news := by
  have hslot : w.slot s place = live.timer := by
    rw [slot, term?_eq_some.2 ⟨sig, hsig, hlive⟩]
    rfl
  have hslot' : w'.slot s place = (g live).timer := by
    rw [slot, term?_of_amends h hsig hlive]
    rfl
  rw [Neat, hslot] at hneat
  rw [Neat, hslot', alarms, h.clock]
  cases how with
  | look => exact iff_of_true hneat fun id ↦ List.not_mem_nil
  | flash => exact iff_of_true hneat fun id ↦ List.not_mem_nil
  | restart =>
    refine iff_of_true ?_ fun id ↦ List.not_mem_nil
    rw [Clock.foldl_cancel]
    refine alarms_eq_nil (w := { w with clock := { w.clock with queue := _ } }) fun t ht htask ↦ ?_
    obtain ⟨hmem, hnot⟩ := List.mem_filter.1 ht
    have hid : t.id ∈ w.alarms s place := mem_alarms.2 ⟨t, hmem, htask, rfl⟩
    rw [hneat] at hid
    simp [hid] at hnot
  | @arm _ window =>
    -- The new timer comes to those that waited.
    have hperm := ((Clock.perm_enqueue ⟨addUpTo w.clock.now window, w.clock.nextId, .expire s place⟩
      w.clock.queue).filter (·.task.endsAt s place)).map Timer.id
    rw [List.filter_cons, if_pos (Task.endsAt_iff.2 rfl), List.map_cons] at hperm
    change List.Perm _ (w.clock.nextId :: w.alarms s place) at hperm
    rw [hneat] at hperm
    cases htimer : live.timer with
    | none =>
      rw [htimer] at hperm
      exact iff_of_true (List.perm_singleton.1 hperm) fun id hmem ↦ by
        cases List.mem_singleton.1 hmem
    | some id =>
      refine iff_of_false (fun heq ↦ ?_) fun hnot ↦ hnot id List.mem_cons_self
      have hlength := hperm.length_eq
      rw [htimer] at hlength
      rw [Clock.schedule] at heq
      rw [heq] at hlength
      cases hlength
  | expire hterm hdue htask =>
    refine iff_of_true ?_ fun id ↦ List.not_mem_nil
    rw [alarms, (Clock.queue_takeDue? hdue).1] at hneat
    rw [List.filter_cons, if_pos (Task.endsAt_iff.2 htask), List.map_cons] at hneat
    -- The timer that has run out is the only one that waited.
    cases htimer : live.timer with
    | none =>
      rw [htimer] at hneat
      cases hneat
    | some id =>
      rw [htimer] at hneat
      exact (List.cons.inj hneat).2

end Amendment

/-- What has happened to one leaf has not happened to another. -/
theorem not_mem_news {s s' : SignalId} {place place' : Nat} {live : LiveTerm}
    {begun left : List (Work η)} {g : LiveTerm → LiveTerm} {k : Clock (Task η)}
    {news : List Happening} (how : Amendment w s' place' live begun g k left news)
    (hne : s = s' → place ≠ place') (former : Option Nat) : .armed s place former ∉ news := by
  intro hmem
  cases how with
  | arm =>
    cases List.mem_singleton.1 hmem
    exact hne rfl rfl
  | _ => cases hmem

theorem not_mem_turning {s s' : SignalId} {place : Nat} {sig : Signal η} {circuit : Circuit}
    {former : Option Nat} : .armed s place former ∉ turning s' sig circuit := by
  unfold turning
  split <;> simp

end World

namespace Activity

open World

variable {may : Activity η → Deed η → Prop} {a b : Activity η} {es : List Happening}
  {s : SignalId} {place : Nat}

/-- **A change keeps the timers of a term neat** exactly if it sets none over another. -/
theorem neat_change_iff (ho : a.world.Orderly) (h : Change may a es b)
    (hneat : a.world.Neat s place) :
    b.world.Neat s place ↔ ∀ id, .armed s place (some id) ∉ es := by
  cases h with
  | spare _ _ hspares => exact iff_of_true (neat_of_spares hspares hneat) fun id ↦ List.not_mem_nil
  | put => exact iff_of_true hneat fun id hmem ↦ by cases List.mem_singleton.1 hmem
  | openSignal => exact iff_of_true (hneat.openSignal ho _) fun id ↦ List.not_mem_nil
  | @subscribe w s' k =>
    refine iff_of_true ?_ fun id hmem ↦ by cases List.mem_singleton.1 hmem
    refine hneat.congr rfl ?_
    show ((w.subscribe s' k).2.signals.get? s).bind _ = (w.signals.get? s).bind _
    rw [get?_subscribe]
    split
    · cases w.signals.get? s <;> rfl
    · rfl
  | @amend w w' s' place' sig live begun left stack g k news hsig hlive how hamends =>
    have hnews : (∀ id, .armed s place (some id) ∉
        news ++ turning s' sig (sig.circuit.amend g place')) ↔
          ∀ id, .armed s place (some id) ∉ news := by
      simp [not_mem_turning]
    rw [hnews]
    by_cases hsame : s = s' ∧ place = place'
    · obtain ⟨rfl, rfl⟩ := hsame
      exact neat_amend_iff hsig hlive how hamends hneat
    · have hne : s = s' → place ≠ place' := fun hs hplace ↦ hsame ⟨hs, hplace⟩
      refine iff_of_true ?_ fun id ↦ not_mem_news how hne _
      refine hneat.congr ?_ (term?_of_amends_other hamends hsig hne)
      rw [hamends.clock]
      exact filter_of_amendment ho hsig hlive how hne
  | tell =>
    refine iff_of_true hneat fun id hmem ↦ ?_
    split at hmem
    · cases List.mem_singleton.1 hmem
    · cases hmem
  | @ring w target timer k stack hdue htask =>
    refine iff_of_true (hneat.congr ?_ rfl) fun id ↦ List.not_mem_nil
    have hqueue := (Clock.queue_takeDue? hdue).1
    show k.queue.filter _ = w.clock.queue.filter _
    rw [hqueue, List.filter_cons, if_neg]
    -- No timer waits for a term of a signal that has gone.
    intro hends
    have hexpire := Task.endsAt_iff.1 hends
    have hmem : timer ∈ w.clock.queue := hqueue ▸ List.mem_cons_self
    obtain ⟨live, hlive, -⟩ := slot_eq_some.1 (hneat.slot_of_mem hmem hexpire)
    rw [term?_eq_none_of_not_lives (htask s place hexpire)] at hlive
    cases hlive
  | _ => exact iff_of_true hneat fun id ↦ List.not_mem_nil

theorem neat_start : (World.start : World η).Neat s place := rfl

/-- In a run from the start in which no timer of a term is set over another, the term's timers are
neat. -/
theorem Run.neat (h : Run may ⟨.start, []⟩ es a) (hover : ∀ id, .armed s place (some id) ∉ es) :
    a.world.Neat s place := by
  have hkept := h.keepsLog
    (P := fun es a ↦ (∀ id, .armed s place (some id) ∉ es) → a.world.Neat s place)
    (fun ho hneat hchange hover ↦ by
      have hnot := hneat fun id hmem ↦ hover id (List.mem_append_left _ hmem)
      exact (neat_change_iff ho hchange hnot).2 fun id hmem ↦
        hover id (List.mem_append_right _ hmem))
    orderly_start fun _ ↦ neat_start
  exact hkept hover

/-! ### Windows -/

/-- A timer that was not there before has a new number. -/
theorem queue_of_change (ho : a.world.Orderly) (h : Change may a es b) {t : Timer (Task η)}
    (ht : t ∈ b.world.clock.queue) : t ∈ a.world.clock.queue ∨ a.world.clock.nextId ≤ t.id := by
  cases h with
  | spare _ _ hspares => exact (hspares.old t ht).imp_right And.left
  | openSignal =>
    rw [(attaches_openSignal _ _).clock] at ht
    exact .inl ht
  | amend hsig hlive how hamends =>
    rw [hamends.clock] at ht
    exact ((how.winds ho hsig hlive).queue t ht).imp_right And.left
  | @ring w _ _ _ _ hdue =>
    have hmem : t ∈ w.clock.queue :=
      (Clock.queue_takeDue? hdue).1 ▸ List.mem_cons_of_mem _ ht
    exact .inl hmem
  | _ => exact .inl ht

/-- The timer that a changed term remembers waits for the end of the window of every change so far,
unless the term still waits for an observer to be told of one. -/
def Lasting (s : SignalId) (place : Nat) (es : List Happening) (a : Activity η) : Prop :=
  ∀ live c window id, a.world.term? s place = some live → live.term = .changed c window →
    live.timer = some id → a.Awaited s place ∨
      ∀ m, .changed c m ∈ es → ∀ t ∈ a.world.clock.queue, t.id = id → addUpTo m window ≤ t.due

/-- A term that keeps its timer lasts. -/
theorem lasting_of_kept {es' : List Happening} (ho : a.world.Orderly) (hatt : Attended a)
    (hl : Lasting s place es a) (h : Change may a es' b) {old live : LiveTerm}
    (hold : a.world.term? s place = some old)
    (hlive : b.world.term? s place = some live) {c : CellId} {window : UInt64} {id : Nat}
    (hterm : old.term = .changed c window) (hterm' : live.term = .changed c window)
    (htimer : old.timer = some id) (htimer' : live.timer = some id) : b.Awaited s place ∨
      ∀ m, .changed c m ∈ es ++ es' → ∀ t ∈ b.world.clock.queue, t.id = id →
        addUpTo m window ≤ t.due := by
  rcases hl old c window id hold hterm htimer with hawaited | hbound
  · refine .inl ((awaited_change hatt h hlive hawaited).resolve_right fun hlooked ↦ ?_)
    rw [LiveTerm.Looked, hterm', htimer'] at hlooked
    cases hlooked
  · by_cases hput : ∃ m, .changed c m ∈ es'
    · obtain ⟨m, hm⟩ := hput
      obtain ⟨-, p, stack, -, -, rfl⟩ := put_of_changed h hm
      refine .inl (awaited_put ho p hold ?_ stack)
      rw [hterm]
      exact List.mem_singleton_self c
    · refine .inr fun m hm t ht hid ↦ ?_
      have hm := (List.mem_append.1 hm).resolve_right fun hm ↦ hput ⟨m, hm⟩
      rcases queue_of_change ho h ht with ht | hnew
      · exact hbound m hm t ht hid
      · obtain ⟨sig, hsig, hleaf⟩ := term?_eq_some.1 hold
        have hlt := (ho.slots s sig place old id hsig hleaf htimer).1
        omega

theorem lasting_change {es' : List Happening} (ho : a.world.Orderly) (hatt : Attended a)
    (hp : Paced es a) (hl : Lasting s place es a) (h : Change outwardly a es' b) :
    Lasting s place (es ++ es') b := by
  intro live c window id hlive hterm htimer
  rcases leaf_of_change h hlive with hbefore | ⟨-, hlooked⟩ |
    ⟨old, g, k, begun, left, news, stack, hold, rfl, how, hamends, -⟩
  · exact lasting_of_kept ho hatt hl h hbefore hlive hterm hterm htimer htimer
  · rw [LiveTerm.Looked, hterm, htimer] at hlooked
    cases hlooked
  · have hterm' := (how.term_eq old).symm.trans hterm
    cases how with
    | look hrelation =>
      rw [hrelation] at hterm'
      cases hterm'
    | restart => cases htimer
    | flash => exact lasting_of_kept ho hatt hl h hold hlive hterm' hterm htimer htimer
    | arm harm =>
      -- The timer has just been set, and all changes so far have happened by now.
      rw [harm] at hterm'
      cases hterm'
      cases htimer
      refine .inr fun m hm t ht hid ↦ ?_
      have hnow : m ≤ a.world.clock.now := by
        rcases List.mem_append.1 hm with hm | hm
        · exact hp.past c m hm
        · exact UInt64.le_of_eq (put_of_changed h hm).1
      rw [hamends.clock] at ht
      rcases Clock.mem_enqueue.1 ht with rfl | ht
      · exact addUpTo_mono hnow window
      · exact absurd hid (Nat.ne_of_lt (ho.clock.used t ht))
    | expire => cases htimer

theorem Run.lasting (h : Run outwardly ⟨.start, []⟩ es a) : Lasting s place es a := by
  have hall := h.keepsLog (P := fun es a ↦ Attended a ∧ Paced es a ∧ Lasting s place es a)
    (fun ho ⟨hatt, hp, hl⟩ hchange ↦ ⟨attended_change ho hatt hchange,
      paced_change (fun _ _ _ hmay ↦ hmay trivial) ho hp hchange,
      lasting_change ho hatt hp hl hchange⟩)
    orderly_start ⟨attended_nil _, paced_start, fun _ _ _ _ hlive ↦ by
      simp [World.start, term?] at hlive⟩
  exact hall.2.2

/-- **A changed term does not become false early.** -/
theorem le_now_of_ended {es' : List Happening} (ho : a.world.Orderly) (hp : Paced es a)
    (hl : Lasting s place es a) (hneat : a.world.Neat s place) (h : Change outwardly a es' b)
    {old live : LiveTerm} (hold : a.world.term? s place = some old)
    (hlive : b.world.term? s place = some live) {c : CellId} {window : UInt64}
    (hterm : old.term = .changed c window) (htruth : old.truth = true) (hended : live.truth = false)
    {m : UInt64} (hm : .changed c m ∈ es) : addUpTo m window ≤ b.world.clock.now := by
  rcases leaf_of_change h hlive with hsame | ⟨hnew, -⟩ |
    ⟨old', g, k, begun, left, news, stack, hold', rfl, how, hamends, hstack⟩
  · rw [hold] at hsame
    cases hsame
    rw [htruth] at hended
    cases hended
  · obtain ⟨sig, hsig, -⟩ := term?_eq_some.1 hold
    exact absurd (ho.signals s sig hsig) (Nat.not_lt.2 (Nat.le_of_eq hnew.symm))
  · rw [hold] at hold'
    cases hold'
    rw [hamends.clock]
    cases how with
    | look hrelation =>
      rw [hrelation] at hterm
      cases hterm
    | restart => cases hended
    | flash hflash =>
      rw [hflash] at hterm
      cases hterm
      rw [addUpTo_zero]
      exact hp.past c m hm
    | arm =>
      rw [show _ = false from hended] at htruth
      cases htruth
    | @expire _ _ _ timer _ _ hdue htask =>
      obtain ⟨hqueue, -, hnow, -⟩ := Clock.queue_takeDue? hdue
      have hmem : timer ∈ a.world.clock.queue := hqueue ▸ List.mem_cons_self
      have htimer := hneat.timer_eq hold hmem htask
      rw [hnow]
      rcases hl old c window timer.id hold hterm htimer with hawaited | hbound
      · -- While the clock moves nobody is still to be told of a change.
        obtain ⟨c', current, rest, htell, -⟩ := hawaited
        have hgrounded := hp.grounded
        rw [hstack] at hgrounded htell
        have hnil : stack = [] := hgrounded.eq_nil fun h ↦ h trivial
        rw [hnil] at htell
        cases List.mem_singleton.1 htell
      · exact hbound m hm timer hmem rfl

/-- **The timers of a changed term**, in any run from the start. At every moment of the run at most
one timer waits for the end of the term's window, the term remembers it, and none waits once the
signal has gone, if and only if no timer for it is ever set over another. And as long as none has
been, and handlers do not move the clock, the term becomes false only when the window is over that
began with the latest change. -/
theorem timers_of_changed (hrun : Run anything ⟨.start, []⟩ es b) (s : SignalId) (place : Nat) :
    ((∀ es₁ a es₂, Run anything ⟨.start, []⟩ es₁ a → Run anything a es₂ b → es₁ ++ es₂ = es →
        a.world.Neat s place) ↔ ∀ id, .armed s place (some id) ∉ es) ∧
    ((∀ id, .armed s place (some id) ∉ es) → Run outwardly ⟨.start, []⟩ es b →
      ∀ {es' b' old live c window}, Step outwardly b es' b' → b.world.term? s place = some old →
        old.term = .changed c window → old.truth = true → b'.world.term? s place = some live →
          live.truth = false → ∀ m, .changed c m ∈ es → addUpTo m window ≤ b'.world.clock.now) := by
  refine ⟨⟨fun hall ↦ ?_, fun hover es₁ a es₂ h₁ _ heq ↦ h₁.neat fun id hmem ↦ ?_⟩,
    fun hover hrun' es' b' old live c window hstep hold hterm htruth hlive hended m hm ↦ ?_⟩
  · induction hrun with
    | refl => exact fun _ ↦ List.not_mem_nil
    | @tail b c es es' run step ih =>
      intro id hmem
      rcases List.mem_append.1 hmem with hmem | hmem
      · refine ih (fun es₁ a es₂ h₁ h₂ heq ↦ hall es₁ a (es₂ ++ es') h₁ (h₂.tail step) ?_) id hmem
        rw [← heq, List.append_assoc]
      · -- Before the step all was neat, and after it.
        have ho := run.orderly orderly_start
        have hbefore := hall es b es' run (.single step) rfl
        have hafter := hall (es ++ es') c [] (run.tail step) (.refl c) (List.append_nil _)
        exact (neat_change_iff ho (step.change ho) hbefore).1 hafter id hmem
  · exact hover id (heq ▸ List.mem_append_left es₂ hmem)
  · have ho := hrun'.orderly orderly_start
    exact le_now_of_ended ho (hrun'.paced orderly_start) hrun'.lasting (hrun'.neat hover)
      (hstep.change ho) hold hlive hterm htruth hended hm

/-! ### A change in the middle of another -/

/-- Whether a cell has changed within the last hundred milliseconds. -/
def recent : Formula (Term CellId) := .term (.changed 0 100)

/-- A world with that cell and a signal for it, and someone who subscribes to the signal. -/
def debounced : World Unit :=
  (((start.create (.int 0)).2.openSignal recent).2.subscribe 0 ()).2

theorem hasCell_recent : ∀ t ∈ recent.terms, ∀ c ∈ t.operands,
    (start.create (η := Unit) (.int 0)).2.HasCell c := by
  decide

/-- The cell has changed, and the subscriber is being told that the signal has become true. -/
def telling : Activity Unit :=
  (turns 2 ⟨(debounced.write 0 (.int 1)).2.1, (debounced.write 0 (.int 1)).2.2⟩).2

/-- All is over again, and the clock is moved to the end of the window. -/
def waiting : Activity Unit := ⟨(turns 20 telling).2.world, [.advance 100]⟩

theorem run_telling : Run outwardly ⟨.start, []⟩
    [.told 0 1 false, .changed 0 0, .turned 0 true, .told 0 1 true] telling :=
  ((((Run.refl _).deed (.create (.int 0)) trivial nofun).deed (.openSignal recent) hasCell_recent
    nofun).deed (.subscribe 0 ()) rfl nofun).deed (.write 0 (.int 1)) trivial nofun |>.turns 2

theorem run_waiting : Run outwardly ⟨.start, []⟩
    [.told 0 1 false, .changed 0 0, .turned 0 true, .told 0 1 true, .armed 0 0 none] waiting :=
  (run_telling.turns 20).deed (.advance 100) trivial fun _ ↦ rfl

/-- All is over again after the subscriber has changed the cell once more in the middle of this. -/
def retold : Activity Unit :=
  (turns 20 ⟨(telling.world.write 0 (.int 2)).2.1,
    (telling.world.write 0 (.int 2)).2.2 ++ telling.stack⟩).2

theorem run_retold : Run anything ⟨.start, []⟩
    [.told 0 1 false, .changed 0 0, .turned 0 true, .told 0 1 true, .changed 0 0, .armed 0 0 none,
      .armed 0 0 (some 0)] retold :=
  (run_telling.any.deed (.write 0 (.int 2)) trivial trivial).turns 20

/-- If the subscriber changes the cell again, a timer is set over another. Otherwise the timer is
the only one, and the signal becomes false at the end of the window. -/
theorem timers_of_changed_twice :
    (¬∀ es₁ a es₂, Run anything ⟨.start, []⟩ es₁ a → Run anything a es₂ retold →
      es₁ ++ es₂ = [.told 0 1 false, .changed 0 0, .turned 0 true, .told 0 1 true, .changed 0 0,
        .armed 0 0 none, .armed 0 0 (some 0)] → a.world.Neat 0 0) ∧
    waiting.world.Neat 0 0 ∧
    addUpTo 0 100 ≤ (waiting.world.turn (.advance 100)).world.clock.now := by
  obtain ⟨hneat, hlate⟩ := timers_of_changed run_waiting.any 0 0
  have hover : ∀ id, Happening.armed 0 0 (some id) ∉ [.told 0 1 false, .changed 0 0, .turned 0 true,
      .told 0 1 true, .armed 0 0 none] := by
    simp
  refine ⟨fun hall ↦ ?_, hneat.2 hover _ _ [] run_waiting.any (.refl _) rfl, ?_⟩
  · exact (timers_of_changed run_retold 0 0).1.1 hall 0 (by decide)
  · exact hlate hover run_waiting (.turn waiting.world (.advance 100) []) rfl rfl rfl rfl rfl 0
      (by decide)

end Activity

end LiveTemplate.Engine
