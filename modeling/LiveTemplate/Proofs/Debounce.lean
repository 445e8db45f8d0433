import LiveTemplate.Proofs.Alternation
import LiveTemplate.Proofs.Course

/-!
# Changed terms debounce

When handlers neither change payloads nor move the clock, a changed term is in one of five phases
(`Phase`): its operand has not changed; it has just changed, and the term is to be looked at; it is
to be settled; its timer is running; its window is over. The course that the term takes leads from
phase to phase.

At rest only three of these are left, and the term is true exactly within the window that began with
the latest change (`Windowed.truth_iff`). Without a window it is false at rest, and every change
makes it true and false again (`Flashing`).
-/

namespace LiveTemplate.Engine

variable {η : Type}

open World

namespace Activity

variable {may : Activity η → Deed η → Prop} {a b : Activity η} {es es' : List Happening}
  {s : SignalId} {place : Nat} {c : CellId} {window : UInt64}

/-! ### Phases -/

/-- The phases of a changed term, given when its operand has changed last. -/
inductive Phase (window : UInt64) (s : SignalId) (place : Nat) (last : Option UInt64)
    (a : Activity η) (live : LiveTerm) : Prop
  /-- The operand has not changed. -/
  | untouched (hlast : last = none) (hvisits : visits s place a.stack = [])
      (htruth : live.truth = false) (htimer : live.timer = none)
  /-- The operand has just changed. -/
  | told (hlast : last = some a.world.clock.now) (hvisits : visits s place a.stack = [.look])
  /-- The term has just started anew. -/
  | answered (hlast : last = some a.world.clock.now) (hvisits : visits s place a.stack = [.settle])
      (htruth : live.truth = true) (htimer : live.timer = none)
  /-- The timer is running. -/
  | running {m : UInt64} {t : Timer (Task η)} (hlast : last = some m)
      (hvisits : visits s place a.stack = []) (htruth : live.truth = true)
      (htimer : live.timer = some t.id) (ht : t ∈ a.world.clock.queue)
      (htask : t.task = .expire s place) (hwindow : window ≠ 0) (hdue : t.due = addUpTo m window)
      (hahead : a.Ahead t ∨ UInt64.size - 1 ≤ m.toNat + window.toNat)
  /-- The window is over. -/
  | ended {m : UInt64} (hlast : last = some m) (hvisits : visits s place a.stack = [])
      (htruth : live.truth = false) (htimer : live.timer = none)
      (hended : addUpTo m window ≤ a.world.clock.now)

/-- A term that is to be looked at has just changed. -/
theorem Phase.of_look {last : Option UInt64} {live : LiveTerm} {vs : List Visit}
    (hp : Phase window s place last a live) (h : visits s place a.stack = .look :: vs) :
    last = some a.world.clock.now ∧ vs = [] := by
  cases hp with
  | told hlast hlook =>
    rw [hlook] at h
    cases h
    exact ⟨hlast, rfl⟩
  | answered _ hsettle => rw [hsettle] at h; cases h
  | untouched _ hnone => rw [hnone] at h; cases h
  | running _ hnone => rw [hnone] at h; cases h
  | ended _ hnone => rw [hnone] at h; cases h

/-- A term that is to be settled has just changed and started anew. -/
theorem Phase.of_settle {last : Option UInt64} {live : LiveTerm} {vs : List Visit}
    (hp : Phase window s place last a live) (h : visits s place a.stack = .settle :: vs) :
    last = some a.world.clock.now ∧ vs = [] ∧ live.truth = true ∧ live.timer = none := by
  cases hp with
  | answered hlast hsettle htruth htimer =>
    rw [hsettle] at h
    cases h
    exact ⟨hlast, rfl, htruth, htimer⟩
  | told _ hlook => rw [hlook] at h; cases h
  | untouched _ hnone => rw [hnone] at h; cases h
  | running _ hnone => rw [hnone] at h; cases h
  | ended _ hnone => rw [hnone] at h; cases h

/-- If nothing is to be done about a term, the timer that it remembers was set for the end of the
window that began with the latest change. -/
theorem Phase.of_timer {last : Option UInt64} {live : LiveTerm} {id : Nat}
    (hp : Phase window s place last a live) (h : visits s place a.stack = [])
    (htimer : live.timer = some id) : window ≠ 0 ∧ ∃ m, last = some m ∧
      ∃ t ∈ a.world.clock.queue, t.id = id ∧ t.due = addUpTo m window := by
  cases hp with
  | running hlast _ _ htimer' ht _ hwindow hdue =>
    rw [htimer'] at htimer
    exact ⟨hwindow, _, hlast, _, ht, Option.some.inj htimer, hdue⟩
  | untouched _ _ _ hnone => rw [hnone] at htimer; cases htimer
  | told _ hlook => rw [hlook] at h; cases h
  | answered _ hsettle => rw [hsettle] at h; cases h
  | ended _ _ _ hnone => rw [hnone] at htimer; cases htimer

/-- A timer that has just been set has not run out. -/
theorem ahead_of_arm {t : Timer (Task η)} (hwindow : window ≠ 0)
    (hdue : t.due = addUpTo b.world.clock.now window) :
    b.Ahead t ∨ UInt64.size - 1 ≤ b.world.clock.now.toNat + window.toNat := by
  have hpos : 0 < window.toNat := by
    rw [Nat.pos_iff_ne_zero]
    exact fun h ↦ hwindow (UInt64.toNat_inj.1 h)
  by_cases hbound : UInt64.size - 1 ≤ b.world.clock.now.toNat + window.toNat
  · exact .inr hbound
  · refine .inl (.inl ?_)
    rw [UInt64.lt_iff_toNat_lt, hdue, toNat_addUpTo]
    omega

/-- **A changed term goes from phase to phase.** -/
theorem phase_of_course {old live : LiveTerm} (ho : a.world.Orderly) (hneat : a.world.Neat s place)
    (h : Change may a es' b) (hle : a.world.clock.now ≤ b.world.clock.now)
    (hold : a.world.term? s place = some old) (hc : Course c window s place a es' b old live)
    (hp : Phase window s place (changeTimes c es).getLast? a old) :
    Phase window s place (changeTimes c (es ++ es')).getLast? b live := by
  rw [changeTimes_append]
  cases hc with
  | still hvisits htimes hnow hqueue =>
    rw [htimes, List.append_nil]
    cases hp with
    | untouched hlast hnone htruth htimer =>
      exact .untouched hlast (hvisits.trans hnone) htruth htimer
    | told hlast hlook =>
      have hnow := hnow.resolve_right (by rw [hlook]; exact List.cons_ne_nil _ _)
      exact .told (hlast.trans (congrArg some hnow.symm)) (hvisits.trans hlook)
    | answered hlast hsettle htruth htimer =>
      have hnow := hnow.resolve_right (by rw [hsettle]; exact List.cons_ne_nil _ _)
      exact .answered (hlast.trans (congrArg some hnow.symm)) (hvisits.trans hsettle) htruth htimer
    | running hlast hnone htruth htimer ht htask hwindow hdue hahead =>
      have ht' := hqueue _ ht htask
      exact .running hlast (hvisits.trans hnone) htruth htimer ht' htask hwindow hdue
        (hahead.imp_left (ahead_of_change ho h ht'))
    | ended hlast hnone htruth htimer hended =>
      exact .ended hlast (hvisits.trans hnone) htruth htimer (UInt64.le_trans hended hle)
  | put hbefore hafter htimes hnow =>
    refine .told ?_ hafter
    rw [htimes, List.getLast?_concat, hnow]
  | restart hbefore hafter htimes hnow =>
    obtain ⟨hlast, rfl⟩ := hp.of_look hbefore
    rw [htimes, List.append_nil]
    exact .answered (hlast.trans (congrArg some hnow.symm)) hafter rfl rfl
  | flash hwindow hbefore hafter htimes hnow =>
    obtain ⟨hlast, rfl, -, htimer⟩ := hp.of_settle hbefore
    rw [htimes, List.append_nil]
    refine .ended hlast hafter rfl htimer ?_
    rw [hwindow, addUpTo_zero]
    exact hle
  | arm hwindow hbefore hafter htimes hnow ht hdue htask =>
    obtain ⟨hlast, rfl, htruth, -⟩ := hp.of_settle hbefore
    rw [htimes, List.append_nil]
    rw [← hnow] at hlast hdue
    exact .running hlast hafter htruth rfl ht htask hwindow hdue (ahead_of_arm hwindow hdue)
  | @expire t hbefore hafter htimes ht htask hnow =>
    -- The timer is the one that the term remembers.
    have htimer := hneat.timer_eq hold ht htask
    obtain ⟨-, m, hlast, t', ht', hid, hdue⟩ := hp.of_timer hbefore htimer
    have heq : t' = t := ho.clock.eq_of_id ht' ht hid
    rw [htimes, List.append_nil]
    refine .ended hlast hafter rfl rfl ?_
    rw [hnow, ← heq, hdue]
    exact UInt64.le_refl _

/-- A timer is set over the one that the term remembers, as the term settles. -/
theorem settle_of_armed (h : Change may a es b) {former : Option Nat}
    (hmem : .armed s place former ∈ es) :
    ∃ live vs, a.world.term? s place = some live ∧ live.timer = former ∧
      visits s place a.stack = .settle :: vs := by
  cases h with
  | put => cases List.mem_singleton.1 hmem
  | subscribe => cases List.mem_singleton.1 hmem
  | tell =>
    split at hmem
    · cases List.mem_singleton.1 hmem
    · cases hmem
  | amend hsig hlive how =>
    have hnews := (List.mem_append.1 hmem).resolve_right not_mem_turning
    cases how with
    | arm =>
      cases List.mem_singleton.1 hnews
      exact ⟨_, _, term?_eq_some.2 ⟨_, hsig, hlive⟩, rfl, by simp [visits_cons, Work.visits]; rfl⟩
    | _ => cases hnews
  | _ => cases hmem

/-- What there is to say of a changed term once its signal is there. -/
structure Windowed (c : CellId) (window : UInt64) (s : SignalId) (place : Nat)
    (es : List Happening) (a : Activity η) : Prop where
  attended : Attended a
  paced : Paced es a
  grounded : Grounded (fun x ↦ ¬x.drives) a.stack
  given : s < a.world.signals.next
  neat : a.world.Neat s place
  term : ∀ live, a.world.term? s place = some live → live.term = .changed c window
  phase : ∀ live, a.world.term? s place = some live →
    Phase window s place (changeTimes c es).getLast? a live

theorem grounded_of_quietly (hg : Grounded (fun x ↦ ¬x.drives) a.stack)
    (h : Change quietly a es b) : Grounded (fun x ↦ ¬x.drives) b.stack :=
  grounded_change (fun _ ↦ id) (fun _ _ _ ↦ id) (fun _ _ _ _ hmay ↦ .inr (hmay (.inl trivial)))
    (fun _ _ _ hmay ↦ hmay (.inr trivial)) hg h

/-- No timer is set over another if handlers do not change payloads. -/
theorem Windowed.not_armed (ha : Windowed c window s place es a) (h : Change may a es' b)
    (id : Nat) : .armed s place (some id) ∉ es' := by
  intro hmem
  obtain ⟨live, vs, hlive, htimer, hvisits⟩ := settle_of_armed h hmem
  obtain ⟨-, -, -, hnone⟩ := (ha.phase live hlive).of_settle hvisits
  rw [hnone] at htimer
  cases htimer

theorem windowed_change (ho : a.world.Orderly) (ha : Windowed c window s place es a)
    (h : Change quietly a es' b) : Windowed c window s place (es ++ es') b := by
  have hterm : ∀ live, b.world.term? s place = some live → live.term = .changed c window := by
    intro live hlive
    rcases leaf_of_change h hlive with
      hsame | ⟨hnew, -⟩ | ⟨old, g, k, _, _, _, _, hold, rfl, how, -⟩
    · exact ha.term live hsame
    · exact absurd ha.given (Nat.not_lt.2 (Nat.le_of_eq hnew.symm))
    · rw [how.term_eq]
      exact ha.term old hold
  refine ⟨attended_change ho ha.attended h,
    paced_change (fun _ _ _ hmay ↦ hmay (.inr trivial)) ho ha.paced h,
    grounded_of_quietly ha.grounded h, Nat.lt_of_lt_of_le ha.given (next_of_change h),
    (neat_change_iff ho h ha.neat).2 (ha.not_armed h), hterm, fun live hlive ↦ ?_⟩
  obtain ⟨old, hold, hc⟩ :=
    course_of_change ho ha.attended ha.grounded ha.given h hlive (hterm live hlive)
  exact phase_of_course ho ha.neat h (ha.paced.now_le ho h) hold hc (ha.phase old hold)

/-- At rest a changed term is true exactly within the window that began with the latest change. -/
theorem Windowed.truth_iff {w : World η} {live : LiveTerm}
    (ha : Windowed c window s place es ⟨w, []⟩) (hlive : w.term? s place = some live)
    (hbound : w.clock.now.toNat + window.toNat < UInt64.size - 1) :
    live.truth = true ↔ ∃ m, (changeTimes c es).getLast? = some m ∧
      w.clock.now.toNat < m.toNat + window.toNat := by
  have hpast : ∀ {m}, (changeTimes c es).getLast? = some m → m.toNat ≤ w.clock.now.toNat := by
    intro m hm
    have hmem := mem_changeTimes.1 (List.mem_of_getLast? hm)
    exact UInt64.le_iff_toNat_le.1 (ha.paced.past c m hmem)
  cases ha.phase live hlive with
  | untouched hlast _ htruth =>
    rw [htruth, hlast]
    exact iff_of_false Bool.false_ne_true fun ⟨m, hm, _⟩ ↦ by cases hm
  | told _ hlook => cases hlook
  | answered _ hsettle => cases hsettle
  | @running m t hlast _ htruth _ _ _ _ hdue hahead =>
    have hm := hpast hlast
    refine iff_of_true htruth ⟨m, hlast, ?_⟩
    rcases hahead with (hlt | ⟨target, hmem⟩) | hover
    · rw [UInt64.lt_iff_toNat_lt, hdue, toNat_addUpTo] at hlt
      exact Nat.lt_of_lt_of_le hlt (Nat.min_le_left _ _)
    · cases hmem
    · omega
  | @ended m hlast _ htruth _ hended =>
    have hm := hpast hlast
    rw [htruth, hlast]
    refine iff_of_false Bool.false_ne_true ?_
    rintro ⟨m', hm', hlt⟩
    cases hm'
    change addUpTo m window ≤ w.clock.now at hended
    rw [UInt64.le_iff_toNat_le, toNat_addUpTo] at hended
    omega

/-! ### Signals of changed terms -/

/-- A signal for a term alone is as true as the term. -/
theorem truth_of_bare {t : Term CellId} (hs : StandsFor (.term t) s a) (hlives : a.world.Lives s) :
    ∃ live, a.world.term? s 0 = some live ∧ a.world.truth s = live.truth := by
  obtain ⟨sig, hsig⟩ := Option.isSome_iff_exists.1 hlives
  have hkeeps := hs.keeps sig hsig
  cases hcircuit : sig.circuit with
  | leaf live =>
    refine ⟨live, term?_eq_some.2 ⟨sig, hsig, by rw [hcircuit]; rfl⟩, ?_⟩
    rw [World.truth, hsig]
    exact congrArg Circuit.truth hcircuit
  | _ =>
    rw [hcircuit] at hkeeps
    cases hkeeps

/-- What a signal for a changed term without a window still turns to. -/
def flashes : List Visit → List Bool
  | .look :: _ => [true, false]
  | .settle :: _ => [false]
  | [] => []

/-- What there is to say of a signal for a changed term without a window. -/
structure Flashing (c : CellId) (s : SignalId) (es : List Happening) (a : Activity η) : Prop where
  windowed : Windowed c 0 s 0 es a
  stands : StandsFor (.term (.changed c 0)) s a
  dark : ∀ live, a.world.term? s 0 = some live → visits s 0 a.stack ≠ [.settle] → live.truth = false
  turned : a.world.Lives s →
    turnings s es ++ flashes (visits s 0 a.stack) = (changeTimes c es).flatMap fun _ ↦ [true, false]

/-- Without a window a term has no timer to run out. -/
theorem Windowed.not_expire (ha : Windowed c 0 s place es a) {live : LiveTerm}
    (hlive : a.world.term? s place = some live) (hvisits : visits s place a.stack = [])
    {t : Timer (Task η)} (ht : t ∈ a.world.clock.queue) : t.task ≠ .expire s place := by
  intro htask
  have htimer := ha.neat.timer_eq hlive ht htask
  obtain ⟨hwindow, -⟩ := (ha.phase live hlive).of_timer hvisits htimer
  exact hwindow rfl

/-- What a signal turns to in a change, it turns to on the course of its term. -/
theorem turned_of_course (ha : Flashing c s es a) {old live : LiveTerm}
    (hold : a.world.term? s 0 = some old) (hc : Course c 0 s 0 a es' b old live)
    (hturned : turnings s es' = if live.truth = old.truth then [] else [live.truth]) :
    turnings s es' ++ flashes (visits s 0 b.stack) =
      flashes (visits s 0 a.stack) ++ (changeTimes c es').flatMap fun _ ↦ [true, false] := by
  have hw := ha.windowed
  rw [hturned]
  cases hc with
  | still hvisits htimes =>
    rw [hvisits, htimes]
    simp
  | put hbefore hafter htimes =>
    rw [hbefore, hafter, htimes]
    simp [flashes]
  | restart hbefore hafter htimes =>
    have hdark : old.truth = false := ha.dark old hold (by rw [hbefore]; nofun)
    rw [hbefore, hafter, htimes, hdark]
    rfl
  | flash _ hbefore hafter htimes =>
    obtain ⟨-, rfl, htruth, -⟩ := (hw.phase old hold).of_settle hbefore
    rw [hbefore, hafter, htimes, htruth]
    rfl
  | arm hwindow => exact absurd rfl hwindow
  | expire hbefore _ _ ht htask => exact absurd htask (hw.not_expire hold hbefore ht)

theorem flashing_change (ho : a.world.Orderly) (ha : Flashing c s es a)
    (h : Change quietly a es' b) : Flashing c s (es ++ es') b := by
  have hw := ha.windowed
  have hw' := windowed_change ho hw h
  have hstands' := standsFor_change ha.stands h
  refine ⟨hw', hstands', fun live hlive hvisits ↦ ?_, fun hlives ↦ ?_⟩
  · obtain ⟨old, hold, hc⟩ :=
      course_of_change ho hw.attended hw.grounded hw.given h hlive (hw'.term live hlive)
    cases hc with
    | still heq => exact ha.dark live hold (heq ▸ hvisits)
    | put hbefore => exact ha.dark live hold (by rw [hbefore]; nofun)
    | restart hbefore hafter =>
      obtain ⟨-, rfl⟩ := (hw.phase old hold).of_look hbefore
      exact absurd hafter hvisits
    | flash => rfl
    | arm hwindow => exact absurd rfl hwindow
    | expire => rfl
  · have hlives' := lives_of_change h hw.given hlives
    obtain ⟨live, hlive, htruth'⟩ := truth_of_bare hstands' hlives
    obtain ⟨old, hold, htruth⟩ := truth_of_bare ha.stands hlives'
    obtain ⟨old', hold', hc⟩ :=
      course_of_change ho hw.attended hw.grounded hw.given h hlive (hw'.term live hlive)
    rw [hold] at hold'
    cases hold'
    have hturned : turnings s es' = if live.truth = old.truth then [] else [live.truth] := by
      rw [← htruth, ← htruth']
      rcases turned_of_change h hw.given with ⟨hnone, hsame⟩ | ⟨hone, hne⟩
      · rw [hnone, if_pos (hsame hlives)]
      · rw [hone, if_neg hne]
    rw [turnings_append, changeTimes_append, List.flatMap_append, ← ha.turned hlives',
      List.append_assoc, turned_of_course ha hold hc hturned, List.append_assoc]

/-! ### From the beginning -/

/-- Nothing is to be done about a term of a signal that there has not been. -/
theorem Attended.visits_eq_nil (ha : Attended a) (hs : a.world.signals.next ≤ s) :
    visits s place a.stack = [] := by
  refine List.flatMap_eq_nil_iff.2 fun x hx ↦ ?_
  cases x with
  | tellCell d current rest =>
    have hnone : rest.filterMap (·.place? s) = [] := by
      refine List.filterMap_eq_nil_iff.2 fun o ho ↦ ?_
      cases hplace : o.place? s with
      | none => rfl
      | some i =>
        have hlt := (ha.told d current rest hx o ho s i (Observer.place?_eq_some.1 hplace)).1
        exact absurd hlt (Nat.not_lt.2 hs)
    rw [Work.visits, hnone]
    rfl
  | settle s' place' =>
    refine if_neg ?_
    rintro ⟨rfl, -⟩
    exact absurd (ha.settled s' place' hx) (Nat.not_lt.2 hs)
  | _ => rfl

theorem hasCell_of_changed {w : World η} (hcell : w.HasCell c) :
    ∀ t ∈ (Formula.term (Term.changed c window)).terms, ∀ d ∈ t.operands, w.HasCell d := by
  intro t ht d hd
  cases List.mem_singleton.1 ht
  cases List.mem_singleton.1 hd
  exact hcell

theorem windowed_openSignal {w : World η} {stack : List (Work η)} (ho : w.Orderly)
    (hatt : Attended ⟨w, stack⟩) (hp : Paced es ⟨w, stack⟩)
    (hg : Grounded (fun x ↦ ¬x.drives) stack) (hcell : w.HasCell c) :
    Windowed c window w.signals.next 0 []
      ⟨(w.openSignal (.term (.changed c window))).2, stack⟩ := by
  have hopen : Change anything ⟨w, stack⟩ []
      ⟨(w.openSignal (.term (.changed c window))).2, stack⟩ :=
    .openSignal (hasCell_of_changed hcell)
  have hclock : (w.openSignal (.term (.changed c window))).2.clock = w.clock :=
    (attaches_openSignal w _).clock
  have hlive : ∀ live, (w.openSignal (.term (.changed c window))).2.term? w.signals.next 0 =
      some live → live = w.startTerm (.changed c window) := by
    intro live hlive
    rw [term?, get?_openSignal, if_pos rfl] at hlive
    exact (Option.some.inj hlive).symm
  have hpaced : Paced [] ⟨(w.openSignal (.term (.changed c window))).2, stack⟩ := by
    refine ⟨hp.grounded, fun t ht ↦ ?_, fun _ _ h ↦ absurd h List.not_mem_nil⟩
    rw [hclock]
    exact hp.target t ht
  refine ⟨attended_change ho hatt hopen, hpaced, hg, (standsFor_openSignal _ w stack).given,
    (neat_next ho).openSignal ho _, fun live h ↦ ?_, fun live h ↦ ?_⟩
  · rw [hlive live h]
    rfl
  · rw [hlive live h]
    exact .untouched rfl (hatt.visits_eq_nil (Nat.le_refl _)) rfl rfl

/-- Who subscribes at rest has been told all. -/
theorem alternating_rest {w : World η} {t : Ticket} (ho : w.Orderly)
    (hsub : w.subscribes s t = true) : Alternating s t (w.truth s) [] ⟨w, []⟩ := by
  obtain ⟨sig, hsig, hmem⟩ := subscribes_iff.1 hsub
  obtain ⟨e, he, rfl⟩ := List.mem_map.1 hmem
  exact ⟨ho.signals s sig hsig, (ho.tickets s sig hsig).2 e he, trivial, List.isChain_singleton _,
    fun _ ↦ rfl, fun _ ↦ rfl, List.prefix_rfl⟩

/-- A signal whose operand has not changed has not been true. -/
theorem flashing_of_untouched (hw : Windowed c 0 s 0 [] a)
    (hs : StandsFor (.term (.changed c 0)) s a) : Flashing c s [] a := by
  have hstart : ∀ live, a.world.term? s 0 = some live →
      visits s 0 a.stack = [] ∧ live.truth = false := by
    intro live hlive
    cases hw.phase live hlive with
    | untouched _ hnone htruth => exact ⟨hnone, htruth⟩
    | told hlast => cases hlast
    | answered hlast => cases hlast
    | running hlast => cases hlast
    | ended hlast => cases hlast
  refine ⟨hw, hs, fun live hlive _ ↦ (hstart live hlive).2, fun hlives ↦ ?_⟩
  obtain ⟨live, hlive, -⟩ := truth_of_bare hs hlives
  rw [(hstart live hlive).1]
  rfl

theorem Run.outward (h : Run quietly a es b) : Run outwardly a es b :=
  h.mono fun _ _ hmay hpasses ↦ hmay (.inr hpasses)

/-- What handlers that hold back keep up on the stack. -/
theorem Run.layered (h : Run quietly a es b) (ho : a.world.Orderly) (ht : Ticketed a)
    (hl : Layered a.stack) : Ticketed b ∧ Layered b.stack :=
  h.keeps (P := fun a ↦ Ticketed a ∧ Layered a.stack)
    (fun ho ⟨ht, hl⟩ hchange ↦ ⟨ticketed_change ho ht hchange, layered_change hl hchange⟩) ho
    ⟨ht, hl⟩

/-- A signal without a window, between two times at rest, turns twice for each change. -/
theorem turnings_of_flashing {w w' : World η} (hrun : Run quietly ⟨w, []⟩ es' ⟨w', []⟩)
    (ho : w.Orderly) (ha : Flashing c s es ⟨w, []⟩) (hlives : w'.Lives s) :
    turnings s es' = (changeTimes c es').flatMap fun _ ↦ [true, false] := by
  have hend : Flashing c s (es ++ es') ⟨w', []⟩ := by
    have hkept := hrun.keepsLog (P := fun es' a ↦ Flashing c s (es ++ es') a)
      (fun ho ha hchange ↦ by
        rw [← List.append_assoc]
        exact flashing_change ho ha hchange) ho (by rwa [List.append_nil])
    exact hkept
  have hlives₀ : w.Lives s := by
    have hkept := hrun.keeps (P := fun a ↦ s < a.world.signals.next ∧ (a.world.Lives s → w.Lives s))
      (fun _ ⟨hs, hlives⟩ hchange ↦ ⟨Nat.lt_of_lt_of_le hs (next_of_change hchange),
        fun h ↦ hlives (lives_of_change hchange hs h)⟩) ho ⟨ha.windowed.given, id⟩
    exact hkept.2 hlives
  have hbefore := ha.turned hlives₀
  have hafter := hend.turned hlives
  rw [turnings_append, changeTimes_append, List.flatMap_append] at hafter
  rw [visits_nil, flashes, List.append_nil] at hbefore hafter
  rw [hbefore] at hafter
  exact List.append_cancel_left hafter

/-- **Changed terms debounce.** Let a predicate be observed that says that a cell has changed within
a window, and let payloads be changed and the clock be moved in any order, but one after the other:
handlers do neither. Before that there may be any run that comes to rest.

At rest the signal is true exactly if the payload has changed since and the window has not passed
that began with the latest change; to put an equal payload is no change. Whoever subscribes is told
how things stand, and from then on the opposite of what he was told before. If there is no window,
every change makes the signal true and false again for whoever subscribes. -/
theorem debounced_of_observePredicate {w₀ w₁ w₂ w : World η} {stack : List (Work η)}
    {es₀ es₁ : List Happening} {locals : ValueMap} {p : Predicate CellId}
    (hrun₀ : Run anything ⟨.start, []⟩ es₀ ⟨w₀, []⟩)
    (hrun₁ : Run quietly ⟨w₀, []⟩ es₁ ⟨w₁, stack⟩)
    (hbind : w₁.bind locals p = .ok (.term (.changed c window))) (hcell : w₁.HasCell c)
    (hobserve : w₁.observePredicate locals p = .ok (s, w₂))
    (hrun : Run quietly ⟨w₂, stack⟩ es ⟨w, []⟩) (hlives : w.Lives s) :
    (w.clock.now.toNat + window.toNat < UInt64.size - 1 →
      (w.truth s = true ↔ ∃ m, (changeTimes c es).getLast? = some m ∧
        w.clock.now.toNat < m.toNat + window.toNat)) ∧
    (∀ {es' a es'' b}, Run quietly ⟨w₂, stack⟩ es' a → Step quietly a es'' b →
      changeTimes c es'' = [] ∧ b.world.payload c = a.world.payload c ∨
        changeTimes c es'' = [a.world.clock.now] ∧
          (a.world.payload c == b.world.payload c) = false) ∧
    (∀ {es' w' stack' k es'' b}, Run quietly ⟨w₂, stack⟩ es' ⟨w', stack'⟩ → w'.Lives s →
      Run quietly ⟨(w'.subscribe s k).2, stack'⟩ es'' b →
        ∃ later, heard s w'.nextTicket (w'.atDeed (.subscribe s k) ++ es'') = w'.truth s :: later ∧
          (w'.truth s :: later).IsChain (· ≠ ·)) ∧
    (window = 0 → ∀ {es' w' es'' t}, Run quietly ⟨w₂, stack⟩ es' ⟨w', []⟩ →
      Run quietly ⟨w', []⟩ es'' ⟨w, []⟩ → w'.subscribes s t = true → w.subscribes s t = true →
        heard s t es'' = (changeTimes c es'').flatMap fun _ ↦ [true, false]) := by
  have hopen : w₁.openSignal (.term (.changed c window)) = (s, w₂) := by
    rw [observePredicate, hbind] at hobserve
    exact Except.ok.inj hobserve
  obtain ⟨rfl, rfl⟩ : w₁.signals.next = s ∧ (w₁.openSignal (.term (.changed c window))).2 = w₂ :=
    ⟨congrArg Prod.fst hopen, congrArg Prod.snd hopen⟩
  have ho₀ := hrun₀.orderly orderly_start
  have ho₁ := hrun₁.orderly ho₀
  have hopened : Change anything ⟨w₁, stack⟩ []
      ⟨(w₁.openSignal (.term (.changed c window))).2, stack⟩ :=
    .openSignal (hasCell_of_changed hcell)
  have ho₂ := orderly_change ho₁ hopened
  have hticketed₀ := hrun₀.keeps (fun ho ht hchange ↦ ticketed_change ho ht hchange) orderly_start
    (ticketed_nil _)
  obtain ⟨hticketed, hlayered⟩ := hrun₁.layered ho₀ hticketed₀ trivial
  have hgrounded := hrun₁.keeps (P := fun a ↦ Grounded (fun x ↦ ¬x.drives) a.stack)
    (fun _ hg hchange ↦ grounded_of_quietly hg hchange) ho₀ trivial
  have hwindowed : Windowed c window w₁.signals.next 0 []
      ⟨(w₁.openSignal (.term (.changed c window))).2, stack⟩ :=
    windowed_openSignal ho₁ (hrun₁.attended ho₀ (attended_nil _)) (hrun₁.outward.paced ho₀)
      hgrounded hcell
  have hstands := standsFor_openSignal (.term (.changed c window)) w₁ stack
  have hticketed₂ := ticketed_change ho₁ hticketed hopened
  refine ⟨fun hbound ↦ ?_, fun {es' a es'' b} hrun' hstep ↦ ?_,
    fun {es' w' stack' k es'' b} hrun' hlives' hrun'' ↦ ?_,
    fun hwindow {es' w' es'' t} hrun' hrun'' hsub' hsub ↦ ?_⟩
  · -- The signal is as true as its only term, which is in one of the phases at rest.
    obtain ⟨live, hlive, htruth⟩ := truth_of_bare (hrun.standsFor ho₂ hstands) hlives
    have hend := hrun.keepsLog (P := Windowed c window w₁.signals.next 0)
      (fun ho ha hchange ↦ windowed_change ho ha hchange) ho₂ hwindowed
    rw [htruth]
    exact hend.truth_iff hlive hbound
  · have hcell' := hrun'.hasCell ho₂ (hasCell_of_change hopened hcell)
    exact changeTimes_of_change (hstep.change (hrun'.orderly ho₂)) hcell'
  · obtain ⟨hticketed', hlayered'⟩ := hrun'.layered ho₂ hticketed₂ hlayered
    refine ⟨heard w₁.signals.next w'.nextTicket es'', ?_,
      hrun''.alternates (hrun'.orderly ho₂) hlayered' hticketed' hlives'⟩
    simp [heard, atDeed]
  · -- Who has been told all so far is told what the signal turns to from here.
    subst hwindow
    have ho' := hrun'.orderly ho₂
    have hflashing := hrun'.keepsLog (P := Flashing c w₁.signals.next)
      (fun ho ha hchange ↦ flashing_change ho ha hchange) ho₂
      (flashing_of_untouched hwindowed hstands)
    have htold := hrun''.keepsLog (P := Alternating w₁.signals.next t (w'.truth w₁.signals.next))
      (fun ho ha hchange ↦ alternating_change ho ha hchange) ho' (alternating_rest ho' hsub')
    have heard_eq := htold.told hsub
    rw [owed_nil, List.append_nil] at heard_eq
    rw [heard_eq]
    exact turnings_of_flashing hrun'' ho' hflashing hlives

/-! ### The end of a window -/

/-- A world with a cell. -/
def holding : World Unit := (start.create (.int 0)).2

/-- A signal says whether the cell has changed lately. -/
def expecting : World Unit := (holding.openSignal recent).2

/-- The cell has changed. -/
def rewritten : World Unit :=
  (turns 20 ⟨(expecting.write 0 (.int 1)).2.1, (expecting.write 0 (.int 1)).2.2⟩).2.world

/-- Time has passed since. -/
def later (ms : UInt64) : World Unit := (turns 20 ⟨rewritten, [.advance ms]⟩).2.world

theorem run_rewritten : Run quietly ⟨expecting, []⟩
    [.changed 0 0, .turned 0 true, .armed 0 0 none] ⟨rewritten, []⟩ :=
  ((Run.refl _).deed (.write 0 (.int 1)) trivial fun _ ↦ rfl).turns 20

/-- Whether the cell has changed at this instant. -/
def instant : Formula (Term CellId) := .term (.changed 0 0)

/-- Someone subscribes to a signal for that. -/
def attending : World Unit := ((holding.openSignal instant).2.subscribe 0 ()).2

/-- The cell has changed. -/
def flashed : World Unit :=
  (turns 20 ⟨(attending.write 0 (.int 1)).2.1, (attending.write 0 (.int 1)).2.2⟩).2.world

theorem run_attending : Run quietly ⟨(holding.openSignal instant).2, []⟩ [.told 0 1 false]
    ⟨attending, []⟩ :=
  (Run.refl _).deed (.subscribe 0 ()) rfl nofun

theorem run_flashed : Run quietly ⟨attending, []⟩
    [.changed 0 0, .turned 0 true, .told 0 1 true, .turned 0 false, .told 0 1 false]
    ⟨flashed, []⟩ :=
  ((Run.refl _).deed (.write 0 (.int 1)) trivial fun _ ↦ rfl).turns 20

/-- The signal is true until the window is over. Without a window, it becomes true and false. -/
theorem debounced_of_observePredicate_later :
    ((later 99).truth 0 = true ∧ (later 100).truth 0 = false) ∧
    heard 0 1 [.changed 0 0, .turned 0 true, .told 0 1 true, .turned 0 false, .told 0 1 false] =
      [true, false] := by
  have hrun₀ : Run anything ⟨.start, []⟩ _ ⟨holding, []⟩ :=
    (Run.refl _).deed (.create (.int 0)) trivial trivial
  have hbind : holding.bind .empty (recent.map (Term.map .literal)) = .ok recent := rfl
  have hbind' : holding.bind .empty (instant.map (Term.map .literal)) = .ok instant := rfl
  have hrun₁ : Run quietly ⟨expecting, []⟩ [.changed 0 0, .turned 0 true, .armed 0 0 none]
      ⟨later 99, []⟩ := (run_rewritten.deed (.advance 99) trivial fun _ ↦ rfl).turns 20
  have hrun₂ : Run quietly ⟨expecting, []⟩
      [.changed 0 0, .turned 0 true, .armed 0 0 none, .turned 0 false] ⟨later 100, []⟩ :=
    (run_rewritten.deed (.advance 100) trivial fun _ ↦ rfl).turns 20
  obtain ⟨htrue, -⟩ :=
    debounced_of_observePredicate hrun₀ (.refl _) hbind (by decide) rfl hrun₁ rfl
  obtain ⟨hfalse, -⟩ :=
    debounced_of_observePredicate hrun₀ (.refl _) hbind (by decide) rfl hrun₂ rfl
  obtain ⟨-, -, -, htold⟩ := debounced_of_observePredicate hrun₀ (.refl _) hbind' (by decide) rfl
    (run_attending.trans run_flashed) rfl
  refine ⟨⟨(htrue (by decide)).2 ⟨0, rfl, by decide⟩, Bool.eq_false_iff.2 fun htruth ↦ ?_⟩,
    htold rfl run_attending run_flashed rfl rfl⟩
  obtain ⟨m, hm, hlt⟩ := (hfalse (by decide)).1 htruth
  cases hm
  exact absurd hlt (by decide)

end Activity

end LiveTemplate.Engine
