import LiveTemplate.Proofs.Completing
import LiveTemplate.Proofs.Passing
import LiveTemplate.Proofs.Ringing

/-!
# When time goes forward

Whoever is called by a timer may move the clock himself, in the middle of its being moved. So there
can be several places at once where the clock is being moved (`Activity.targets`), the one of the
innermost move first. An inner move that goes beyond the one that it is made in *strays*: when the
outer one arrives, it sets the clock back to its own target.

The main statement is that nothing else ever sets the clock back (`onward_iff`). What carries it is
that the time and the targets are in ascending order (`InBounds`). A moment leaves them so without
going back if and only if it finds them so and does not stray (`inBounds_after_iff`), and this goes
through a history in both directions.
-/

namespace LiveTemplate.Engine

open World

variable {η : Type}

/-- Where a piece of work moves the clock. -/
def Work.target? : Work η → Option UInt64
  | .advance target => some target
  | _ => none

theorem Work.target?_of_not_drives {x : Work η} (h : ¬x.drives) : x.target? = none := by
  cases x with
  | advance target => exact absurd trivial h
  | _ => rfl

theorem Work.target?_of_idle {x : Work η} (h : x.idle) : x.target? = none := by
  cases x with
  | advance target => exact h.elim
  | _ => rfl

/-- Work that does not move the clock can be left out. -/
theorem filterMap_target?_append {xs : List (Work η)} (h : ∀ x ∈ xs, x.target? = none)
    (stack : List (Work η)) :
    (xs ++ stack).filterMap Work.target? = stack.filterMap Work.target? := by
  rw [List.filterMap_append, List.filterMap_eq_nil_iff.2 h, List.nil_append]

/-- What comes in front of ascending times is compared with the first of them only. -/
theorem pairwise_cons_cons_iff {first second : UInt64} {rest : List UInt64} :
    (first :: second :: rest).Pairwise (· ≤ ·) ↔
      first ≤ second ∧ (second :: rest).Pairwise (· ≤ ·) := by
  constructor
  · intro h
    obtain ⟨hfirst, hrest⟩ := List.pairwise_cons.1 h
    exact ⟨hfirst second List.mem_cons_self, hrest⟩
  · rintro ⟨hle, h⟩
    refine List.pairwise_cons.2 ⟨fun t ht ↦ ?_, h⟩
    rcases List.mem_cons.1 ht with rfl | ht
    · exact hle
    · exact UInt64.le_trans hle ((List.pairwise_cons.1 h).1 t ht)

namespace Activity

/-- What the clock says. -/
def now (a : Activity η) : UInt64 := a.world.clock.now

/-- Where the clock is being moved, the innermost move first. -/
def targets (a : Activity η) : List UInt64 := a.stack.filterMap Work.target?

/-- The clock is not beyond any place where it is being moved, and no inner move goes beyond an
outer one. -/
def InBounds (a : Activity η) : Prop := (a.now :: a.targets).Pairwise (· ≤ ·)

variable {may : Activity η → Deed η → Prop} {a b : Activity η} {es : List Happening}
  {m : Moment η} {ms : List (Moment η)}

/-- At rest the clock is not being moved anywhere. -/
theorem inBounds_of_quiet (h : a.stack = []) : a.InBounds := by
  rw [InBounds, targets, h]
  exact List.pairwise_singleton _ _

/-! ### What a moment does to time -/

/-- What a change can do to the time, and to the places where the clock is being moved. -/
inductive Movement (may : Activity η → Deed η → Prop) (a b : Activity η) : Prop
  | still (hnow : b.now = a.now) (htargets : b.targets = a.targets)
  /-- Someone sets out to move the clock. -/
  | depart (ms : UInt64) (hmay : may a (.advance ms)) (hnow : b.now = a.now)
      (htargets : b.targets = addUpTo a.now ms :: a.targets)
  /-- On its way the clock comes to a timer. -/
  | ring {target : UInt64} {rest : List UInt64} (htargets : a.targets = target :: rest)
      (htargets' : b.targets = target :: rest) (hge : a.now ≤ b.now) (hle : b.now ≤ target)
  /-- The clock arrives. -/
  | arrive {target : UInt64} (htargets : a.targets = target :: b.targets) (hnow : b.now = target)

theorem movement_of_amendment {w w' : World η} {s : SignalId} {place : Nat} {live : LiveTerm}
    {begun left stack xs : List (Work η)} {g : LiveTerm → LiveTerm} {k : Clock (Task η)}
    {news : List Happening} (ho : w.Orderly) (how : Amendment w s place live begun g k left news)
    (hclock : w'.clock = k) (hxs : ∀ x ∈ xs, x.target? = none) :
    Movement may ⟨w, begun ++ stack⟩ ⟨w', xs ++ (left ++ stack)⟩ := by
  have hnow : w'.clock.now = k.now := congrArg Clock.now hclock
  have htargets : ∀ rest : List (Work η), (⟨w', xs ++ rest⟩ : Activity η).targets =
      rest.filterMap Work.target? := fun rest ↦ filterMap_target?_append hxs rest
  cases how with
  | look => exact .still hnow (htargets _)
  | restart held _ _ hheld =>
    rw [Clock.foldl_cancel] at hnow
    refine .still hnow ((htargets _).trans ?_)
    refine filterMap_target?_append (fun x hx ↦ ?_) stack
    rcases List.mem_cons.1 hx with rfl | hx
    · rfl
    · rcases List.mem_append.1 hx with hx | hx
      · rw [hheld x hx]
        rfl
      · rw [List.mem_singleton.1 hx]
        rfl
  | flash => exact .still hnow (htargets _)
  | arm => exact .still hnow (htargets _)
  | expire _ hdue =>
    obtain ⟨hge, hle⟩ := ho.clock.now_le_takeDue? hdue
    rw [← hnow] at hge hle
    exact .ring rfl (htargets _) hge hle

/-- **What a change can do to time.** -/
theorem movement_of_change (ho : a.world.Orderly) (h : Change may a es b) : Movement may a b := by
  cases h with
  | spare begun left hspares hbegun hleft =>
    have hnone : ∀ x ∈ left, x.target? = none := fun x hx ↦
      Work.target?_of_idle (idle_of_left hleft x hx)
    refine .still hspares.now ((filterMap_target?_append hnone _).trans ?_)
    exact (filterMap_target?_append (fun x hx ↦ Work.target?_of_idle (hbegun x hx)) _).symm
  | perform => exact .still rfl rfl
  | advance hmay => exact .depart _ hmay rfl rfl
  | put begun left _ hby =>
    rcases hby with ⟨rfl, rfl, -⟩ | ⟨us, us', locals, rfl, rfl⟩ <;> exact .still rfl rfl
  | openSignal => exact .still (congrArg Clock.now (attaches_openSignal _ _).clock) rfl
  | amend _ _ how hamends =>
    exact movement_of_amendment ho how hamends.clock fun x hx ↦
      Work.target?_of_not_drives (not_drives_of_tidings x hx)
  | ring hdue =>
    obtain ⟨hge, hle⟩ := ho.clock.now_le_takeDue? hdue
    exact .ring rfl rfl hge hle
  | arrive => exact .arrive rfl rfl
  | _ => exact .still rfl rfl

namespace Moment

/-- A move strays if it goes beyond the innermost of those that it is made in. -/
def Strays : Moment η → Prop
  | deed w (.advance ms) stack =>
    ∃ target ∈ (stack.filterMap Work.target?).head?, target < addUpTo w.clock.now ms
  | _ => False

instance : (m : Moment η) → Decidable m.Strays
  | .turn _ _ _ => isFalse id
  | .deed w (.advance ms) stack => inferInstanceAs (Decidable (∃ target ∈
      (stack.filterMap Work.target?).head?, target < addUpTo w.clock.now ms))
  | .deed _ (.create _) _ | .deed _ (.write _ _) _ | .deed _ (.observe _ _) _
  | .deed _ (.cancel _) _ | .deed _ (.openSignal _) _ | .deed _ (.subscribe _ _) _
  | .deed _ (.hold _) _ | .deed _ (.letGo _) _ | .deed _ (.perform _ _) _
  | .deed _ (.schedule _ _) _ | .deed _ (.cancelTimer _) _ | .deed _ (.addGlobal _ _) _
  | .deed _ .publish _ | .deed _ (.await _) _ | .deed _ (.listen _) _ | .deed _ (.report _) _ =>
    isFalse id

/-- A moment at which nobody sets out to move the clock, if it is not one at which someone does. -/
theorem eq_or_allowed (m : Moment η) (hm : m.Allowed may) :
    (∃ w ms stack, m = .deed w (.advance ms) stack) ∨
      m.Allowed (fun _ d ↦ ¬d.passes) ∧ ¬m.Strays := by
  cases m with
  | turn w x stack => exact .inr ⟨trivial, id⟩
  | deed w d stack =>
    cases d with
    | advance ms => exact .inl ⟨w, ms, stack, rfl⟩
    | _ => exact .inr ⟨⟨hm.1, id⟩, id⟩

/-- A move that sets out comes in front of those that it is made in. -/
theorem inBounds_depart_iff (w : World η) (ms : UInt64) (stack : List (Work η)) :
    (⟨w, .advance (addUpTo w.clock.now ms) :: stack⟩ : Activity η).InBounds ↔
      (⟨w, stack⟩ : Activity η).InBounds ∧ ¬(deed w (.advance ms) stack).Strays := by
  show (w.clock.now :: addUpTo w.clock.now ms :: stack.filterMap Work.target?).Pairwise (· ≤ ·) ↔
    (w.clock.now :: stack.filterMap Work.target?).Pairwise (· ≤ ·) ∧
      ¬∃ target ∈ (stack.filterMap Work.target?).head?, target < addUpTo w.clock.now ms
  have hnow := le_addUpTo w.clock.now ms
  cases stack.filterMap Work.target? with
  | nil => simpa using hnow
  | cons target rest =>
    have hhead : (¬∃ t ∈ (target :: rest).head?, t < addUpTo w.clock.now ms) ↔
        addUpTo w.clock.now ms ≤ target := by simp
    rw [hhead, pairwise_cons_cons_iff, pairwise_cons_cons_iff, pairwise_cons_cons_iff]
    constructor
    · rintro ⟨-, hle, hsorted⟩
      exact ⟨⟨UInt64.le_trans hnow hle, hsorted⟩, hle⟩
    · rintro ⟨⟨-, hsorted⟩, hle⟩
      exact ⟨hnow, hle, hsorted⟩

/-- **In bounds and forward.** A moment leaves the time and the places where the clock is being
moved in order, and does not set the clock back, if and only if it finds them in order and does not
stray. -/
theorem inBounds_after_iff (ho : m.before.world.Orderly) (hm : m.Allowed may) :
    m.after.InBounds ∧ m.before.now ≤ m.after.now ↔ m.before.InBounds ∧ ¬m.Strays := by
  rcases m.eq_or_allowed hm with ⟨w, ms, stack, rfl⟩ | ⟨hm, hstrays⟩
  · exact ⟨fun h ↦ (inBounds_depart_iff w ms stack).1 h.1,
      fun h ↦ ⟨(inBounds_depart_iff w ms stack).2 h, UInt64.le_refl _⟩⟩
  · simp only [hstrays, not_false_iff, and_true]
    cases movement_of_change ho ((step hm).change ho) with
    | still hnow htargets =>
      rw [InBounds, hnow, htargets, InBounds]
      exact and_iff_left (UInt64.le_refl _)
    | depart _ hmay => exact absurd trivial hmay
    | @ring target rest htargets htargets' hge hle =>
      rw [InBounds, htargets', InBounds, htargets, pairwise_cons_cons_iff, pairwise_cons_cons_iff]
      constructor
      · rintro ⟨⟨hle, hsorted⟩, -⟩
        exact ⟨UInt64.le_trans hge hle, hsorted⟩
      · rintro ⟨-, hsorted⟩
        exact ⟨⟨hle, hsorted⟩, hge⟩
    | arrive htargets hnow =>
      -- The time takes the place of the first target, so only it has to be compared with that.
      rw [InBounds, hnow, InBounds, htargets, pairwise_cons_cons_iff]
      exact and_comm

variable {t : Timer (Task η)}

/-- A timer is not set to be due before now. -/
theorem now_le_of_sets (h : m.sets = some t) : m.before.now ≤ t.due := by
  unfold sets at h
  split at h
  · cases h
    exact le_addUpTo _ _
  · cases h

/-- A timer does not ring after it was due. -/
theorem now_le_of_rings (ho : m.before.world.Orderly) (h : m.rings = some t) :
    m.before.now ≤ t.due := by
  unfold rings at h
  split at h
  · obtain ⟨taken, hdue, rfl⟩ := Option.map_eq_some_iff.1 h
    obtain ⟨hqueue, -⟩ := Clock.queue_takeDue? hdue
    exact ho.clock.ahead _ (hqueue ▸ List.mem_cons_self)
  · cases h

/-- When a timer rings it is due now. -/
theorem due_of_rings (h : m.rings = some t) : t.due = m.after.now := by
  unfold rings at h
  split at h
  · rename_i w target stack
    obtain ⟨taken, hdue, rfl⟩ := Option.map_eq_some_iff.1 h
    obtain ⟨-, -, hnow, -⟩ := Clock.queue_takeDue? hdue
    have hclock : (w.turn (.advance target)).world.clock = taken.2 := by
      simp only [World.turn, hdue]
      split
      · rfl
      · exact clock_setTerm _ _ _ _
    exact (hnow.symm.trans (congrArg Clock.now hclock).symm)
  · cases h

end Moment

namespace History

variable {w : World η}

/-- **Through a history**, in both directions. -/
theorem inBounds_iff (h : History may a ms b) (ho : a.world.Orderly) :
    (∀ m ∈ ms, m.before.now ≤ m.after.now) ∧ b.InBounds ↔ a.InBounds ∧ ∀ m ∈ ms, ¬m.Strays := by
  induction h with
  | refl => simp
  | tail m h hallowed ih =>
    have hmoment := m.inBounds_after_iff (h.run.orderly ho) hallowed
    simp only [List.forall_mem_append, List.forall_mem_singleton]
    tauto

theorem now_le_of_forward (h : History may a ms b)
    (hforward : ∀ m ∈ ms, m.before.now ≤ m.after.now) : a.now ≤ b.now := by
  induction h with
  | refl => exact UInt64.le_refl _
  | tail m h _ ih =>
    obtain ⟨hms, hm⟩ := List.forall_mem_append.1 hforward
    exact UInt64.le_trans (ih hms) (hm m List.mem_cons_self)

/-- While the clock goes forward, what is set or rings later is not due before what has rung. -/
theorem due_le (h : History may a ms b) (ho : a.world.Orderly)
    (hforward : ∀ m ∈ ms, m.before.now ≤ m.after.now) {earlier later : List (Moment η)}
    {t u : Timer (Task η)} {m' : Moment η} (hms : ms = earlier ++ m :: later)
    (ht : m.rings = some t) (hm' : m' ∈ later) (hu : m'.sets = some u ∨ m'.rings = some u) :
    t.due ≤ u.due := by
  subst hms
  obtain ⟨-, -, hafter⟩ := h.at_moment
  obtain ⟨between, rest, rfl⟩ := List.append_of_mem hm'
  obtain ⟨hbetween, -, -⟩ := hafter.at_moment
  have hle : m.after.now ≤ m'.before.now := by
    refine hbetween.now_le_of_forward fun x hx ↦ hforward x ?_
    exact List.mem_append_right _ (List.mem_cons_of_mem _ (List.mem_append_left _ hx))
  have hbefore : m'.before.world.Orderly := by
    have hcut : History may a ((earlier ++ m :: between) ++ m' :: rest) b := by simpa using h
    exact hcut.at_moment.1.run.orderly ho
  rw [Moment.due_of_rings ht]
  exact UInt64.le_trans hle (hu.elim Moment.now_le_of_sets (Moment.now_le_of_rings hbefore))

/-- **Time goes forward unless a move strays.** -/
theorem onward_iff (h : History may ⟨w, []⟩ ms b) (ho : w.Orderly) :
    ((∀ m ∈ ms, m.before.now ≤ m.after.now) ∧ b.InBounds ↔ ∀ m ∈ ms, ¬m.Strays) ∧
      (b.stack = [] → b.InBounds) ∧
      ((∀ m ∈ ms, ¬m.Strays) → ∀ earlier m later t, ms = earlier ++ m :: later →
        m.rings = some t → ∀ m' ∈ later, ∀ u, m'.sets = some u ∨ m'.rings = some u →
          t.due ≤ u.due) := by
  have hstart : (⟨w, []⟩ : Activity η).InBounds := inBounds_of_quiet rfl
  have hiff : (∀ m ∈ ms, m.before.now ≤ m.after.now) ∧ b.InBounds ↔ ∀ m ∈ ms, ¬m.Strays :=
    (h.inBounds_iff ho).trans (and_iff_right hstart)
  refine ⟨hiff, inBounds_of_quiet, ?_⟩
  intro hstays earlier m later t hms ht m' hm' u hu
  exact h.due_le ho (hiff.2 hstays).1 hms ht hm' hu

/-- A timer is set and the clock is sent to 10; when the timer rings at 5, its handler sends the
clock on by another 100. There it arrives first, and then at 10. -/
def outrun : List (Option (Deed Unit)) :=
  [some (.schedule 5 ()), some (.advance 10), none, some (.advance 100), none, none]

/-- So the clock has been at 105 and is at 10. -/
theorem back_outrun :
    ¬(∀ m ∈ (follow outrun ⟨World.start, []⟩).1, m.before.now ≤ m.after.now) ∧
      (follow outrun ⟨World.start, []⟩).1.map (fun m ↦ m.after.now) = [0, 0, 5, 5, 105, 10] := by
  have h : History anything ⟨World.start, []⟩ (follow outrun ⟨World.start, []⟩).1
      (follow outrun ⟨World.start, []⟩).2 := History.ofPlan outrun _ (by decide)
  obtain ⟨hiff, hrest, -⟩ := onward_iff h orderly_start
  have hstrays : ¬∀ m ∈ (follow outrun ⟨World.start, []⟩).1, ¬m.Strays := by decide
  exact ⟨fun hforward ↦ hstrays (hiff.1 ⟨hforward, hrest (by decide)⟩), by decide⟩

end History

end Activity

end LiveTemplate.Engine
