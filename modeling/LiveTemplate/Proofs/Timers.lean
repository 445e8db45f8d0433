import LiveTemplate.Engine.Clock
import Mathlib.Data.List.Basic
import Mathlib.Data.List.Pairwise
import Mathlib.Tactic.Tauto

/-!
# The queue of a clock

The timers of a clock wait in the order in which they are due, each under a number of its own.
Setting a timer, dropping one and taking the next one keep this (`Clock.Orderly`), and neither
setting nor dropping a timer touches the others.
-/

namespace LiveTemplate

/-! ### Times -/

theorem toNat_addUpTo (x y : UInt64) :
    (addUpTo x y).toNat = min (x.toNat + y.toNat) (UInt64.size - 1) := by
  unfold addUpTo
  split
  · rename_i hlt
    rw [UInt64.toNat_add, Nat.mod_eq_of_lt hlt]
    omega
  · rw [UInt64.toNat_ofNat_of_lt' (by decide)]
    omega

theorem addUpTo_zero (x : UInt64) : addUpTo x 0 = x := by
  rw [← UInt64.toNat_inj, toNat_addUpTo]
  have := x.toNat_lt_size
  simp only [UInt64.toNat_zero, Nat.add_zero]
  omega

theorem le_addUpTo (x y : UInt64) : x ≤ addUpTo x y := by
  rw [UInt64.le_iff_toNat_le, toNat_addUpTo]
  have := x.toNat_lt_size
  omega

theorem addUpTo_mono {x x' : UInt64} (h : x ≤ x') (y : UInt64) : addUpTo x y ≤ addUpTo x' y := by
  rw [UInt64.le_iff_toNat_le] at h ⊢
  rw [toNat_addUpTo, toNat_addUpTo]
  omega

namespace Engine

namespace Clock

variable {κ : Type}

/-- The timers of a clock are in the order in which they are due, none of them in the past, and have
different numbers, which are below the next. -/
structure Orderly (c : Clock κ) : Prop where
  sorted : c.queue.Pairwise fun t u ↦ t.due ≤ u.due
  distinct : c.queue.Pairwise fun t u ↦ t.id ≠ u.id
  used : ∀ t ∈ c.queue, t.id < c.nextId
  ahead : ∀ t ∈ c.queue, c.now ≤ t.due

theorem orderly_start : (start : Clock κ).Orderly :=
  ⟨.nil, .nil, fun _ h ↦ by simp [start] at h, fun _ h ↦ by simp [start] at h⟩

theorem mem_enqueue {t u : Timer κ} {l : List (Timer κ)} : u ∈ enqueue t l ↔ u = t ∨ u ∈ l := by
  induction l with
  | nil => simp [enqueue]
  | cons v rest ih =>
    rw [enqueue]
    split
    · rw [List.mem_cons, ih, List.mem_cons]
      tauto
    · rw [List.mem_cons]

theorem perm_enqueue (t : Timer κ) (l : List (Timer κ)) : (enqueue t l).Perm (t :: l) := by
  induction l with
  | nil => exact .refl _
  | cons v rest ih =>
    rw [enqueue]
    split
    · exact (ih.cons v).trans (.swap t v rest)
    · exact .refl _

/-- A timer that one does not ask for can be put in a queue without being seen. -/
theorem filter_enqueue {p : Timer κ → Bool} {t : Timer κ} (ht : p t = false) (l : List (Timer κ)) :
    (enqueue t l).filter p = l.filter p := by
  induction l with
  | nil => simp [enqueue, ht]
  | cons v rest ih =>
    rw [enqueue]
    split
    · rw [List.filter_cons, List.filter_cons, ih]
    · rw [List.filter_cons, if_neg (by simp [ht])]

theorem sorted_enqueue {t : Timer κ} {l : List (Timer κ)}
    (h : l.Pairwise fun t u ↦ t.due ≤ u.due) :
    (enqueue t l).Pairwise fun t u ↦ t.due ≤ u.due := by
  induction l with
  | nil => simp [enqueue]
  | cons v rest ih =>
    rw [List.pairwise_cons] at h
    rw [enqueue]
    split
    · rename_i hle
      refine List.pairwise_cons.2 ⟨fun u hu ↦ ?_, ih h.2⟩
      rcases mem_enqueue.1 hu with rfl | hu
      · exact hle
      · exact h.1 u hu
    · rename_i hlt
      have hlt : t.due ≤ v.due := UInt64.le_of_lt (UInt64.not_le.1 hlt)
      refine List.pairwise_cons.2 ⟨fun u hu ↦ ?_, List.pairwise_cons.2 h⟩
      rcases List.mem_cons.1 hu with rfl | hu
      · exact hlt
      · exact UInt64.le_trans hlt (h.1 u hu)

theorem distinct_enqueue {t : Timer κ} {l : List (Timer κ)} (ht : ∀ u ∈ l, u.id ≠ t.id)
    (h : l.Pairwise fun t u ↦ t.id ≠ u.id) : (enqueue t l).Pairwise fun t u ↦ t.id ≠ u.id := by
  induction l with
  | nil => simp [enqueue]
  | cons v rest ih =>
    rw [List.pairwise_cons] at h
    rw [enqueue]
    split
    · refine List.pairwise_cons.2 ⟨fun u hu ↦ ?_, ih (fun u hu ↦ ht u (by simp [hu])) h.2⟩
      rcases mem_enqueue.1 hu with rfl | hu
      · exact ht v (by simp)
      · exact h.1 u hu
    · exact List.pairwise_cons.2 ⟨fun u hu ↦ (ht u hu).symm, List.pairwise_cons.2 h⟩

theorem Orderly.schedule {c : Clock κ} (h : c.Orderly) (delay : UInt64) (task : κ) :
    (c.schedule delay task).2.Orderly where
  sorted := sorted_enqueue h.sorted
  distinct := distinct_enqueue (fun u hu ↦ Nat.ne_of_lt (h.used u hu)) h.distinct
  used := by
    intro t ht
    rcases mem_enqueue.1 ht with rfl | ht
    · exact Nat.lt_succ_self _
    · exact Nat.lt_succ_of_lt (h.used t ht)
  ahead := by
    intro t ht
    rcases mem_enqueue.1 ht with rfl | ht
    · exact le_addUpTo c.now delay
    · exact h.ahead t ht

theorem Orderly.cancel {c : Clock κ} (h : c.Orderly) (id : Nat) : (c.cancel id).Orderly where
  sorted := h.sorted.filter _
  distinct := h.distinct.filter _
  used := fun t ht ↦ h.used t (List.mem_of_mem_filter ht)
  ahead := fun t ht ↦ h.ahead t (List.mem_of_mem_filter ht)

/-- The next timer due is the first of the queue, and the others go on waiting. -/
theorem queue_takeDue? {c c' : Clock κ} {target : UInt64} {t : Timer κ}
    (h : c.takeDue? target = some (t, c')) :
    c.queue = t :: c'.queue ∧ c'.nextId = c.nextId ∧ c'.now = t.due ∧ t.due ≤ target := by
  unfold takeDue? at h
  split at h
  · cases h
  · rename_i u rest hq
    split at h
    · rename_i hle
      cases h
      exact ⟨hq, rfl, rfl, hle⟩
    · cases h

theorem Orderly.takeDue? {c c' : Clock κ} (h : c.Orderly) {target : UInt64} {t : Timer κ}
    (ht : c.takeDue? target = some (t, c')) : c'.Orderly := by
  obtain ⟨hqueue, hnext, hnow, -⟩ := queue_takeDue? ht
  have hs := h.sorted
  have hd := h.distinct
  rw [hqueue, List.pairwise_cons] at hs hd
  refine ⟨hs.2, hd.2, fun u hu ↦ ?_, fun u hu ↦ ?_⟩
  · rw [hnext]
    exact h.used u (hqueue ▸ List.mem_cons_of_mem _ hu)
  · rw [hnow]
    exact hs.1 u hu

/-- The clock is moved to the next timer due, not back and not beyond where it is moved. -/
theorem Orderly.now_le_takeDue? {c c' : Clock κ} (h : c.Orderly) {target : UInt64} {t : Timer κ}
    (ht : c.takeDue? target = some (t, c')) : c.now ≤ c'.now ∧ c'.now ≤ target := by
  obtain ⟨hqueue, -, hnow, hle⟩ := queue_takeDue? ht
  rw [hnow]
  exact ⟨h.ahead t (hqueue ▸ List.mem_cons_self), hle⟩

/-- A timer is known by its number. -/
theorem Orderly.eq_of_id {c : Clock κ} (h : c.Orderly) {t u : Timer κ} (ht : t ∈ c.queue)
    (hu : u ∈ c.queue) (hid : t.id = u.id) : t = u := by
  have hsymm : Std.Symm fun t u : Timer κ ↦ t.id ≠ u.id := ⟨fun _ _ ↦ Ne.symm⟩
  by_contra hne
  exact h.distinct.forall ht hu hne hid

/-- If no timer is due by a time, all are due after it. -/
theorem Orderly.lt_due {c : Clock κ} (h : c.Orderly) {target : UInt64}
    (hdue : c.takeDue? target = none) {t : Timer κ} (ht : t ∈ c.queue) : target < t.due := by
  unfold Clock.takeDue? at hdue
  split at hdue
  · rename_i hq
    rw [hq] at ht
    cases ht
  · rename_i u rest hq
    split at hdue
    · cases hdue
    · rename_i hlt
      have hs := h.sorted
      rw [hq, List.pairwise_cons] at hs
      rw [hq] at ht
      have hfirst : target < u.due := UInt64.not_le.1 hlt
      rcases List.mem_cons.1 ht with rfl | ht
      · exact hfirst
      · exact UInt64.lt_of_lt_of_le hfirst (hs.1 t ht)

/-- The clock can be moved to a time by which no timer is due. -/
theorem Orderly.moveTo {c : Clock κ} (h : c.Orderly) {target : UInt64}
    (hdue : c.takeDue? target = none) : (c.moveTo target).Orderly where
  sorted := h.sorted
  distinct := h.distinct
  used := h.used
  ahead := fun _ ht ↦ UInt64.le_of_lt (h.lt_due hdue ht)

/-- Dropping several timers leaves the others as they are. -/
theorem foldl_cancel (ids : List Nat) (c : Clock κ) :
    ids.foldl cancel c = { c with queue := c.queue.filter fun t ↦ !ids.contains t.id } := by
  induction ids generalizing c with
  | nil => simp
  | cons id rest ih =>
    rw [List.foldl_cons, ih, cancel, List.filter_filter]
    refine congrArg (Clock.mk c.now c.nextId) (List.filter_congr fun t _ ↦ ?_)
    rw [List.contains_cons, Bool.not_or, Bool.and_comm]
    rfl

end Clock

end Engine

end LiveTemplate
