import LiveTemplate.Proofs.Acting
import LiveTemplate.Proofs.Repetition
import LiveTemplate.Proofs.Undisturbed

/-!
# Signals that are held

Each piece of work that is to let go of a signal has held it before. So a signal that someone else
holds besides lives until he lets go of it (`Run.held`).
-/

namespace LiveTemplate.Engine

variable {η : Type}

namespace World

variable {w w' : World η} {s : SignalId}

/-- **No deed but letting go leaves a signal with fewer holders**, or to be let go of. -/
theorem holders_after (ho : w.Orderly) {d : Deed η} (hd : d ≠ .letGo s) :
    w.holders s + (w.after d).2.countP (Work.letsGo s) ≤ (w.after d).1.holders s := by
  cases haloof : d.aloof with
  | true => exact Nat.le_of_eq ((undisturbed_after ho haloof).holders s).symm
  | false =>
    cases d with
    | observe c role => exact Nat.le_refl _
    | cancel sub =>
      cases sub with
      | ofCell c ticket => exact Nat.le_refl _
      | _ => cases haloof
    | openSignal f =>
      show w.holders s + 0 ≤ (w.openSignal f).2.holders s
      rw [holders_openSignal ho]
      exact Nat.add_le_add_left (Nat.zero_le _) _
    | hold s' =>
      show w.holders s + 0 ≤ (w.hold s').holders s
      rw [holders_hold]
      exact Nat.add_le_add_left (Nat.zero_le _) _
    | letGo s' =>
      have hne : s ≠ s' := fun heq ↦ hd (congrArg Deed.letGo heq.symm)
      show w.holders s + 0 ≤ (w.letGo s').holders s
      rw [holders_letGo, if_neg hne]
      exact Nat.le_refl _
    | _ => cases haloof

end World

namespace Activity

open World

variable {may : Activity η → Deed η → Prop} {a b : Activity η} {es : List Happening} {s : SignalId}

/-- More hold a signal than work that is to let go of it. -/
def Held (s : SignalId) (a : Activity η) : Prop :=
  a.stack.countP (Work.letsGo s) < a.world.holders s

theorem Held.lives (h : Held s a) : a.world.Lives s :=
  lives_of_holders (Nat.lt_of_le_of_lt (Nat.zero_le _) h)

theorem held_turn {w : World η} (ho : w.Orderly) {x : Work η} {stack : List (Work η)}
    (h : Held s ⟨w, x :: stack⟩) : Held s ⟨(w.turn x).world, (w.turn x).next ++ stack⟩ := by
  unfold Held at h ⊢
  rw [← List.singleton_append, List.countP_append] at h
  rw [List.countP_append]
  by_cases hx : ∃ s', x = .letGo s'
  · obtain ⟨s', rfl⟩ := hx
    have hworld : (w.turn (.letGo s')).world.holders s = (w.letGo s').holders s := rfl
    have hnext : (w.turn (.letGo s')).next.countP (Work.letsGo s) = 0 := rfl
    rw [countP_letGo] at h
    rw [hworld, hnext, holders_letGo]
    dsimp only at h ⊢
    omega
  · have hholders := (undisturbed_turn ho fun s' heq ↦ hx ⟨s', heq⟩).holders s
    dsimp only at h ⊢
    omega

/-- **A signal that is held lives on**, as long as nobody lets go of it from outside. -/
theorem Run.held (hmay : ∀ a, ¬may a (.letGo s)) (h : Run may a es b) (ho : a.world.Orderly)
    (ha : Held s a) : Held s b := by
  induction h with
  | refl => exact ha
  | tail run step ih =>
    cases step with
    | turn w x stack => exact held_turn (run.orderly ho) ih
    | deed w d stack hpermits hd =>
      have hle := holders_after (s := s) (run.orderly ho) (d := d) (by
        rintro rfl
        exact hmay _ hd)
      unfold Held at ih ⊢
      rw [List.countP_append]
      dsimp only at ih hle ⊢
      omega

end Activity

end LiveTemplate.Engine
