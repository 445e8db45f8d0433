import LiveTemplate.Engine.Completion
import LiveTemplate.Proofs.Step

/-!
# Work that is completed is a run

To complete a piece of work is to take its turns one after the other, so all that holds of every run
holds of it (`run_complete`, `run_wait`). To complete updates is to take their turns, and in between
to do other work that changes no values (`GoesOn`); if they fail, they do so at a moment that their
turns lead to (`exists_of_apply_eq_error`).
-/

namespace LiveTemplate.Engine

variable {η : Type}

/-- One completion after another. -/
def Completion.append (done more : Completion η) : Completion η :=
  ⟨more.world, done.calls ++ more.calls, done.outcome.bind fun _ ↦ more.outcome⟩

theorem Completion.append_assoc (a b c : Completion η) :
    (a.append b).append c = a.append (b.append c) := by
  obtain ⟨w, calls, outcome⟩ := a
  cases outcome <;> simp [append, Except.bind]

namespace World

variable {w w' : World η} {x : Work η} {xs : List (Work η)}

/-! ### Unfolding -/

theorem completeAll_nil (w : World η) : w.completeAll [] = ⟨w, [], .ok ()⟩ := rfl

theorem foldl_complete (done : Completion η) (xs : List (Work η)) :
    xs.foldl (fun done y ↦ done.append (done.world.complete y)) done =
      done.append (done.world.completeAll xs) := by
  induction xs generalizing done with
  | nil =>
    obtain ⟨w, calls, outcome⟩ := done
    cases outcome <;> simp [completeAll_nil, Completion.append, Except.bind]
  | cons x xs ih =>
    have hall : done.world.completeAll (x :: xs) =
        (done.world.complete x).append ((done.world.complete x).world.completeAll xs) :=
      ih (done.world.complete x)
    rw [List.foldl_cons, ih, hall, Completion.append_assoc]
    rfl

theorem completeAll_cons (w : World η) (x : Work η) (xs : List (Work η)) :
    w.completeAll (x :: xs) = (w.complete x).append ((w.complete x).world.completeAll xs) :=
  foldl_complete (w.complete x) xs

theorem completeAll_append (w : World η) (xs ys : List (Work η)) :
    w.completeAll (xs ++ ys) =
      (w.completeAll xs).append ((w.completeAll xs).world.completeAll ys) := by
  show (xs ++ ys).foldl _ _ = _
  rw [List.foldl_append]
  exact foldl_complete (w.completeAll xs) ys

/-- **To complete a piece of work** is to take a turn of it, and to complete what the turn leaves. -/
theorem complete_eq (w : World η) (hx : x.level < 4) :
    w.complete x =
      (⟨(w.turn x).world, (w.turn x).call.toList, (w.turn x).outcome.getD (.ok ())⟩ :
        Completion η).append ((w.turn x).world.completeAll (w.turn x).next) := by
  rw [complete, dif_pos hx]
  have hfold := foldl_complete
    (⟨(w.turn x).world, (w.turn x).call.toList, (w.turn x).outcome.getD (.ok ())⟩ : Completion η)
    (w.turn x).next
  rw [← List.foldl_attach] at hfold
  exact hfold

/-- What every piece of work does to a world, several pieces do. -/
theorem rel_completeAll {R : World η → World η → Prop} (hrefl : ∀ w, R w w)
    (htrans : ∀ {w w' w''}, R w w' → R w' w'' → R w w'')
    (hxs : ∀ x ∈ xs, ∀ w, R w (w.complete x).world) (w : World η) :
    R w (w.completeAll xs).world := by
  induction xs generalizing w with
  | nil => exact hrefl w
  | cons x xs ih =>
    rw [completeAll_cons]
    exact htrans (hxs x List.mem_cons_self w) (ih (fun y hy ↦ hxs y (List.mem_cons_of_mem _ hy)) _)

theorem level_lt_of_mem_turn (hx : x.level < 4) {n : Nat} (hn : x.level < n) {y : Work η}
    (hy : y ∈ (w.turn x).next) : y.level < n := by
  have hbelow := below_of_mem_turn hx hy
  unfold Work.Below at hbelow
  omega

/-- What every turn does to a world, completed work does. -/
theorem rel_complete {R : World η → World η → Prop} (hrefl : ∀ w, R w w)
    (htrans : ∀ {w w' w''}, R w w' → R w' w'' → R w w'') {n : Nat} (hn : n ≤ 4)
    (hturn : ∀ w x, Work.level x < n → R w (w.turn x).world) (w : World η) (x : Work η)
    (hx : x.level < n) : R w (w.complete x).world := by
  induction w, x using complete.induct with
  | case1 w x hx' t ih =>
    rw [complete_eq w hx']
    refine htrans (hturn w x hx) (rel_completeAll hrefl htrans (fun y hy w' ↦ ?_) _)
    exact ih ⟨w', [], .ok ()⟩ ⟨y, hy⟩ (level_lt_of_mem_turn hx' hx hy)
  | case2 w x hx' => omega

/-- **Only updates change values**, so to complete other work changes none. -/
theorem values_complete (w : World η) (hx : x.level < 3) :
    (w.complete x).world.values = w.values :=
  rel_complete (R := fun w w' ↦ w'.values = w.values) (fun _ ↦ rfl) (fun h h' ↦ h'.trans h)
    (by decide) (fun w x hx ↦ values_turn w fun us locals heq ↦ by
      rw [heq] at hx
      exact absurd hx (Nat.lt_irrefl 3)) w x hx

/-- Only updates have an outcome. -/
theorem outcome_turn (w : World η) (hx : ∀ us locals, x ≠ .perform us locals) :
    (w.turn x).outcome = none := by
  have hworked := worked_turn w hx
  generalize w.turn x = t at *
  cases hworked <;> rfl

theorem outcome_completeAll (hxs : ∀ x ∈ xs, ∀ w : World η, (w.complete x).outcome = .ok ())
    (w : World η) : (w.completeAll xs).outcome = .ok () := by
  induction xs generalizing w with
  | nil => rfl
  | cons x xs ih =>
    rw [completeAll_cons, Completion.append, hxs x List.mem_cons_self w]
    exact ih (fun y hy ↦ hxs y (List.mem_cons_of_mem _ hy)) _

theorem outcome_complete (w : World η) (hx : x.level < 3) : (w.complete x).outcome = .ok () := by
  induction w, x using complete.induct with
  | case1 w x hx' t ih =>
    have hnone : (w.turn x).outcome = none := outcome_turn w fun us locals heq ↦ by
      rw [heq] at hx
      exact absurd hx (Nat.lt_irrefl 3)
    rw [complete_eq w hx', Completion.append, hnone]
    refine outcome_completeAll (fun y hy w' ↦ ?_) _
    exact ih ⟨w', [], .ok ()⟩ ⟨y, hy⟩ (level_lt_of_mem_turn hx' hx hy)
  | case2 w x hx' => omega

/-! ### The clock -/

theorem pending_letGo (w : World η) (s : SignalId) :
    (w.letGo s).clock.pending ≤ w.clock.pending := by
  unfold letGo
  split
  · exact Nat.le_refl _
  · rename_i sig hsig
    split
    · rw [dispose_eq hsig, clock_without]
      exact List.length_filter_le _ _
    · exact Nat.le_refl _

theorem pending_turn (w : World η) (hx : x.level = 0) :
    (w.turn x).world.clock.pending ≤ w.clock.pending := by
  have hne : ∀ us locals, x ≠ .perform us locals := by
    rintro us locals rfl
    cases hx
  have hworked := worked_turn w hne
  generalize w.turn x = t at *
  cases hworked with
  | told => exact Nat.le_refl _
  | letGo s => exact pending_letGo w s
  | _ => cases hx

theorem clock_setTerm (w : World η) (s : SignalId) (place : Nat) (f : LiveTerm → LiveTerm) :
    (w.setTerm s place f).1.clock = w.clock := by
  unfold setTerm
  split
  · rfl
  · dsimp only
    split <;> rfl

/-- To tell that signals turned sets no timer. -/
theorem pending_completeAll (hxs : ∀ x ∈ xs, Work.level x = 0) (w : World η) :
    (w.completeAll xs).world.clock.pending ≤ w.clock.pending := by
  have hrel := fun (w : World η) (x : Work η) (hx : x.level < 1) ↦
    rel_complete (R := fun w w' ↦ w'.clock.pending ≤ w.clock.pending) (fun _ ↦ Nat.le_refl _)
      (fun h h' ↦ Nat.le_trans h' h) (by decide)
      (fun w x hx ↦ pending_turn w (Nat.lt_one_iff.1 hx)) w x hx
  exact rel_completeAll (R := fun w w' ↦ w'.clock.pending ≤ w.clock.pending)
    (fun _ ↦ Nat.le_refl _) (fun h h' ↦ Nat.le_trans h' h)
    (fun x hx w ↦ hrel w x (Nat.lt_one_iff.2 (hxs x hx))) w

end World

/-! ### Runs -/

namespace Activity

open World

variable (may : Activity η → Deed η → Prop)

theorem run_completeAll {xs : List (Work η)}
    (hxs : ∀ x ∈ xs, ∀ w stack, ∃ es, Run may ⟨w, x :: stack⟩ es ⟨(w.complete x).world, stack⟩)
    (w : World η) (stack : List (Work η)) :
    ∃ es, Run may ⟨w, xs ++ stack⟩ es ⟨(w.completeAll xs).world, stack⟩ := by
  induction xs generalizing w with
  | nil => exact ⟨[], .refl _⟩
  | cons x xs ih =>
    obtain ⟨es, hrun⟩ := hxs x List.mem_cons_self w (xs ++ stack)
    obtain ⟨es', hrun'⟩ := ih (fun y hy ↦ hxs y (List.mem_cons_of_mem _ hy)) (w.complete x).world
    rw [completeAll_cons]
    exact ⟨es ++ es', hrun.trans hrun'⟩

/-- **To complete a piece of work is a run** that leaves the work behind it as it is. -/
theorem run_complete (w : World η) {x : Work η} (hx : x.level < 4) (stack : List (Work η)) :
    ∃ es, Run may ⟨w, x :: stack⟩ es ⟨(w.complete x).world, stack⟩ := by
  induction w, x using complete.induct generalizing stack with
  | case1 w x hx' t ih =>
    have hrest : ∀ y ∈ (w.turn x).next, ∀ w' stack,
        ∃ es, Run may ⟨w', y :: stack⟩ es ⟨(w'.complete y).world, stack⟩ := fun y hy w' stack ↦
      ih ⟨w', [], .ok ()⟩ ⟨y, hy⟩ (level_lt_of_mem_turn hx' hx hy) stack
    obtain ⟨es, hrun⟩ := run_completeAll may hrest (w.turn x).world stack
    rw [complete_eq w hx']
    exact ⟨_, (Run.single (.turn w x stack)).trans hrun⟩
  | case2 w x hx' => exact absurd hx hx'

/-- The clock arrives. -/
theorem run_arrive {w : World η} {target : UInt64} (hdue : w.clock.takeDue? target = none)
    (stack : List (Work η)) :
    Run may ⟨w, .advance target :: stack⟩ (w.atTurn (.advance target))
      ⟨{ w with clock := w.clock.moveTo target }, stack⟩ := by
  have hrun : Run may ⟨w, .advance target :: stack⟩ _ _ := .single (.turn w _ stack)
  have hturn : w.turn (.advance target) = .goOn { w with clock := w.clock.moveTo target } [] := by
    simp only [turn, hdue]
  rw [hturn] at hrun
  exact hrun

/-- **To pass timers is a run**, if no fewer are passed than wait. -/
theorem run_pass (n : Nat) (w : World η) (hn : w.clock.pending ≤ n) (target : UInt64)
    (stack : List (Work η)) :
    ∃ es, Run may ⟨w, .advance target :: stack⟩ es ⟨(pass n w target).world, stack⟩ := by
  induction n generalizing w with
  | zero =>
    have hdue : w.clock.takeDue? target = none := by
      rw [Clock.takeDue?, List.length_eq_zero_iff.1 (Nat.le_zero.1 hn)]
    exact ⟨_, run_arrive may hdue stack⟩
  | succ n ih =>
    cases hdue : w.clock.takeDue? target with
    | none =>
      simp only [World.pass, hdue]
      exact ⟨_, run_arrive may hdue stack⟩
    | some due =>
      obtain ⟨timer, clock⟩ := due
      have hpending : clock.pending ≤ n := by
        have hqueue := congrArg List.length (Clock.queue_takeDue? hdue).1
        unfold Clock.pending at hn ⊢
        rw [hqueue, List.length_cons] at hn
        omega
      have hrun : Run may ⟨w, .advance target :: stack⟩ _ _ := .single (.turn w _ stack)
      simp only [turn, hdue] at hrun
      simp only [World.pass, hdue]
      cases htask : timer.task with
      | handler h =>
        simp only [htask] at hrun
        obtain ⟨es, hrest⟩ := ih { w with clock } hpending
        exact ⟨_, hrun.trans hrest⟩
      | expire s place =>
        simp only [htask, Turn.goOn, List.append_assoc] at hrun
        dsimp only
        have hclock : (({ w with clock } : World η).expire s place).1.clock = clock :=
          clock_setTerm _ _ _ _
        have hlevel : ∀ x ∈ (({ w with clock } : World η).expire s place).2, Work.level x = 0 :=
          fun x hx ↦ level_of_mem_setTerm hx
        generalize ({ w with clock } : World η).expire s place = expired at *
        obtain ⟨w', works⟩ := expired
        obtain ⟨es, hworks⟩ := run_completeAll may
          (fun x hx w stack ↦ run_complete may w (by rw [hlevel x hx]; decide) stack) w'
          (.advance target :: stack)
        have hle := pending_completeAll hlevel w'
        rw [hclock] at hle
        obtain ⟨es', hrest⟩ := ih (w'.completeAll works).world (Nat.le_trans hle hpending)
        exact ⟨_, (hrun.trans hworks).trans hrest⟩

theorem run_wait (w : World η) (ms : UInt64) (stack : List (Work η))
    (hmay : may ⟨w, stack⟩ (.advance ms)) :
    ∃ es, Run may ⟨w, stack⟩ es ⟨(w.wait ms).world, stack⟩ := by
  have hdeed := (Run.refl ⟨w, stack⟩).deed (.advance ms) trivial hmay
  obtain ⟨es, hrun⟩ := run_pass may w.clock.pending w (Nat.le_refl _)
    (addUpTo w.clock.now ms) stack
  exact ⟨_, hdeed.trans hrun⟩

theorem run_apply (w : World η) (us : List (Update CellId)) (locals : ValueMap)
    (stack : List (Work η)) (hmay : may ⟨w, stack⟩ (.perform us locals)) :
    ∃ es, Run may ⟨w, stack⟩ es ⟨(w.apply us locals).world, stack⟩ := by
  have hdeed := (Run.refl ⟨w, stack⟩).deed (.perform us locals) trivial hmay
  obtain ⟨es, hrun⟩ := run_complete may w (x := .perform us locals)
    (Nat.lt_succ_self 3) stack
  exact ⟨_, hdeed.trans hrun⟩

end Activity

/-! ### Updates -/

namespace World

open Activity

variable {w w' : World η} {xs : List (Work η)}

/-- Updates lead to others by their turns and what those leave to be done. -/
def Leads (w : World η) (us : List (Update CellId)) (locals : ValueMap) (w' : World η)
    (us' : List (Update CellId)) : Prop :=
  ∀ may stack, ∃ es,
    Run may ⟨w, .perform us locals :: stack⟩ es ⟨w', .perform us' locals :: stack⟩

theorem Leads.refl (w : World η) (us : List (Update CellId)) (locals : ValueMap) :
    Leads w us locals w us := fun _ _ ↦ ⟨[], .refl _⟩

theorem Leads.trans {w'' : World η} {us us' us'' : List (Update CellId)} {locals : ValueMap}
    (h : Leads w us locals w' us') (h' : Leads w' us' locals w'' us'') :
    Leads w us locals w'' us'' := fun may stack ↦ by
  obtain ⟨es, hrun⟩ := h may stack
  obtain ⟨es', hrun'⟩ := h' may stack
  exact ⟨es ++ es', hrun.trans hrun'⟩

theorem Leads.orderly {us us' : List (Update CellId)} {locals : ValueMap}
    (h : Leads w us locals w' us') (ho : w.Orderly) : w'.Orderly := by
  obtain ⟨es, hrun⟩ := h anything []
  exact hrun.orderly ho

/-- To move the clock leaves no updates to be run. -/
theorem not_performs_of_advance {target : UInt64} {us : List (Update CellId)}
    {locals : ValueMap} : .perform us locals ∉ (w.turn (.advance target)).next := by
  intro h
  have hworked := worked_turn w (x := .advance target) nofun
  generalize w.turn (.advance target) = t at *
  cases hworked with
  | told _ hnext => cases hnext _ h
  | arrived => cases h
  | rung => cases List.mem_singleton.1 h
  | expired =>
    rcases List.mem_append.1 h with h | h
    · exact absurd (level_of_mem_setTerm h) (by simp [Work.level])
    · cases List.mem_singleton.1 h

/-- **Only updates leave updates to be run**, and those are parts of them. -/
theorem performs_of_turn {us : List (Update CellId)} {locals : ValueMap}
    (h : .perform us locals ∈ (w.turn x).next) :
    ∃ us', x = .perform us' locals ∧ Within us us' := by
  by_cases hx : x.level < 3
  · exact absurd (level_lt_of_mem_turn (Nat.lt_succ_of_lt hx) hx h) (Nat.lt_irrefl 3)
  cases x with
  | advance target => exact absurd h not_performs_of_advance
  | perform us' locals' =>
    have hperformed := w.performed_perform us' locals'
    rw [turn] at h
    generalize w.perform us' locals' = t at *
    cases hperformed with
    | done => cases h
    | failed => cases h
    | on _ hwithin =>
      cases List.mem_singleton.1 h
      exact ⟨us', rfl, hwithin⟩
    | put _ _ _ hwithin =>
      rcases List.mem_cons.1 h with h | h
      · cases h
      · cases List.mem_singleton.1 h
        exact ⟨us', rfl, hwithin⟩
  | _ => simp [Work.level] at hx

theorem performs_of_after {d : Deed η} {us : List (Update CellId)}
    {locals : ValueMap} (h : .perform us locals ∈ (w.after d).2) : d = .perform us locals := by
  cases d with
  | write c p => exact absurd (level_of_mem_write h) (by simp [Work.level])
  | perform us' locals' =>
    cases List.mem_singleton.1 h
    rfl
  | advance ms => cases List.mem_singleton.1 h
  | addGlobal key c =>
    simp only [after] at h
    split at h <;> cases h
  | publish =>
    simp only [after, publish] at h
    split at h
    · cases h
    · cases List.mem_singleton.1 h
  | await _ =>
    simp only [after, onPublish] at h
    split at h
    · cases List.mem_singleton.1 h
    · cases h
  | report p => cases List.mem_singleton.1 h
  | _ => cases h

theorem apply_of_ending {us : List (Update CellId)} {locals : ValueMap}
    {outcome : Except Problem Unit} (h : w.perform us locals = .ending w' outcome) :
    w.apply us locals = ⟨w', [], outcome⟩ := by
  have hlevel : (Work.perform us locals : Work η).level < 4 := Nat.lt_succ_self 3
  rw [apply, complete_eq w hlevel, turn, h]
  cases outcome <;> rfl

/-- Updates go on to others, after some work that changes no values. -/
structure GoesOn (w : World η) (us : List (Update CellId)) (locals : ValueMap) (w' : World η)
    (xs : List (Work η)) (us' : List (Update CellId)) : Prop where
  turn : w.perform us locals = .goOn w' (xs ++ [.perform us' locals])
  level : ∀ x ∈ xs, Work.level x < 3

section GoesOn

variable {us us' : List (Update CellId)} {locals : ValueMap} (h : GoesOn w us locals w' xs us')
include h

/-- **To complete updates** is to do that work, and to complete the others. -/
theorem GoesOn.apply_eq :
    w.apply us locals =
      (w'.completeAll xs).append ((w'.completeAll xs).world.apply us' locals) := by
  have hlevel : (Work.perform us locals : Work η).level < 4 := Nat.lt_succ_self 3
  rw [apply, complete_eq w hlevel, World.turn, h.turn, Turn.goOn, completeAll_append]
  rfl

theorem GoesOn.outcome_eq :
    (w.apply us locals).outcome = ((w'.completeAll xs).world.apply us' locals).outcome := by
  have hok := outcome_completeAll (fun x hx w ↦ outcome_complete w (h.level x hx)) w'
  rw [h.apply_eq, Completion.append, hok]
  rfl

theorem GoesOn.values : (w'.completeAll xs).world.values = w'.values :=
  rel_completeAll (R := fun w w' ↦ w'.values = w.values) (fun _ ↦ rfl) (fun h h' ↦ h'.trans h)
    (fun x hx w ↦ values_complete w (h.level x hx)) w'

theorem GoesOn.leads : Leads w us locals (w'.completeAll xs).world us' := fun may stack ↦ by
  have hturn : Run may ⟨w, .perform us locals :: stack⟩ _ _ := .single (.turn w _ stack)
  rw [World.turn, h.turn, Turn.goOn, List.append_assoc] at hturn
  obtain ⟨es, hrun⟩ := run_completeAll may
    (fun x hx w stack ↦ run_complete may w (Nat.lt_succ_of_lt (h.level x hx)) stack) w'
    (.perform us' locals :: stack)
  exact ⟨_, hturn.trans hrun⟩

theorem GoesOn.mem_next : .perform us' locals ∈ (w.perform us locals).next := by
  rw [h.turn]
  exact List.mem_append_right _ (List.mem_singleton_self _)

/-- The others weigh less. -/
theorem GoesOn.weightAll_lt : Update.weightAll us' < Update.weightAll us := by
  rcases below_of_mem_perform h.mem_next with hlevel | ⟨-, hsize⟩
  · exact absurd hlevel (Nat.lt_irrefl 3)
  · exact hsize

theorem GoesOn.within : Within us' us := by
  obtain ⟨us'', heq, hwithin⟩ := performs_of_turn (x := .perform us locals) h.mem_next
  cases heq
  exact hwithin

end GoesOn

/-- **Updates that fail do so at a moment of theirs.** -/
theorem exists_of_apply_eq_error {us : List (Update CellId)} {locals : ValueMap}
    {p : Problem} (h : (w.apply us locals).outcome = .error p) :
    ∃ w' us', Leads w us locals w' us' ∧ Within us' us ∧ Failure w' locals us' p := by
  induction hn : Update.weightAll us using Nat.strongRecOn generalizing w us with
  | ind n ih =>
    subst hn
    have hgoes : ∀ {w' xs us'}, GoesOn w us locals w' xs us' →
        ∃ w' us', Leads w us locals w' us' ∧ Within us' us ∧ Failure w' locals us' p := by
      intro w' xs us' hgoes
      obtain ⟨w'', us'', hleads, hwithin, hp⟩ :=
        ih _ hgoes.weightAll_lt (hgoes.outcome_eq.symm.trans h) rfl
      exact ⟨w'', us'', hgoes.leads.trans hleads, hwithin.trans hgoes.within, hp⟩
    have hperformed := w.performed_perform us locals
    generalize ht : w.perform us locals = t at *
    cases hperformed with
    | done =>
      rw [apply_of_ending ht] at h
      cases h
    | failed _ hp =>
      rw [apply_of_ending ht] at h
      cases h
      exact ⟨w, us, .refl _ _ _, ⟨List.Subset.refl _, List.Subset.refl _⟩, hp⟩
    | on =>
      have hon : GoesOn w us locals _ [] _ := ⟨ht, fun _ hx ↦ absurd hx List.not_mem_nil⟩
      exact hgoes hon
    | put =>
      rename_i c q us' r _ _ _ _
      have hput : GoesOn w us locals _ [.tellCell c none (w.observers c)] _ :=
        ⟨ht, fun x hx ↦ List.mem_singleton.1 hx ▸ Nat.lt_succ_self 2⟩
      exact hgoes hput

end World

end LiveTemplate.Engine
