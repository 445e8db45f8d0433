import LiveTemplate.Proofs.Step

/-!
# What leaves observers alone

Work of any sort but letting go, and any deed that is not to observe or to stop observing, leaves
the observers of every cell as they are; and it holds a signal once more for each piece of work it
leaves that is to let go of it (`Undisturbed`). To evaluate a predicate comes to this too: what is
set up for it is taken away again.

What is left is to observe a cell or to stop, to open a signal, and to hold it or to let go of it;
of the last three is said here who holds a signal afterwards (`holders_openSignal`,
`undisturbed_hold`, `holders_letGo`).
-/

namespace LiveTemplate.Engine

variable {η : Type}

/-- Whether a piece of work is to let go of a signal. -/
def Work.letsGo (s : SignalId) : Work η → Bool
  | letGo s' => s' == s
  | _ => false

theorem not_letsGo_of_notifies {s : SignalId} {x : Work η} (h : x.notifies = true) :
    ¬x.letsGo s = true := by
  cases x with
  | letGo s' => cases h
  | _ => exact Bool.false_ne_true

theorem countP_letGo (s s' : SignalId) :
    [(Work.letGo s' : Work η)].countP (Work.letsGo s) = if s = s' then 1 else 0 := by
  by_cases h : s = s'
  · simp [Work.letsGo, h]
  · simp [Work.letsGo, h, Ne.symm h]

theorem Observer.serves_inj {s s' : SignalId} {o : Observer η} (h : o.serves s = true)
    (h' : o.serves s' = true) : s' = s := by
  obtain ⟨place, hrole⟩ := serves_iff.1 h
  obtain ⟨place', hrole'⟩ := serves_iff.1 h'
  rw [hrole] at hrole'
  cases hrole'
  rfl

namespace World

/-- How many hold a signal; nobody if it does not live. -/
def holders (w : World η) (s : SignalId) : Nat := ((w.signals.get? s).map Signal.holders).getD 0

/-- The observers of all cells stay, and each signal goes on living, held as often as before and
once more for each piece of work that is to let go of it. -/
structure Undisturbed (works : List (Work η)) (w w' : World η) : Prop where
  observers : ∀ c, w'.observers c = w.observers c
  tickets : w.nextTicket ≤ w'.nextTicket
  lives : ∀ s, w'.Lives s ↔ w.Lives s
  holders : ∀ s, w'.holders s = w.holders s + works.countP (Work.letsGo s)

variable {w w' w'' : World η} {s : SignalId} {xs ys : List (Work η)}

theorem holders_of_get? {sig : Signal η} (h : w.signals.get? s = some sig) :
    w.holders s = sig.holders := by
  rw [holders, h]
  rfl

theorem lives_of_holders (h : 0 < w.holders s) : w.Lives s := by
  rw [Lives]
  cases hsig : w.signals.get? s with
  | none =>
    rw [holders, hsig] at h
    exact absurd h (Nat.lt_irrefl 0)
  | some sig => rfl

/-! ### Putting changes together -/

theorem Undisturbed.of_signals (hobservers : ∀ c, w'.observers c = w.observers c)
    (hsignals : w'.signals = w.signals) (htickets : w.nextTicket ≤ w'.nextTicket)
    (hxs : ∀ s, xs.countP (Work.letsGo s) = 0) : Undisturbed xs w w' where
  observers := hobservers
  tickets := htickets
  lives := fun s ↦ by rw [Lives, Lives, hsignals]
  holders := fun s ↦ by rw [hxs, World.holders, World.holders, hsignals, Nat.add_zero]

theorem Undisturbed.refl (w : World η) : Undisturbed [] w w :=
  .of_signals (fun _ ↦ rfl) rfl (Nat.le_refl _) fun _ ↦ rfl

theorem Undisturbed.trans (h : Undisturbed xs w w') (h' : Undisturbed ys w' w'') :
    Undisturbed (xs ++ ys) w w'' where
  observers := fun c ↦ (h'.observers c).trans (h.observers c)
  tickets := Nat.le_trans h.tickets h'.tickets
  lives := fun s ↦ (h'.lives s).trans (h.lives s)
  holders := fun s ↦ by rw [h'.holders, h.holders, List.countP_append, Nat.add_assoc]

/-- Work besides that does not let go of a signal makes no difference. -/
theorem Undisturbed.append (h : Undisturbed xs w w') (ys : List (Work η))
    (hys : ∀ s, ys.countP (Work.letsGo s) = 0) :
    Undisturbed (xs ++ ys) w w' :=
  h.trans (.of_signals (fun _ ↦ rfl) rfl (Nat.le_refl _) hys)

/-- To change a signal, but not who holds it. -/
theorem undisturbed_modify (w : World η) (s : SignalId) (f : Signal η → Signal η)
    (hf : ∀ sig, w.signals.get? s = some sig → (f sig).holders = sig.holders) :
    Undisturbed [] w { w with signals := w.signals.modify s f } where
  observers := fun _ ↦ rfl
  tickets := Nat.le_refl _
  lives := lives_modify rfl
  holders := fun s' ↦ by
    show (((w.signals.modify s f).get? s').map Signal.holders).getD 0 = w.holders s'
    rw [Registry.get?_modify, holders]
    split
    · rename_i heq
      subst heq
      cases hsig : w.signals.get? s' with
      | none => rfl
      | some sig => exact hf sig hsig
    · rfl

/-- To hold a signal that lives gives it one holder more. -/
theorem holders_hold (w : World η) (s s' : SignalId) :
    (w.hold s').holders s = w.holders s + if s = s' ∧ w.Lives s then 1 else 0 := by
  show (((w.signals.modify s' _).get? s).map Signal.holders).getD 0 = _
  rw [Registry.get?_modify, holders]
  by_cases h : s = s'
  · subst h
    cases hsig : w.signals.get? s <;> simp [Lives, hsig]
  · simp [h]

theorem undisturbed_hold (hs : w.Lives s) : Undisturbed [.letGo s] w (w.hold s) where
  observers := fun _ ↦ rfl
  tickets := Nat.le_refl _
  lives := lives_modify (f := fun sig ↦ { sig with holders := sig.holders + 1 }) rfl
  holders := fun s' ↦ by
    rw [countP_letGo, holders_hold]
    by_cases h : s' = s
    · simp [h, hs]
    · simp [h]

/-! ### Looking and settling -/

theorem undisturbed_setTerm (w : World η) (s : SignalId) (place : Nat)
    (f : LiveTerm → LiveTerm) :
    Undisturbed (w.setTerm s place f).2 w (w.setTerm s place f).1 := by
  unfold setTerm
  split
  · exact .refl w
  · rename_i sig hsig
    have hchanged : Undisturbed [] w { w with signals := w.signals.modify s fun _ ↦
        { sig with circuit := sig.circuit.amend f place } } := by
      refine undisturbed_modify w s _ fun sig' hsig' ↦ ?_
      rw [hsig] at hsig'
      cases hsig'
      rfl
    have hlives := (hchanged.lives s).2 (Option.isSome_iff_exists.2 ⟨sig, hsig⟩)
    dsimp only
    split
    · exact hchanged
    · exact (hchanged.append [.tellSignal s _ _] fun _ ↦ rfl).trans (undisturbed_hold hlives)

theorem undisturbed_refresh (w : World η) (s : SignalId) (place : Nat) :
    Undisturbed (w.refresh s place).2 w (w.refresh s place).1 := by
  unfold refresh
  split
  · exact .refl w
  · rename_i live hlive
    obtain ⟨sig, hsig, -⟩ := term?_eq_some.1 hlive
    split
    · exact undisturbed_setTerm w s place _
    · dsimp only
      have hclock : Undisturbed [] w
          { w with clock := live.timer.toList.foldl Clock.cancel w.clock } :=
        .of_signals (fun _ ↦ rfl) rfl (Nat.le_refl _) fun _ ↦ rfl
      have hset := hclock.trans (undisturbed_setTerm
        { w with clock := live.timer.toList.foldl Clock.cancel w.clock } s place
        fun t ↦ { t with truth := true, timer := none })
      have hleft := hset.append [.settle s place] fun _ ↦ rfl
      split
      · have hlives := (hleft.lives s).2 (Option.isSome_iff_exists.2 ⟨sig, hsig⟩)
        have hheld := hleft.trans (undisturbed_hold hlives)
        rw [List.append_assoc] at hheld
        exact hheld
      · exact hleft

theorem undisturbed_settle (w : World η) (s : SignalId) (place : Nat) :
    Undisturbed (w.settle s place).2 w (w.settle s place).1 := by
  unfold settle
  split
  · split
    · exact undisturbed_setTerm w s place _
    · rename_i window _ _ _ _
      have hclock : Undisturbed [] w
          { w with clock := (w.clock.schedule window (.expire s place)).2 } :=
        .of_signals (fun _ ↦ rfl) rfl (Nat.le_refl _) fun _ ↦ rfl
      exact hclock.trans (undisturbed_setTerm _ s place _)
  · exact .refl w

/-! ### Signals that come and go -/

/-- A new signal is held once. -/
theorem holders_openSignal (ho : w.Orderly) (f : Formula (Term CellId)) (s : SignalId) :
    (w.openSignal f).2.holders s = w.holders s + if s = w.signals.next then 1 else 0 := by
  rw [holders, get?_openSignal]
  split
  · rename_i heq
    subst heq
    rw [if_pos rfl, holders, ho.signals.get?_next]
    rfl
  · rename_i hne
    rw [if_neg (Ne.symm hne)]
    rfl

theorem lives_openSignal (f : Formula (Term CellId)) (s : SignalId) :
    (w.openSignal f).2.Lives s ↔ w.Lives s ∨ s = w.signals.next := by
  rw [Lives, get?_openSignal]
  split
  · rename_i heq
    simp [heq]
  · rename_i hne
    simp [Lives, Ne.symm hne]

/-- To let go of a signal takes one holder away. -/
theorem holders_letGo (w : World η) (s s' : SignalId) :
    (w.letGo s').holders s = w.holders s - if s = s' then 1 else 0 := by
  unfold letGo
  split
  · rename_i hnone
    split
    · rename_i heq
      subst heq
      rw [holders, hnone]
      rfl
    · rfl
  · rename_i sig hsig
    split
    · rename_i hlast
      rw [dispose_eq hsig]
      show (((w.signals.remove s').get? s).map Signal.holders).getD 0 = _
      rw [Registry.get?_remove]
      split
      · rename_i heq
        subst heq
        rw [holders_of_get? hsig]
        exact (Nat.sub_eq_zero_of_le hlast).symm
      · rfl
    · show (((w.signals.modify s' _).get? s).map Signal.holders).getD 0 = _
      rw [Registry.get?_modify]
      split
      · rename_i heq
        subst heq
        rw [holders_of_get? hsig, hsig]
        rfl
      · rfl

/-- A signal that has another holder is not taken away. -/
theorem lives_letGo (w : World η) (s s' : SignalId) :
    (w.letGo s').Lives s ↔ w.Lives s ∧ (s = s' → 1 < w.holders s) := by
  unfold letGo
  split
  · rename_i hnone
    refine ⟨fun h ↦ ⟨h, fun heq ↦ ?_⟩, And.left⟩
    rw [heq, Lives, hnone] at h
    cases h
  · rename_i sig hsig
    split
    · rename_i hlast
      rw [dispose_eq hsig, Lives, Lives]
      show ((w.signals.remove s').get? s).isSome ↔ _
      rw [Registry.get?_remove]
      split
      · rename_i heq
        subst heq
        rw [holders_of_get? hsig]
        simp [Nat.not_lt.2 hlast]
      · rename_i hne
        simp [hne]
    · rename_i hmore
      rw [lives_modify (w := w) (f := fun sig ↦ { sig with holders := sig.holders - 1 }) rfl]
      refine ⟨fun h ↦ ⟨h, fun heq ↦ ?_⟩, And.left⟩
      subst heq
      rw [holders_of_get? hsig]
      exact Nat.lt_of_not_le hmore

/-- The next signal is new: no other has its number, and no observer looks for it. -/
structure Fresh (w : World η) : Prop where
  signals : w.signals.Tight
  looks : ∀ c, ∀ o ∈ w.observers c, ∀ s, o.serves s = true → s < w.signals.next

theorem Orderly.fresh (ho : w.Orderly) : w.Fresh where
  signals := ho.signals
  looks := fun c o hmem s hserves ↦ by
    obtain ⟨place, hrole⟩ := Observer.serves_iff.1 hserves
    exact ho.looks c o hmem s place hrole

/-- **What is set up for a signal is taken away with it.** -/
theorem observers_letGo_openSignal (hw : w.Fresh) (f : Formula (Term CellId)) (c : CellId) :
    ((w.openSignal f).2.letGo w.signals.next).observers c = w.observers c := by
  obtain ⟨added, heq, hserves, hplaces⟩ := w.observers_openSignal f c
  have hold : (w.observers c).filter (fun o ↦ !o.serves w.signals.next) = w.observers c := by
    refine List.filter_eq_self.2 fun o hmem ↦ ?_
    rw [Bool.not_eq_true', Bool.eq_false_iff]
    exact fun hserve ↦ absurd (hw.looks c o hmem _ hserve) (Nat.lt_irrefl _)
  have hnew : added.filter (fun o ↦ !o.serves w.signals.next) = [] :=
    List.filter_eq_nil_iff.2 fun o hmem ↦ by simp [hserves o hmem]
  rw [letGo_openSignal, observers_without, operands_newSignal, heq]
  split
  · rw [List.filter_append, hold, hnew, List.append_nil]
  · rename_i hread
    rw [reading_eq_nil_iff.2 hread, ite_self] at hplaces
    rw [filterMap_place?_eq_nil hserves hplaces, List.append_nil]

theorem get?_letGo_openSignal (hw : w.Fresh) (f : Formula (Term CellId)) (s : SignalId) :
    ((w.openSignal f).2.letGo w.signals.next).signals.get? s = w.signals.get? s := by
  rw [letGo_openSignal]
  show ((w.openSignal f).2.signals.remove w.signals.next).get? s = _
  rw [Registry.get?_remove]
  split
  · rename_i heq
    rw [heq, hw.signals.get?_next]
  · rename_i hne
    rw [get?_openSignal, if_neg (Ne.symm hne)]

theorem undisturbed_letGo_openSignal (ho : w.Orderly) (f : Formula (Term CellId)) :
    Undisturbed [] w ((w.openSignal f).2.letGo w.signals.next) where
  observers := observers_letGo_openSignal ho.fresh f
  tickets := (spares_letGo_openSignal ho.signals f).tickets
  lives := fun s ↦ by rw [Lives, Lives, get?_letGo_openSignal ho.fresh]
  holders := fun s ↦ by
    rw [holders, holders, get?_letGo_openSignal ho.fresh]
    rfl

/-- **To evaluate a predicate leaves all observers as they are.** -/
theorem undisturbed_evaluate (ho : w.Orderly) (locals : ValueMap) (p : Predicate CellId) :
    Undisturbed [] w (w.evaluate locals p).2 := by
  rw [evaluate, observePredicate]
  cases w.bind locals p with
  | error e => exact .refl w
  | ok f => exact undisturbed_letGo_openSignal ho f

theorem Evaluated.undisturbed {locals : ValueMap} (ho : w.Orderly) (h : Evaluated locals w w') :
    Undisturbed [] w w' := by
  induction h with
  | refl => exact .refl w
  | evaluate h p ih => exact ih.trans (undisturbed_evaluate (ho.spares (h.spares ho)) locals p)

/-! ### Turns and deeds -/

theorem undisturbed_perform (ho : w.Orderly) (us : List (Update CellId)) (locals : ValueMap) :
    Undisturbed (w.perform us locals).next w (w.perform us locals).world := by
  have hperformed := w.performed_perform us locals
  generalize w.perform us locals = t at *
  cases hperformed with
  | done => exact .refl w
  | failed h => exact h.undisturbed ho
  | @on w' us' h => exact (h.undisturbed ho).append _ fun _ ↦ rfl
  | @put c p us' =>
    exact .of_signals (observers_put w c p) rfl (Nat.le_refl _) fun _ ↦ rfl

/-- **Any work but letting go leaves observers alone.** -/
theorem undisturbed_turn (ho : w.Orderly) {x : Work η} (hx : ∀ s, x ≠ .letGo s) :
    Undisturbed (w.turn x).next w (w.turn x).world := by
  by_cases hperform : ∃ us locals, x = .perform us locals
  · obtain ⟨us, locals, rfl⟩ := hperform
    exact undisturbed_perform ho us locals
  have hclock : ∀ clock, Undisturbed [] w { w with clock } := fun clock ↦
    .of_signals (fun _ ↦ rfl) rfl (Nat.le_refl _) fun _ ↦ rfl
  have hworked := worked_turn w fun us locals heq ↦ hperform ⟨us, locals, heq⟩
  generalize w.turn x = t at *
  cases hworked with
  | told _ hnext =>
    refine .of_signals (fun _ ↦ rfl) rfl (Nat.le_refl _) fun s ↦ ?_
    exact List.countP_eq_zero.2 fun y hy ↦ not_letsGo_of_notifies (hnext y hy)
  | looked _ _ _ _ s place => exact (undisturbed_refresh w s place).append _ fun _ ↦ rfl
  | settled s place => exact undisturbed_settle w s place
  | letGo s => exact absurd rfl (hx s)
  | arrived => exact hclock _
  | rung _ clock => exact (hclock clock).append _ fun _ ↦ rfl
  | expired _ clock s place =>
    exact ((hclock clock).trans (undisturbed_setTerm { w with clock } s place _)).append
      _ fun _ ↦ rfl

end World

/-- Whether a deed neither observes a cell or stops observing it, nor has to do with who holds a
signal. -/
def Deed.aloof : Deed η → Bool
  | .observe _ _ | .cancel (.ofCell _ _) | .openSignal _ | .hold _ | .letGo _ => false
  | _ => true

namespace World

variable {w : World η}

theorem observers_create (ho : w.Orderly) (p : Payload) (c : CellId) :
    (w.create p).2.observers c = w.observers c := by
  show (((w.cells.add ⟨p, []⟩).2.get? c).map Cell.observers).getD [] = _
  rw [Registry.get?_add]
  split
  · rename_i heq
    rw [← heq, observers, ho.cells.get?_next]
    rfl
  · rfl

/-- **A deed that is aloof leaves observers alone.** -/
theorem undisturbed_after (ho : w.Orderly) {d : Deed η} (hd : d.aloof = true) :
    Undisturbed (w.after d).2 w (w.after d).1 := by
  cases d with
  | create p => exact .of_signals (observers_create ho p) rfl (Nat.le_refl _) fun _ ↦ rfl
  | write c p =>
    show Undisturbed (w.write c p).2.2 w (w.write c p).2.1
    cases hne : w.payload c == p with
    | true =>
      rw [write_of_eq hne]
      exact .refl w
    | false =>
      rw [write_of_ne hne]
      exact .of_signals (observers_put w c p) rfl (Nat.le_refl _) fun _ ↦ rfl
  | cancel sub =>
    cases sub with
    | ofCell c ticket => cases hd
    | ofSignal s ticket => exact undisturbed_modify w s _ fun _ _ ↦ rfl
    | none => exact .refl w
    | ofProblems ticket => exact .of_signals (fun _ ↦ rfl) rfl (Nat.le_refl _) fun _ ↦ rfl
  | subscribe s h =>
    have hchanged := undisturbed_modify w s
      (fun sig ↦ { sig with subscribers := sig.subscribers ++ [(w.nextTicket, h)] }) fun _ _ ↦ rfl
    exact ⟨hchanged.observers, Nat.le_succ _, hchanged.lives, hchanged.holders⟩
  | addGlobal key c =>
    simp only [after]
    split
    · rename_i w' hadd
      unfold addGlobal at hadd
      split at hadd
      · cases hadd
      · split at hadd
        · cases hadd
        · cases hadd
          exact .of_signals (fun _ ↦ rfl) rfl (Nat.le_refl _) fun _ ↦ rfl
    · exact .refl w
  | publish =>
    simp only [after, publish]
    split
    · exact .refl w
    · exact .of_signals (fun _ ↦ rfl) rfl (Nat.le_refl _) fun _ ↦ rfl
  | await h =>
    simp only [after, onPublish]
    split
    · exact .of_signals (fun _ ↦ rfl) rfl (Nat.le_refl _) fun _ ↦ rfl
    · exact .of_signals (fun _ ↦ rfl) rfl (Nat.le_refl _) fun _ ↦ rfl
  | perform us locals => exact .of_signals (fun _ ↦ rfl) rfl (Nat.le_refl _) fun _ ↦ rfl
  | advance ms => exact .of_signals (fun _ ↦ rfl) rfl (Nat.le_refl _) fun _ ↦ rfl
  | report p => exact .of_signals (fun _ ↦ rfl) rfl (Nat.le_refl _) fun _ ↦ rfl
  | schedule delay h => exact .of_signals (fun _ ↦ rfl) rfl (Nat.le_refl _) fun _ ↦ rfl
  | cancelTimer id => exact .of_signals (fun _ ↦ rfl) rfl (Nat.le_refl _) fun _ ↦ rfl
  | listen h => exact .of_signals (fun _ ↦ rfl) rfl (Nat.le_succ _) fun _ ↦ rfl
  | observe _ _ => cases hd
  | openSignal _ => cases hd
  | hold _ => cases hd
  | letGo _ => cases hd

end World

end LiveTemplate.Engine
