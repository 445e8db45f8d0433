import LiveTemplate.Proofs.Undisturbed

/-!
# Observing piece by piece

A predicate can also be observed from its terms upwards: each is observed as soon as its operands
are found, from left to right, and when those of one are not, whatever has been observed by then is
let go of. That fails exactly if the predicate as a whole cannot be observed, with the same problem,
and then no cell has gained or lost an observer (`tried_observeParts`).
-/

namespace LiveTemplate.Engine.World

variable {η : Type}

mutual

/-- Observes the terms of a predicate one by one. Gives the signals, the latest first; or, if an
operand is not found, lets go of them. -/
def observeParts (locals : ValueMap) :
    Predicate CellId → World η → Except Problem (List SignalId) × World η
  | .const _, w => (.ok [], w)
  | .not p, w => observeParts locals p w
  | .and ps, w => observeAllParts locals ps w
  | .or ps, w => observeAllParts locals ps w
  | .term t, w =>
    match w.observePredicate locals (.term t) with
    | .error e => (.error e, w)
    | .ok (s, w') => (.ok [s], w')

/-- Observes the terms of predicates one by one, the first predicate first. -/
def observeAllParts (locals : ValueMap) :
    List (Predicate CellId) → World η → Except Problem (List SignalId) × World η
  | [], w => (.ok [], w)
  | p :: ps, w =>
    match observeParts locals p w with
    | (.error e, w') => (.error e, w')
    | (.ok signals, w') =>
      match observeAllParts locals ps w' with
      | (.error e, w'') => (.error e, signals.foldl letGo w'')
      | (.ok others, w'') => (.ok (others ++ signals), w'')

end

/-- The same observers and the same signals. -/
structure Same (w w' : World η) : Prop where
  observers : ∀ c, w'.observers c = w.observers c
  signals : ∀ s, w'.signals.get? s = w.signals.get? s

variable {w w' w'' : World η}

theorem Same.refl (w : World η) : Same w w := ⟨fun _ ↦ rfl, fun _ ↦ rfl⟩

theorem Same.trans (h : Same w w') (h' : Same w' w'') : Same w w'' :=
  ⟨fun c ↦ (h'.observers c).trans (h.observers c), fun s ↦ (h'.signals s).trans (h.signals s)⟩

theorem Same.letGo (h : Same w w') (s : SignalId) : Same (w.letGo s) (w'.letGo s) := by
  unfold World.letGo
  rw [h.signals]
  split
  · exact h
  · rename_i sig hsig
    split
    · rw [dispose_eq hsig, dispose_eq (w := w') ((h.signals s).trans hsig)]
      refine ⟨fun c ↦ ?_, fun s' ↦ ?_⟩
      · rw [observers_without, observers_without, h.observers]
      · show (w'.signals.remove s).get? s' = (w.signals.remove s).get? s'
        rw [Registry.get?_remove, Registry.get?_remove, h.signals]
    · refine ⟨h.observers, fun s' ↦ ?_⟩
      show (w'.signals.modify s _).get? s' = (w.signals.modify s _).get? s'
      rw [Registry.get?_modify, Registry.get?_modify, h.signals]

theorem Same.letGoAll (h : Same w w') (signals : List SignalId) :
    Same (signals.foldl World.letGo w) (signals.foldl World.letGo w') := by
  induction signals generalizing w w' with
  | nil => exact h
  | cons s signals ih => exact ih (h.letGo s)

theorem Fresh.openSignal (hw : w.Fresh) (f : Formula (Term CellId)) : (w.openSignal f).2.Fresh := by
  have hsignals := (w.attaches_openSignal f).signals
  refine ⟨?_, fun c o ho s hs ↦ ?_⟩
  · rw [hsignals]
    exact hw.signals.add _
  · obtain ⟨added, heq, hserves, -⟩ := w.observers_openSignal f c
    rw [hsignals]
    show s < w.signals.next + 1
    rw [heq] at ho
    rcases List.mem_append.1 ho with ho | ho
    · exact Nat.lt_succ_of_lt (hw.looks c o ho s hs)
    · rw [Observer.serves_inj (hserves o ho) hs]
      exact Nat.lt_succ_self _

/-- What comes of observing one by one what is bound to something, or to a problem. -/
inductive Tried {β : Type} (w : World η) :
    Except Problem β → Except Problem (List SignalId) × World η → Prop
  /-- All is observed, and to let go of it again comes to nothing. -/
  | done {signals : List SignalId} {w' : World η} (b : β) (hfresh : w'.Fresh)
      (hvalues : w'.values = w.values) (hsame : Same w (signals.foldl letGo w')) :
      Tried w (.ok b) (.ok signals, w')
  /-- An operand is not found, and it comes to nothing. -/
  | failed {e : Problem} {w' : World η} (hsame : Same w w') : Tried w (.error e) (.error e, w')

theorem Tried.map {β γ : Type} {bound : Except Problem β}
    {tried : Except Problem (List SignalId) × World η} (h : Tried w bound tried) (f : β → γ) :
    Tried w (bound >>= fun b ↦ pure (f b)) tried := by
  cases h with
  | done b hfresh hvalues hsame => exact .done (f b) hfresh hvalues hsame
  | failed hsame => exact .failed hsame

theorem Tried.nil {β : Type} (hw : w.Fresh) (b : β) : Tried w (.ok b) (.ok [], w) :=
  .done b hw rfl (.refl w)

mutual

/-- **To observe a predicate piece by piece comes to nothing if an operand is not found.** -/
theorem tried_observeParts (locals : ValueMap) {w : World η} (hw : w.Fresh) :
    ∀ p : Predicate CellId, Tried w (w.bind locals p) (observeParts locals p w)
  | .const b => .nil hw (Formula.const b)
  | .not p => (tried_observeParts locals hw p).map _
  | .and ps => (tried_observeAllParts locals hw ps).map _
  | .or ps => (tried_observeAllParts locals hw ps).map _
  | .term t => by
    rw [observeParts, observePredicate]
    cases w.bind locals (.term t) with
    | error e => exact .failed (.refl w)
    | ok f =>
      exact .done f (hw.openSignal f) (values_openSignal w f)
        ⟨observers_letGo_openSignal hw f, get?_letGo_openSignal hw f⟩

theorem tried_observeAllParts (locals : ValueMap) {w : World η} (hw : w.Fresh) :
    ∀ ps : List (Predicate CellId),
      Tried w (Formula.traverseAll (fun t ↦ t.traverse (w.operand locals t.name)) ps)
        (observeAllParts locals ps w)
  | [] => .nil hw []
  | p :: ps => by
    have hfirst := tried_observeParts locals hw p
    rw [observeAllParts, Formula.traverseAll]
    change Tried w (w.bind locals p >>= _) _
    generalize w.bind locals p = bound, observeParts locals p w = tried at hfirst ⊢
    cases hfirst with
    | failed hsame => exact .failed hsame
    | @done signals w' f hfresh hvalues hsame =>
      have hrest := tried_observeAllParts locals hfresh ps
      have hoperand : w'.operand locals = w.operand locals :=
        funext fun name ↦ funext fun r ↦ operand_of_values hvalues locals name r
      rw [hoperand] at hrest
      change Tried w (_ >>= _) (match observeAllParts locals ps w' with
        | (.error e, w'') => (.error e, signals.foldl letGo w'')
        | (.ok others, w'') => (.ok (others ++ signals), w''))
      generalize Formula.traverseAll (fun t : Term (Reference CellId) ↦
        t.traverse (w.operand locals t.name)) ps = bounds, observeAllParts locals ps w' = tries
        at hrest ⊢
      cases hrest with
      | failed hsame' => exact .failed (hsame.trans (hsame'.letGoAll signals))
      | @done others w'' fs hfresh' hvalues' hsame' =>
        refine .done (f :: fs) hfresh' (hvalues'.trans hvalues) ?_
        rw [List.foldl_append]
        exact hsame.trans (hsame'.letGoAll signals)

end

/-- **A predicate that cannot be observed cannot be observed piece by piece either**, for the same
reason, and leaves all observers as they are. -/
theorem observers_observeParts {locals : ValueMap} {p : Predicate CellId} {e : Problem}
    (hw : w.Fresh) (h : w.observePredicate locals p = .error e) :
    (observeParts locals p w).1 = .error e ∧
      ∀ c, (observeParts locals p w).2.observers c = w.observers c := by
  have htried := tried_observeParts locals hw p
  rw [observePredicate] at h
  cases hbind : w.bind locals p with
  | ok f =>
    rw [hbind] at h
    cases h
  | error e' =>
    rw [hbind] at h htried
    cases h
    generalize observeParts locals p w = tried at htried ⊢
    cases htried with
    | failed hsame => exact ⟨rfl, hsame.observers⟩

end LiveTemplate.Engine.World
