import LiveTemplate.Proofs.Finding
import LiveTemplate.Proofs.Piecemeal
import LiveTemplate.Proofs.Publication
import LiveTemplate.Proofs.Resolution
import LiveTemplate.Session.Expressions

/-!
# Evaluating predicates

To evaluate a predicate all of its operands are looked for, from left to right, whatever the
predicate may come to without some of them; the first that is not found is what is wrong
(`problem?_bind`). If all are found the result is what the predicate means, where nothing counts as
having changed (`evaluate_eq_means`). Either way no trace is left (`Untouched`), nor is any if the
predicate is observed piece by piece and only a part of it has been set up when an operand is not
found: what was set up has no timers yet, so that to let go of it leaves the clock alone too
(`Quiet`).
-/

namespace LiveTemplate

/-- What is wrong, if anything is. -/
def problem? {α : Type} : Except Problem α → Option Problem
  | .error e => some e
  | .ok _ => none

section Sequence

variable {α β γ : Type}

theorem problem?_map (x : Except Problem α) (f : α → β) :
    problem? (x >>= fun a ↦ pure (f a)) = problem? x := by
  cases x <;> rfl

theorem problem?_map₂ (x : Except Problem α) (y : Except Problem β) (f : α → β → γ) :
    problem? (x >>= fun a ↦ y >>= fun b ↦ pure (f a b)) = (problem? x).or (problem? y) := by
  cases x <;> cases y <;> rfl

theorem findSome?_flatMap (l : List α) (g : α → List β) (f : β → Option γ) :
    (l.flatMap g).findSome? f = l.findSome? fun a ↦ (g a).findSome? f := by
  induction l with
  | nil => rfl
  | cons a l ih =>
    rw [List.flatMap_cons, List.findSome?_append, ih, List.findSome?_cons]
    cases (g a).findSome? f <;> rfl

end Sequence

/-! ### The first problem of a traversal -/

namespace Formula

variable {τ υ : Type} {g : τ → Except Problem υ}

mutual

/-- **What is wrong with a formula is what is wrong with the first of its terms** that anything is
wrong with. -/
theorem problem?_traverse : ∀ p : Formula τ,
    problem? (p.traverse g) = p.terms.findSome? fun t ↦ problem? (g t)
  | const _ => rfl
  | not p => (problem?_map _ _).trans (problem?_traverse p)
  | and ps => (problem?_map _ _).trans (problem?_traverseAll ps)
  | or ps => (problem?_map _ _).trans (problem?_traverseAll ps)
  | term t => by
    rw [terms, List.findSome?_singleton]
    exact problem?_map _ _

theorem problem?_traverseAll : ∀ ps : List (Formula τ),
    problem? (traverseAll g ps) = (allTerms ps).findSome? fun t ↦ problem? (g t)
  | [] => rfl
  | p :: ps => by
    rw [allTerms, List.findSome?_append, ← problem?_traverse p, ← problem?_traverseAll ps]
    exact problem?_map₂ _ _ _

end

mutual

/-- A formula that comes of a traversal is as true as the one it comes of, if its terms are. -/
theorem eval_of_traverse {truth : τ → Bool} {truth' : υ → Bool}
    (hterm : ∀ t u, g t = .ok u → truth' u = truth t) :
    ∀ {p : Formula τ} {f : Formula υ}, p.traverse g = .ok f → f.eval truth' = p.eval truth
  | const _, _, h => by cases h; rfl
  | not p, _, h => by
    obtain ⟨f, hf, h⟩ := Engine.World.exists_of_bind_eq_ok h
    cases h
    exact congrArg (!·) (eval_of_traverse hterm (p := p) hf)
  | and ps, _, h => by
    obtain ⟨fs, hfs, h⟩ := Engine.World.exists_of_bind_eq_ok h
    cases h
    exact (evals_of_traverseAll hterm hfs).1
  | or ps, _, h => by
    obtain ⟨fs, hfs, h⟩ := Engine.World.exists_of_bind_eq_ok h
    cases h
    exact (evals_of_traverseAll hterm hfs).2
  | term t, _, h => by
    obtain ⟨u, hu, h⟩ := Engine.World.exists_of_bind_eq_ok h
    cases h
    exact hterm t u hu

theorem evals_of_traverseAll {truth : τ → Bool} {truth' : υ → Bool}
    (hterm : ∀ t u, g t = .ok u → truth' u = truth t) :
    ∀ {ps : List (Formula τ)} {fs : List (Formula υ)}, traverseAll g ps = .ok fs →
      evalAll truth' fs = evalAll truth ps ∧ evalAny truth' fs = evalAny truth ps
  | [], _, h => by cases h; exact ⟨rfl, rfl⟩
  | p :: ps, _, h => by
    obtain ⟨f, hf, h⟩ := Engine.World.exists_of_bind_eq_ok h
    obtain ⟨fs, hfs, h⟩ := Engine.World.exists_of_bind_eq_ok h
    cases h
    obtain ⟨hall, hany⟩ := evals_of_traverseAll hterm hfs
    have hfirst := eval_of_traverse hterm (p := p) hf
    exact ⟨congrArg₂ (· && ·) hfirst hall, congrArg₂ (· || ·) hfirst hany⟩

end

end Formula

/-- The operands of a predicate, from left to right, each with the name of its term. -/
def Predicate.operands {α : Type} (p : Predicate α) : List (String × Reference α) :=
  p.terms.flatMap fun t ↦ t.operands.map fun r ↦ (t.name, r)

namespace Engine

variable {η : Type}

namespace World

variable {w w' w'' : World η} {locals : ValueMap} {p : Predicate CellId}

/-! ### What a predicate comes to -/

/-- What a reference stands for holds; nothing if it stands for nothing. -/
def held (w : World η) (locals : ValueMap) (r : Reference CellId) : Payload :=
  match w.resolve locals r with
  | .ok (some c) => w.payload c
  | _ => .empty

/-- What is wrong with an operand of a term, if it is not found. -/
def obstacle? (w : World η) (locals : ValueMap) (x : String × Reference CellId) : Option Problem :=
  match w.resolve locals x.2 with
  | .ok (some _) => none
  | .ok none =>
    some (.unresolvedOperand x.1 (x.2.describe w.describe) (w.describeMap locals))
  | .error e => some e

theorem problem?_operand (w : World η) (locals : ValueMap) (term : String)
    (r : Reference CellId) :
    problem? (w.operand locals term r) = w.obstacle? locals (term, r) := by
  rw [operand, obstacle?]
  cases w.resolve locals r with
  | error e => rfl
  | ok found => cases found <;> rfl

/-- **What is wrong with a predicate is what is wrong with the first operand that is not found.** -/
theorem problem?_bind (w : World η) (locals : ValueMap) (p : Predicate CellId) :
    problem? (w.bind locals p) = p.operands.findSome? (w.obstacle? locals) := by
  have hterm : ∀ t : Term (Reference CellId), problem? (t.traverse (w.operand locals t.name)) =
      (t.operands.map fun r ↦ (t.name, r)).findSome? (w.obstacle? locals) := by
    intro t
    cases t with
    | relation r left right =>
      rw [Term.traverse, problem?_map₂, problem?_operand, problem?_operand,
        ← List.findSome?_singleton (f := w.obstacle? locals),
        ← List.findSome?_singleton (f := w.obstacle? locals), ← List.findSome?_append]
      rfl
    | changed a window =>
      rw [Term.traverse, problem?_map, problem?_operand,
        ← List.findSome?_singleton (f := w.obstacle? locals)]
      rfl
  rw [bind, Formula.problem?_traverse, Predicate.operands, findSome?_flatMap]
  exact congrArg (List.findSome? · p.terms) (funext hterm)

theorem held_of_operand {term : String} {r : Reference CellId} {c : CellId}
    (h : w.operand locals term r = .ok c) : w.held locals r = w.payload c := by
  obtain ⟨found, hfound, h⟩ := exists_of_bind_eq_ok h
  rw [held, hfound]
  cases found with
  | none => cases h
  | some c' => cases h; rfl

/-- **To evaluate a predicate is to look for all of its operands, and then to ask what it means.** -/
theorem evaluate_eq_means (w : World η) (locals : ValueMap) (p : Predicate CellId) :
    (w.evaluate locals p).1 = match p.operands.findSome? (w.obstacle? locals) with
      | some e => .error e
      | none => .ok (p.eval (·.holds (w.held locals))) := by
  rw [evaluate_eq, ← problem?_bind]
  cases hbind : w.bind locals p with
  | error e => rfl
  | ok f =>
    refine congrArg Except.ok (Formula.eval_of_traverse (fun t u hu ↦ ?_) hbind)
    cases t with
    | relation r left right =>
      obtain ⟨left', hleft, hu⟩ := exists_of_bind_eq_ok hu
      obtain ⟨right', hright, hu⟩ := exists_of_bind_eq_ok hu
      cases hu
      rw [Term.holds, Term.holds, held_of_operand hleft, held_of_operand hright]
    | changed a window =>
      obtain ⟨a', -, hu⟩ := exists_of_bind_eq_ok hu
      cases hu
      rfl

theorem obstacle?_eq_none {x : String × Reference CellId} :
    w.obstacle? locals x = none ↔ ∃ c, w.resolve locals x.2 = .ok (some c) := by
  rw [obstacle?]
  cases w.resolve locals x.2 with
  | error e => simp
  | ok found => cases found <;> simp

/-- An operand is not found because no local value, or no global, has its key. -/
theorem obstacle?_eq_some (hpublished : w.published = true) {x : String × Reference CellId}
    {e : Problem} (h : w.obstacle? locals x = some e) :
    (∃ key, x.2 = .fromLocal key ∧ locals.get? key = none ∧
      e = .unresolvedOperand x.1 (x.2.describe w.describe) (w.describeMap locals)) ∨
      ∃ key, x.2 = .fromGlobal key ∧ w.globals.get? key = none ∧ e = .unknownGlobal key := by
  rw [obstacle?] at h
  split at h
  · cases h
  next hnone =>
    cases h
    obtain ⟨key, hx, hkey⟩ := eq_fromLocal_of_resolve hpublished hnone
    exact .inl ⟨key, hx, hkey, rfl⟩
  next e' herror =>
    cases h
    obtain ⟨term, r⟩ := x
    cases r with
    | literal c => cases herror
    | fromLocal key => cases herror
    | fromGlobal key =>
      have herror : w.global? key = .error e := herror
      rw [global?, if_pos hpublished] at herror
      split at herror
      · cases herror
      next hkey =>
        cases herror
        exact .inr ⟨key, rfl, hkey, rfl⟩

/-- **There is a result if every operand is found**, and not otherwise. -/
theorem exists_evaluate_eq_ok : (∃ b, (w.evaluate locals p).1 = .ok b) ↔
    ∀ x ∈ p.operands, ∃ c, w.resolve locals x.2 = .ok (some c) := by
  have hnone : (∃ b, (w.evaluate locals p).1 = .ok b) ↔
      p.operands.findSome? (w.obstacle? locals) = none := by
    rw [evaluate_eq_means]
    cases p.operands.findSome? (w.obstacle? locals) <;> simp
  rw [hnone, List.findSome?_eq_none_iff]
  exact forall₂_congr fun x _ ↦ obstacle?_eq_none

/-- What is wrong is that the first operand is not found for which this is so. -/
theorem exists_of_evaluate_eq_error {e : Problem} (h : (w.evaluate locals p).1 = .error e) :
    ∃ before x after, p.operands = before ++ x :: after ∧
      (∀ y ∈ before, ∃ c, w.resolve locals y.2 = .ok (some c)) ∧
      w.obstacle? locals x = some e := by
  have hfirst : p.operands.findSome? (w.obstacle? locals) = some e := by
    rw [evaluate_eq_means] at h
    split at h
    next hfirst => rwa [Except.error.inj h] at hfirst
    · cases h
  obtain ⟨before, x, after, heq, hx, hbefore⟩ := List.findSome?_eq_some_iff.1 hfirst
  exact ⟨before, x, after, heq, fun y hy ↦ obstacle?_eq_none.1 (hbefore y hy), hx⟩

/-- The result, if there is one, is what the predicate means. -/
theorem eq_eval_of_evaluate {b : Bool} (h : (w.evaluate locals p).1 = .ok b) :
    b = p.eval (·.holds (w.held locals)) := by
  rw [evaluate_eq_means] at h
  split at h
  · cases h
  · exact (Except.ok.inj h).symm

/-! ### No trace -/

/-- All that was there is as it was: what cells hold and who observes them, every signal with its
subscribers, the clock and its timers, the globals, and who waits or listens. -/
structure Untouched (w w' : World η) : Prop where
  values : w'.values = w.values
  observers : ∀ c, w'.observers c = w.observers c
  signals : ∀ s, w'.signals.get? s = w.signals.get? s
  clock : w'.clock = w.clock
  hooks : w'.hooks = w.hooks
  listeners : w'.listeners = w.listeners

/-- Signals from a number on have no timers. -/
def Idle (n : Nat) (w : World η) : Prop :=
  ∀ s sig, n ≤ s → w.signals.get? s = some sig →
    sig.circuit.leaves.filterMap LiveTerm.timer = []

theorem Orderly.idle (ho : w.Orderly) : Idle w.signals.next w :=
  fun s sig hs hsig ↦ absurd (ho.signals s sig hsig) (Nat.not_lt.2 hs)

/-- A world has come of another one by signals from a number on, without any timers. -/
structure Quiet (n : Nat) (w w' : World η) : Prop where
  idle : Idle n w → Idle n w'
  next : w.signals.next ≤ w'.signals.next
  values : w'.values = w.values
  clock : w'.clock = w.clock
  hooks : w'.hooks = w.hooks
  listeners : w'.listeners = w.listeners

variable {n : Nat}

theorem Quiet.refl (n : Nat) (w : World η) : Quiet n w w := ⟨id, Nat.le_refl _, rfl, rfl, rfl, rfl⟩

theorem Quiet.trans (h : Quiet n w w') (h' : Quiet n w' w'') : Quiet n w w'' where
  idle := h'.idle ∘ h.idle
  next := Nat.le_trans h.next h'.next
  values := h'.values.trans h.values
  clock := h'.clock.trans h.clock
  hooks := h'.hooks.trans h.hooks
  listeners := h'.listeners.trans h.listeners

theorem Same.untouched (h : Same w w') (hquiet : Quiet n w w') : Untouched w w' where
  values := hquiet.values
  observers := h.observers
  signals := h.signals
  clock := hquiet.clock
  hooks := hquiet.hooks
  listeners := hquiet.listeners

theorem listeners_observeTerms (w : World η) (s : SignalId) (place : Nat)
    (terms : List (Term CellId)) : (w.observeTerms s place terms).listeners = w.listeners := by
  have hoperands : ∀ (operands : List CellId) (w : World η) (place : Nat),
      (operands.foldl (fun w c ↦ (w.observe c (.term s place)).2) w).listeners = w.listeners := by
    intro operands
    induction operands with
    | nil => exact fun _ _ ↦ rfl
    | cons c rest ih => exact fun w place ↦ ih _ place
  induction terms generalizing w place with
  | nil => rfl
  | cons t rest ih => exact (ih _ _).trans (hoperands t.operands w place)

theorem quiet_openSignal (n : Nat) (w : World η) (f : Formula (Term CellId)) :
    Quiet n w (w.openSignal f).2 where
  idle := fun hidle s sig hs hsig ↦ by
    rw [get?_openSignal] at hsig
    split at hsig
    · cases hsig
      exact timers_newSignal w f
    · exact hidle s sig hs hsig
  next := by
    rw [(w.attaches_openSignal f).signals]
    exact Nat.le_succ _
  values := values_openSignal w f
  clock := (w.attaches_openSignal f).clock
  hooks := congrArg Publicity.hooks (publicity_openSignal w f)
  listeners := listeners_observeTerms _ _ 0 f.terms

/-- **To let go of a signal without timers leaves the clock alone.** -/
theorem quiet_letGo {s : SignalId} (hidle : Idle n w) (hs : n ≤ s) : Quiet n w (w.letGo s) := by
  unfold letGo
  split
  · exact .refl n w
  next sig hsig =>
    split
    · rw [dispose_eq hsig]
      refine ⟨fun hidle s' sig' hs' hsig' ↦ hidle s' sig' hs' (get?_without.1 hsig').2,
        Nat.le_refl _, values_without w s sig, ?_, rfl, rfl⟩
      show (sig.circuit.leaves.filterMap LiveTerm.timer).foldl Clock.cancel w.clock = w.clock
      rw [hidle s sig hs hsig]
      rfl
    · refine ⟨fun hidle s' sig' hs' hsig' ↦ ?_, Nat.le_refl _, rfl, rfl, rfl, rfl⟩
      rw [Registry.get?_modify] at hsig'
      split at hsig'
      · obtain ⟨former, hformer, rfl⟩ := Option.map_eq_some_iff.1 hsig'
        exact hidle s' former hs' hformer
      · exact hidle s' sig' hs' hsig'

theorem quiet_letGoAll {signals : List SignalId} (hidle : Idle n w)
    (hs : ∀ s ∈ signals, n ≤ s) : Quiet n w (signals.foldl letGo w) := by
  induction signals generalizing w with
  | nil => exact .refl n w
  | cons s signals ih =>
    obtain ⟨hfirst, hothers⟩ := List.forall_mem_cons.1 hs
    have hquiet := quiet_letGo hidle hfirst
    exact hquiet.trans (ih (hquiet.idle hidle) hothers)

/-- **To evaluate a predicate leaves no trace.** -/
theorem untouched_evaluate (ho : w.Orderly) (locals : ValueMap) (p : Predicate CellId) :
    Untouched w (w.evaluate locals p).2 := by
  rw [evaluate, observePredicate]
  cases w.bind locals p with
  | error e => exact (Same.refl w).untouched (.refl 0 w)
  | ok f =>
    have hopen := quiet_openSignal w.signals.next w f
    have hsame : Same w ((w.openSignal f).2.letGo w.signals.next) :=
      ⟨observers_letGo_openSignal ho.fresh f, get?_letGo_openSignal ho.fresh f⟩
    exact hsame.untouched (hopen.trans (quiet_letGo (hopen.idle ho.idle) (Nat.le_refl _)))

/-! ### Piece by piece -/

/-- What is observed piece by piece is observed quietly, by new signals. -/
inductive Quietly (n : Nat) (w : World η) : Except Problem (List SignalId) × World η → Prop
  | done {signals : List SignalId} {w' : World η} (hquiet : Quiet n w w')
      (hnew : ∀ s ∈ signals, n ≤ s) : Quietly n w (.ok signals, w')
  | failed {e : Problem} {w' : World η} (hquiet : Quiet n w w') : Quietly n w (.error e, w')

mutual

theorem quietly_observeParts (locals : ValueMap) {w : World η} (hidle : Idle n w)
    (hn : n ≤ w.signals.next) :
    ∀ p : Predicate CellId, Quietly n w (observeParts locals p w)
  | .const _ => .done (.refl n w) (by simp)
  | .not p => quietly_observeParts locals hidle hn p
  | .and ps => quietly_observeAllParts locals hidle hn ps
  | .or ps => quietly_observeAllParts locals hidle hn ps
  | .term t => by
    rw [observeParts, observePredicate]
    cases w.bind locals (.term t) with
    | error e => exact .failed (.refl n w)
    | ok f => exact .done (quiet_openSignal n w f) fun s hs ↦ by rwa [List.mem_singleton.1 hs]

theorem quietly_observeAllParts (locals : ValueMap) {w : World η} (hidle : Idle n w)
    (hn : n ≤ w.signals.next) :
    ∀ ps : List (Predicate CellId), Quietly n w (observeAllParts locals ps w)
  | [] => .done (.refl n w) (by simp)
  | p :: ps => by
    have hfirst := quietly_observeParts locals hidle hn p
    rw [observeAllParts]
    generalize observeParts locals p w = tried at hfirst ⊢
    cases hfirst with
    | failed hquiet => exact .failed hquiet
    | @done signals w' hquiet hnew =>
      have hrest := quietly_observeAllParts locals (hquiet.idle hidle)
        (Nat.le_trans hn hquiet.next) ps
      dsimp only
      generalize observeAllParts locals ps w' = tries at hrest ⊢
      cases hrest with
      | failed hquiet' =>
        have hboth := hquiet.trans hquiet'
        exact .failed (hboth.trans (quiet_letGoAll (hboth.idle hidle) hnew))
      | done hquiet' hnew' =>
        refine .done (hquiet.trans hquiet') fun s hs ↦ ?_
        exact (List.mem_append.1 hs).elim (hnew' s) (hnew s)

end

/-- **Nor does it if the predicate is observed piece by piece**: neither if an operand is not found
when a part of it has been observed, nor if all of it has been and is let go of. -/
theorem untouched_observeParts (ho : w.Orderly) (locals : ValueMap) (p : Predicate CellId) :
    match observeParts locals p w with
    | (.error e, w') => (w.evaluate locals p).1 = .error e ∧ Untouched w w'
    | (.ok signals, w') => (∃ b, (w.evaluate locals p).1 = .ok b) ∧
      Untouched w (signals.foldl letGo w') := by
  have htried := tried_observeParts locals ho.fresh p
  have hquietly := quietly_observeParts locals ho.idle (Nat.le_refl _) p
  rw [evaluate_eq]
  generalize w.bind locals p = bound, observeParts locals p w = tried at htried hquietly ⊢
  cases htried with
  | done f _ _ hsame =>
    cases hquietly with
    | done hquiet hnew =>
      exact ⟨⟨_, rfl⟩, hsame.untouched (hquiet.trans (quiet_letGoAll (hquiet.idle ho.idle) hnew))⟩
  | failed hsame =>
    cases hquietly with
    | failed hquiet => exact ⟨rfl, hsame.untouched hquiet⟩

/-! ### Nobody is told -/

/-- Updates that ask a predicate what to do. -/
inductive Consults (p : Predicate CellId) : Update CellId → Prop
  | when (us : List (Update CellId)) : Consults p (.when p us)
  | choose (us otherwise : List (Update CellId)) : Consults p (.choose p us otherwise)
  | switch (before : List (Case CellId)) (us : List (Update CellId)) (later : List (Case CellId)) :
      Consults p (.switch (before ++ .mk p us :: later))

/-- An update that asks a predicate calls nobody, and goes on with updates only. -/
theorem turn_of_consults {u : Update CellId} (h : Consults p u) (w : World η) (locals : ValueMap)
    (rest : List (Update CellId)) : (w.turn (.perform (u :: rest) locals)).call = none ∧
      ∀ x ∈ (w.turn (.perform (u :: rest) locals)).next, ∃ us, x = .perform us locals := by
  have hbranch : ∀ chosen : Except Problem (List (Update CellId)) × World η,
      (branch chosen rest locals).call = none ∧
        ∀ x ∈ (branch chosen rest locals).next, ∃ us, x = .perform us locals := by
    rintro ⟨_ | us, w'⟩
    · exact ⟨rfl, by simp [branch, Turn.ending]⟩
    · exact ⟨rfl, fun x hx ↦ ⟨us ++ rest, List.mem_singleton.1 hx⟩⟩
  cases h with
  | when us => exact hbranch _
  | choose us otherwise => exact hbranch _
  | switch before us later => exact hbranch _

end World

end Engine

namespace Session

open Engine

theorem log_sound {α : Type} (result : Except Problem α) (s : Session) :
    (sound result s).2.log = s.log := by
  cases result <;> rfl

/-- A session that is asked for a predicate replies at once. Nobody is told of anything, also if
there is a problem. -/
theorem reply_of_evaluate (predicate : Predicate Payload) (of : MapOperand) (s : Session) :
    ((ExpressionCommand.evaluate predicate of).run s).2.log = s.log ∧
      ∀ u, ((ExpressionCommand.evaluate predicate of).run s).1 = .ok u →
        ∃ b, u = .reply (.flag b) := by
  constructor
  · refine Act.log_bind (extends_mapOperand of s).log fun locals s₁ ↦ ?_
    refine Act.log_bind rfl fun p s₂ ↦ ?_
    refine Act.log_bind rfl fun result s₃ ↦ ?_
    exact Act.log_bind (log_sound result s₃) fun b s₄ ↦ rfl
  · intro u hu
    obtain ⟨locals, s₁, -, h⟩ := Act.exists_of_bind (Prod.ext hu rfl)
    obtain ⟨p, s₂, -, h⟩ := Act.exists_of_bind h
    obtain ⟨result, s₃, -, h⟩ := Act.exists_of_bind h
    obtain ⟨b, s₄, -, h⟩ := Act.exists_of_bind h
    cases h
    exact ⟨b, rfl⟩

end Session

namespace Engine

open World

variable {η : Type}

namespace Activity

/-- **To evaluate a predicate is to ask what it means.** Let anything at all have been done, and let
the global state be published. There is a result exactly if every operand is found, and then it is
what the predicate means, where nothing counts as having changed; otherwise the problem is that of
the first operand that is not found. In either case no trace is left, and none would be if the
predicate were observed piece by piece; and nobody is told of anything, whether an update or a
session asks. -/
theorem evaluate_is_pure {es : List Happening} {a : Activity η}
    (h : Run anything ⟨start, []⟩ es a) (hpublished : a.world.published = true)
    (locals : ValueMap) (p : Predicate CellId) :
    ((∃ b, (a.world.evaluate locals p).1 = .ok b) ↔
        ∀ x ∈ p.operands, ∃ c, a.world.resolve locals x.2 = .ok (some c)) ∧
      (∀ b, (a.world.evaluate locals p).1 = .ok b → b = p.eval (·.holds (a.world.held locals))) ∧
      (∀ e, (a.world.evaluate locals p).1 = .error e → ∃ before x after,
        p.operands = before ++ x :: after ∧
          (∀ y ∈ before, ∃ c, a.world.resolve locals y.2 = .ok (some c)) ∧
          ((∃ key, x.2 = .fromLocal key ∧ locals.get? key = none ∧
              e = .unresolvedOperand x.1 (x.2.describe a.world.describe)
                (a.world.describeMap locals)) ∨
            ∃ key, x.2 = .fromGlobal key ∧ a.world.globals.get? key = none ∧
              e = .unknownGlobal key)) ∧
      Untouched a.world (a.world.evaluate locals p).2 ∧
      (match observeParts locals p a.world with
        | (.error e, w') => (a.world.evaluate locals p).1 = .error e ∧ Untouched a.world w'
        | (.ok signals, w') => (∃ b, (a.world.evaluate locals p).1 = .ok b) ∧
          Untouched a.world (signals.foldl World.letGo w')) ∧
      (∀ (u : Update CellId) (rest : List (Update CellId)), Consults p u →
        (a.world.turn (.perform (u :: rest) locals)).call = none ∧
          ∀ x ∈ (a.world.turn (.perform (u :: rest) locals)).next, ∃ us, x = .perform us locals) ∧
      ∀ (predicate : Predicate Payload) (of : Session.MapOperand) (s : Session),
        ((Session.ExpressionCommand.evaluate predicate of).run s).2.log = s.log ∧
          ∀ u, ((Session.ExpressionCommand.evaluate predicate of).run s).1 = .ok u →
            ∃ b, u = .reply (.flag b) := by
  have ho := h.orderly orderly_start
  refine ⟨exists_evaluate_eq_ok, fun b ↦ eq_eval_of_evaluate, fun e he ↦ ?_,
    untouched_evaluate ho locals p, untouched_observeParts ho locals p,
    fun _ rest h ↦ turn_of_consults h a.world locals rest,
    Session.reply_of_evaluate⟩
  obtain ⟨before, x, after, heq, hbefore, hx⟩ := exists_of_evaluate_eq_error he
  exact ⟨before, x, after, heq, hbefore, obstacle?_eq_some hpublished hx⟩

/-- A number is a global, and somebody observes it. -/
def exhibit : List (Option (Deed Unit)) :=
  [some (.create (.int 3)), some (.addGlobal "x" 0), some (.observe 0 (.handler ())), some .publish,
    none]

/-- What is true whatever else, or asks for a local value that there is not. -/
def either : Predicate CellId :=
  .or [.const true, .term (.relation .equals (.fromLocal "gone") (.fromGlobal "x"))]

/-- That a global has not changed lately. -/
def still : Predicate CellId := .not (.term (.changed (.fromGlobal "x") 0))

/-- All operands are asked for, also those that make no difference. -/
theorem evaluate_is_pure_exhibit :
    (¬∃ b, ((follow exhibit ⟨start, []⟩).2.world.evaluate .empty either).1 = .ok b) ∧
      ((follow exhibit ⟨start, []⟩).2.world.evaluate .empty still).1 = .ok true ∧
      Untouched (follow exhibit ⟨start, []⟩).2.world
        ((follow exhibit ⟨start, []⟩).2.world.evaluate .empty still).2 := by
  have hhistory : History anything ⟨start, []⟩ _ (follow exhibit ⟨start, []⟩).2 :=
    History.ofPlan exhibit ⟨start, []⟩ (by decide)
  obtain ⟨heither, -⟩ := evaluate_is_pure hhistory.run rfl .empty either
  obtain ⟨hstill, hresult, -, huntouched, -⟩ := evaluate_is_pure hhistory.run rfl .empty still
  have hgone : ("equals", .fromLocal "gone") ∈ either.operands := List.mem_cons_self
  refine ⟨fun hb ↦ ?_, ?_, huntouched⟩
  · obtain ⟨c, hc⟩ := heither.1 hb _ hgone
    cases hc
  · obtain ⟨b, hb⟩ := hstill.2 fun x hx ↦ ⟨0, by rw [List.mem_singleton.1 hx]; rfl⟩
    rw [hb, hresult b hb]
    rfl

end Activity

end Engine

end LiveTemplate
