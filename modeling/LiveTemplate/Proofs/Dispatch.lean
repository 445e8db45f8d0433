import LiveTemplate.Proofs.Alternation
import LiveTemplate.Proofs.Bindings
import LiveTemplate.Proofs.Completing
import LiveTemplate.Proofs.Merging
import LiveTemplate.Proofs.References
import LiveTemplate.Simulation.Play

/-!
# Acting on a target

What is bound to a target and a kind decides what comes of it when something happens to the target:
the updates that are run, on a command or in a script (`Interactions.Acts`), and the predicate that
is observed (`Interactions.Looks`). In interactions that have been built these are those of the one
declaration with that target and kind, and for a target and a kind that are not declared there are
none.

To run no updates does nothing (`Interactions.Idles`). What is observed without a predicate is the
signal of a formula that is constantly false. It has no leaf that could change, so whatever goes on
it never turns, and nobody is told of it but that it is false (`Run.mute`).

A script comes to the same whatever the order is in which its interactions are declared
(`Stage.reports_declaring`).
-/

namespace LiveTemplate

open Engine World

/-! ### Signals that are constantly false -/

namespace Engine.Activity

variable {η : Type} {may : Activity η → Deed η → Prop} {a b : Activity η} {w : World η}
  {es es' : List Happening} {s : SignalId}

theorem StandsFor.truth_eq_false (h : StandsFor (.const false) s a) :
    a.world.truth s = false := by
  rw [World.truth]
  cases hsig : a.world.signals.get? s with
  | none => rfl
  | some sig => exact (h.keeps sig hsig).truth_eq_evalOver []

/-- A constant circuit has no leaf. -/
theorem StandsFor.leaf?_eq_none (h : StandsFor (.const false) s a) {sig : Signal η}
    (hsig : a.world.signals.get? s = some sig) (place : Nat) : sig.circuit.leaf? place = none := by
  have hterms : sig.circuit.leaves.map LiveTerm.term = [] := (h.keeps sig hsig).terms_eq
  rw [Circuit.leaf?, List.map_eq_nil_iff.1 hterms]
  rfl

/-- **No change turns it**, or leaves anything to be told of it. -/
theorem mute_of_change (hs : StandsFor (.const false) s a) (howed : ∀ t, owed s t a.stack = [])
    (h : Change may a es b) (t : Ticket) :
    (∀ x ∈ heard s t es, x = false) ∧ owed s t b.stack = [] := by
  have hsilent : ∀ {es}, heard s t es = [] → ∀ x ∈ heard s t es, x = false := fun hnil x hx ↦ by
    rw [hnil] at hx
    cases hx
  have howed := howed t
  cases h with
  | spare begun left hspares hbegun hleft =>
    rw [owed_append, owed_of_idle hbegun] at howed
    rw [owed_append, owed_of_idle (idle_of_left hleft)]
    exact ⟨hsilent rfl, howed⟩
  | @put w c p begun left stack hne hby =>
    have hidle : owed s t begun = [] ∧ owed s t left = [] := by
      rcases hby with ⟨rfl, rfl, -⟩ | ⟨us, us', locals, rfl, rfl⟩ <;> simp [owed, Work.owes]
    rw [owed_append, hidle.1] at howed
    refine ⟨hsilent rfl, ?_⟩
    rw [owed_cons, owed_append, hidle.2]
    exact howed
  | @subscribe w s' h stack hlives =>
    refine ⟨fun x hx ↦ ?_, howed⟩
    by_cases hs' : s' = s ∧ w.nextTicket = t
    · obtain ⟨rfl, rfl⟩ := hs'
      simp only [heard, List.filterMap_cons, and_self, if_true, List.filterMap_nil,
        List.mem_singleton] at hx
      rw [hx]
      exact hs.truth_eq_false
    · simp [heard, hs'] at hx
  | @tell w s' truth e others stack =>
    rw [owed_cons, List.append_eq_nil_iff] at howed
    obtain ⟨hnone, hrest⟩ := howed
    have hother : ¬(s' = s ∧ e.1 = t) := by
      rintro ⟨rfl, rfl⟩
      simp [Work.owes] at hnone
    refine ⟨hsilent ?_, ?_⟩
    · split <;> simp [heard, hother]
    · rw [owed_cons, hrest, List.append_nil]
      by_cases hs' : s' = s
      · have he : e.1 ≠ t := fun he ↦ hother ⟨hs', he⟩
        simpa [Work.owes, hs', he] using hnone
      · simp [Work.owes, hs']
  | @amend w w' s' place sig live begun left stack g k news hsig hlive how hamends =>
    -- The leaf that changes is one of another signal.
    have hs' : s' ≠ s := by
      rintro rfl
      rw [hs.leaf?_eq_none hsig] at hlive
      cases hlive
    obtain ⟨hbegun, hleft, hnews⟩ := owed_of_amendment (s := s) (t := t) how
    rw [owed_append, hbegun] at howed
    refine ⟨hsilent ?_, ?_⟩
    · rw [heard_append, (eq_nil_of_concerning hnews).1, turning]
      split <;> rfl
    · rw [owed_append, owed_append, hleft, tidings]
      split
      · exact howed
      · simpa [owed_cons, owed_nil, Work.owes, hs'] using howed
  | openSignal => exact ⟨hsilent rfl, howed⟩
  | _ => exact ⟨hsilent rfl, by simpa [owed_cons, Work.owes] using howed⟩

/-- What there is to a signal that is constantly false: it has not turned, and nobody has been told
of it but that it is false, nor is to be told anything. -/
structure Mute (s : SignalId) (es : List Happening) (a : Activity η) : Prop where
  stands : StandsFor (.const false) s a
  turnings : turnings s es = []
  heard : ∀ t, ∀ x ∈ heard s t es, x = false
  owed : ∀ t, owed s t a.stack = []

theorem mute_openSignal {stack : List (Work η)}
    (hstack : ∀ truth rest, .tellSignal w.signals.next truth rest ∉ stack) :
    Mute w.signals.next [] ⟨(w.openSignal (.const false)).2, stack⟩ where
  stands := standsFor_openSignal _ w stack
  turnings := rfl
  heard := fun _ _ h ↦ absurd h List.not_mem_nil
  owed := fun t ↦ List.flatMap_eq_nil_iff.2 fun x hx ↦ by
    cases x with
    | tellSignal s truth rest =>
      have hs : s ≠ w.signals.next := fun hs ↦ hstack truth rest (hs ▸ hx)
      simp [Work.owes, hs]
    | _ => rfl

theorem Mute.change (hmute : Mute s es a) (h : Change may a es' b) : Mute s (es ++ es') b where
  stands := standsFor_change hmute.stands h
  turnings := by
    rw [turnings_append, hmute.turnings, List.nil_append]
    rcases turned_of_change h hmute.stands.given with ⟨hnone, -⟩ | ⟨-, hne⟩
    · exact hnone
    · rw [(standsFor_change hmute.stands h).truth_eq_false, hmute.stands.truth_eq_false] at hne
      exact absurd rfl hne
  heard := fun t x hx ↦ by
    rw [heard_append] at hx
    rcases List.mem_append.1 hx with hx | hx
    · exact hmute.heard t x hx
    · exact (mute_of_change hmute.stands hmute.owed h t).1 x hx
  owed := fun t ↦ (mute_of_change hmute.stands hmute.owed h t).2

/-- **It never turns**, whatever goes on. -/
theorem Run.mute (h : Run may a es b) (ho : a.world.Orderly) (hmute : Mute s [] a) :
    Mute s es b :=
  h.keepsLog (P := Mute s) (fun _ hmute hchange ↦ hmute.change hchange) ho hmute

/-- What follows after signals have been let go of follows on what was there before. -/
theorem Run.of_letGo {stack : List (Work η)} (hmay : ∀ a s, may a (.letGo s)) :
    ∀ (l : List SignalId) {w : World η}, Run may ⟨l.foldl World.letGo w, stack⟩ es b →
      Run may ⟨w, stack⟩ es b
  | [], _, h => h
  | s :: l, w, h => by
    have hdeed := (Run.refl ⟨w, stack⟩).deed (.letGo s) trivial (hmay _ s)
    exact hdeed.trans (of_letGo hmay l h)

end Engine.Activity

/-! ### What a command sets out to do -/

namespace Session

/-- A session that has let go of the signal under a name, and keeps another one there. -/
def keeping (s : Session) (name : String) (opened : SignalId × World Handler) : Session :=
  { s with
    signals := s.signals.insert name opened.1
    world := (s.signals.get? name).toList.foldl World.letGo opened.2 }

namespace Run

/-- A run in which a command is under way. -/
def underway (r : Run) (label : Option String) (s : Session) (u : Undertaking) : Run :=
  { r with
    session := s
    frames := u.work.map .work ++ .reply label u.pending u.inHand :: r.frames }

/-- A run in which a command has been answered. -/
def answered (r : Run) (label : Option String) (reply : Reply) : Run :=
  match label with
  | some l => { r with session := { r.session with log := r.session.log ++ [.did l reply] } }
  | none => { r with reply := some reply }

theorem enter_of_run {r : Run} {c : Command} {u : Undertaking} {s : Session}
    (h : ∀ inHand, c.run inHand r.session = (.ok u, s)) (label : Option String) :
    r.enter label c = r.underway label s u := by
  rw [enter, h]
  rfl

/-- A command that is refused is answered so, and what it did before stays done. -/
theorem enter_of_refused {r : Run} {c : Command} {reply : Reply} {s : Session}
    (h : ∀ inHand, c.run inHand r.session = (.error reply, s)) (label : Option String) :
    r.enter label c = r.underway label s (.reply reply) := by
  rw [enter, h]
  rfl

/-- Without updates, those who wait for how they end are told that nothing went wrong. -/
theorem step_underway_perform_nil {pending : Pending} {locals : ValueMap}
    (h : pending = .applied locals ∨ pending = .dispatched locals) (r : Run)
    (label : Option String) (s : Session) (inHand : List CellId) :
    (r.underway label s ⟨[.perform [] locals], pending, inHand⟩).step =
      r.underway label s ⟨[], .ended (.ok ()) locals, inHand⟩ := by
  rcases h with rfl | rfl <;>
    simp [underway, step, Run.turn, World.turn, perform, Turn.ending, conclude]

/-- A reply that is due is given. -/
theorem step_underway_reply (r : Run) (label : Option String) (s : Session) (pending : Pending)
    (inHand : List CellId) :
    (r.underway label s ⟨[], pending, inHand⟩).step =
      { r with session := s }.answered label (settle s pending) := by
  cases label <;> rfl

end Run

end Session

namespace Interactions

open Session Simulation

variable {i : Interactions CellId CellId} {target kind : String} {r : Session.Run}
  {of : MapOperand} {locals : ValueMap} {s : Session}

/-! ### Updates -/

/-- If something happens to a target, these updates are run over local values: in a script, on a
command to update, and on one to dispatch. -/
structure Acts (i : Interactions CellId CellId) (target kind : String)
    (us : List (Update CellId)) : Prop where
  script (stage : Stage) (hi : stage.interactions = i) (entries : List (String × Payload)) :
    stage.update target kind entries = (stage.createMap entries).2.after
      ((stage.createMap entries).2.world.apply us (stage.createMap entries).1)
  update {r : Session.Run} (hi : r.session.interactions = some i) {of : MapOperand}
      {locals : ValueMap} {s : Session} (hof : mapOperand of r.session = (.ok locals, s))
      (label : Option String) :
    r.enter label (.interactions (.update target kind of)) =
      r.underway label s ⟨[.perform us locals], .applied locals, locals.values⟩
  dispatch {r : Session.Run} (hi : r.session.interactions = some i) {of : MapOperand}
      {locals : ValueMap} {s : Session} (hof : mapOperand of r.session = (.ok locals, s))
      (label : Option String) :
    r.enter label (.interactions (.dispatch target kind of)) =
      r.underway label s ⟨[.perform us locals], .dispatched locals, locals.values⟩

theorem boundUpdates_eq (hi : s.interactions = some i) (target kind : String) :
    boundUpdates target kind s = (.ok (i.updates target kind), s) := by
  refine (Act.bind_of_ok (declared_of_some hi)).trans ?_
  rw [updates]
  cases i.action? target kind with
  | none => rfl
  | some a => exact congrArg (fun us ↦ (Except.ok us, s)) (List.append_nil a.updates)

theorem run_boundUpdates (hi : r.session.interactions = some i)
    (hof : mapOperand of r.session = (.ok locals, s)) (pending : ValueMap → Pending) :
    (do
      let us ← boundUpdates target kind
      let locals ← mapOperand of
      pure ⟨[.perform us locals], pending locals, locals.values⟩ : Act Undertaking) r.session =
      (.ok ⟨[.perform (i.updates target kind) locals], pending locals, locals.values⟩, s) :=
  (Act.bind_of_ok (boundUpdates_eq hi target kind)).trans (Act.bind_of_ok hof)

/-- **What is run is what is bound**, if anything is. -/
theorem acts_updates (i : Interactions CellId CellId) (target kind : String) :
    i.Acts target kind (i.updates target kind) where
  script := fun stage hi entries ↦ by
    rw [← hi]
    rfl
  update := fun hi _ _ _ hof ↦ Run.enter_of_run fun _ ↦ run_boundUpdates hi hof .applied
  dispatch := fun hi _ _ _ hof ↦ Run.enter_of_run fun _ ↦ run_boundUpdates hi hof .dispatched

theorem acts_of_mem (h : i.Distinct) {a : Action CellId} (ha : a ∈ i.actions) :
    i.Acts a.target a.kind a.updates := by
  have hupdates : i.updates a.target a.kind = a.updates := by
    rw [updates, (action?_eq_some_iff h).2 ⟨ha, rfl⟩]
    rfl
  exact hupdates ▸ i.acts_updates a.target a.kind

theorem acts_of_not_mem (h : (target, kind) ∉ i.actionBindings) : i.Acts target kind [] := by
  have hupdates : i.updates target kind = [] := by
    rw [updates, action?_eq_none_iff.2 h]
    rfl
  exact hupdates ▸ i.acts_updates target kind

/-! ### No updates -/

/-- If something happens to a target, nothing comes of it: there are new local values, every value
stays as it was, and there is no problem, nor a report of one. -/
structure Idles (i : Interactions CellId CellId) (target kind : String) : Prop where
  script (stage : Stage) (hi : stage.interactions = i) (entries : List (String × Payload)) :
    stage.update target kind entries = ⟨(stage.createMap entries).2, none⟩ ∧
      ∀ c < stage.world.cells.next,
        (stage.createMap entries).2.world.payload c = stage.world.payload c
  update {r : Session.Run} (hi : r.session.interactions = some i) {of : MapOperand}
      {locals : ValueMap} {s : Session} (hof : mapOperand of r.session = (.ok locals, s))
      (label : Option String) :
    (r.enter label (.interactions (.update target kind of))).step.step =
        { r with session := s }.answered label (.applied (.ok ()) (locals.map s.world.payload)) ∧
      r.session.Extends s
  dispatch {r : Session.Run} (hi : r.session.interactions = some i) {of : MapOperand}
      {locals : ValueMap} {s : Session} (hof : mapOperand of r.session = (.ok locals, s))
      (label : Option String) :
    (r.enter label (.interactions (.dispatch target kind of))).step.step =
        { r with session := s }.answered label (.applied (.ok ()) (locals.map s.world.payload)) ∧
      r.session.Extends s

theorem payload_createAll {η : Type} (w : World η) (entries : List (String × Payload)) {c : CellId}
    (hc : c < w.cells.next) : (w.createAll entries).2.payload c = w.payload c := by
  induction entries generalizing w with
  | nil => rfl
  | cons e rest ih =>
    have hold : (w.create e.2).2.cells.get? c = w.cells.get? c :=
      (Registry.get?_add _ _ _).trans (if_neg (Nat.ne_of_gt hc))
    have hnext : (w.create e.2).2.payload c = w.payload c := by
      rw [World.payload, hold]
      rfl
    exact (ih (w.create e.2).2 (Nat.lt_succ_of_lt hc)).trans hnext

/-- **To run no updates changes nothing.** -/
theorem Acts.idles (h : i.Acts target kind []) : i.Idles target kind where
  script := fun stage hi entries ↦ by
    refine ⟨?_, fun c hc ↦ payload_createAll stage.world entries hc⟩
    rw [h.script stage hi, apply_of_ending rfl, Stage.after_of_ok rfl]
  update := fun hi _ _ _ hof label ↦ by
    refine ⟨?_, extends_of_mapOperand hof⟩
    rw [h.update hi hof, Run.step_underway_perform_nil (.inl rfl), Run.step_underway_reply]
    rfl
  dispatch := fun hi _ _ _ hof label ↦ by
    refine ⟨?_, extends_of_mapOperand hof⟩
    rw [h.dispatch hi hof, Run.step_underway_perform_nil (.inr rfl), Run.step_underway_reply]
    rfl

/-! ### Appearances -/

theorem observeAs_of_error {p : Predicate CellId} {problem : Problem}
    (h : s.world.observePredicate locals p = .error problem) (name : String) :
    observeAs name p locals s = (.error (.problem problem), s) := by
  refine (Act.bind_of_ok (Act.get_eq s)).trans (Act.bind_of_error ?_)
  rw [h]
  rfl

theorem observeAs_of_ok {p : Predicate CellId} {opened : SignalId × World Handler}
    (h : s.world.observePredicate locals p = .ok opened) (name : String) :
    observeAs name p locals s = (.ok (opened.2.truth opened.1), s.keeping name opened) := by
  have hopened : sound (s.world.observePredicate locals p) s = (.ok opened, s) := by
    rw [h]
    rfl
  exact (Act.bind_of_ok (Act.get_eq s)).trans (Act.bind_of_ok hopened)

theorem run_observe_of_some (hi : r.session.interactions = some i)
    (hof : mapOperand of r.session = (.ok locals, s)) {reaction : Reaction CellId}
    (hr : i.reaction? target kind = some reaction) (name : String) (inHand : List CellId) :
    (Command.interactions (.observe name target kind of)).run inHand r.session =
      match s.world.observePredicate locals reaction.predicate with
      | .error problem => (.error (.problem problem), s)
      | .ok opened =>
        (.ok (.reply (.observed true (opened.2.truth opened.1))), s.keeping name opened) := by
  refine (Act.bind_of_ok (declared_of_some hi)).trans ((Act.bind_of_ok hof).trans ?_)
  rw [hr]
  cases hopened : s.world.observePredicate locals reaction.predicate with
  | error problem => exact Act.bind_of_error (observeAs_of_error hopened name)
  | ok opened => exact Act.bind_of_ok (observeAs_of_ok hopened name)

/-- Without a reaction, the signal of a formula that is constantly false is kept. -/
theorem run_observe_of_none (hi : r.session.interactions = some i)
    (hof : mapOperand of r.session = (.ok locals, s)) (hr : i.reaction? target kind = none)
    (name : String) (inHand : List CellId) :
    (Command.interactions (.observe name target kind of)).run inHand r.session =
      (.ok (.reply (.observed false false)),
        s.keeping name (s.world.openSignal (.const false))) := by
  refine (Act.bind_of_ok (declared_of_some hi)).trans ((Act.bind_of_ok hof).trans ?_)
  rw [hr]
  rfl

/-- If it is asked how a target looks, this predicate is observed over local values. What cannot be
observed is a problem, and then nothing has been done but to make local values. -/
structure Looks (i : Interactions CellId CellId) (target kind : String) (p : Predicate CellId) :
    Prop where
  /-- In a script, if no signal is kept under the description. -/
  script (stage : Stage) (hi : stage.interactions = i) (entries : List (String × Payload))
      (hnew : stage.signals.get? (Stage.description target kind entries) = none) :
    stage.observe target kind entries =
      match (stage.createMap entries).2.world.observePredicate (stage.createMap entries).1 p with
      | .error problem => (stage.createMap entries).2.fails problem
      | .ok opened =>
        (stage.createMap entries).2.keep (Stage.description target kind entries) opened
  refused {r : Session.Run} (hi : r.session.interactions = some i) {of : MapOperand}
      {locals : ValueMap} {s : Session} (hof : mapOperand of r.session = (.ok locals, s))
      {problem : Problem} (hp : s.world.observePredicate locals p = .error problem) (name : String)
      (label : Option String) :
    r.enter label (.interactions (.observe name target kind of)) =
        r.underway label s (.reply (.problem problem)) ∧
      r.session.Extends s
  shown {r : Session.Run} (hi : r.session.interactions = some i) {of : MapOperand}
      {locals : ValueMap} {s : Session} (hof : mapOperand of r.session = (.ok locals, s))
      {opened : SignalId × World Handler} (hp : s.world.observePredicate locals p = .ok opened)
      (name : String) (label : Option String) :
    r.enter label (.interactions (.observe name target kind of)) =
      r.underway label (s.keeping name opened)
        (.reply (.observed true (opened.2.truth opened.1)))

theorem looks_of_reaction? {reaction : Reaction CellId}
    (hr : i.reaction? target kind = some reaction) : i.Looks target kind reaction.predicate where
  script := fun stage hi entries hnew ↦ by
    subst hi
    rewrite [Stage.observe, hnew, hr]
    rfl
  refused := fun hi _ _ _ hof _ hp name label ↦ by
    refine ⟨Run.enter_of_refused (fun inHand ↦ ?_) label, extends_of_mapOperand hof⟩
    rw [run_observe_of_some hi hof hr name inHand, hp]
  shown := fun hi _ _ _ hof _ hp name ↦ Run.enter_of_run fun inHand ↦ by
    rw [run_observe_of_some hi hof hr name inHand, hp]

/-- If it is asked how a target looks, the answer is that nothing shows, and what is kept is the
signal of a formula that is constantly false. -/
structure Blank (i : Interactions CellId CellId) (target kind : String) : Prop where
  /-- In a script, if no signal is kept under the description. -/
  script (stage : Stage) (hi : stage.interactions = i) (entries : List (String × Payload))
      (hnew : stage.signals.get? (Stage.description target kind entries) = none) :
    stage.observe target kind entries =
      ⟨(stage.keep (Stage.description target kind entries)
        (stage.world.openSignal (.const false))).stage, some false⟩
  shown {r : Session.Run} (hi : r.session.interactions = some i) {of : MapOperand}
      {locals : ValueMap} {s : Session} (hof : mapOperand of r.session = (.ok locals, s))
      (name : String) (label : Option String) :
    r.enter label (.interactions (.observe name target kind of)) =
      r.underway label (s.keeping name (s.world.openSignal (.const false)))
        (.reply (.observed false false))

theorem blank_of_reaction? (hr : i.reaction? target kind = none) : i.Blank target kind where
  script := fun stage hi entries hnew ↦ by
    have hfalse :
        (stage.world.openSignal (.const false)).2.truth stage.world.signals.next = false :=
      (Activity.standsFor_openSignal (.const false) stage.world []).truth_eq_false
    subst hi
    rw [Stage.observe, hnew, hr]
    exact congrArg (fun b ↦ Result.mk _ (some b)) hfalse
  shown := fun hi _ _ _ hof name ↦
    Run.enter_of_run (run_observe_of_none hi hof hr name)

end Interactions

/-- **What shows nothing goes on showing nothing**: a signal that a session has come to keep for a
formula that is constantly false never turns, and nobody is told of it but that it is false. -/
theorem Session.mute_of_keeping {s : Session} (ho : s.world.Orderly)
    {stack : List (Work Handler)}
    (hstack : ∀ truth rest, .tellSignal s.world.signals.next truth rest ∉ stack) (name : String)
    {es : List Happening} {b : Activity Handler}
    (h : Activity.Run Activity.anything
      ⟨(s.keeping name (s.world.openSignal (.const false))).world, stack⟩ es b) :
    b.world.truth s.world.signals.next = false ∧ turnings s.world.signals.next es = [] ∧
      ∀ t, ∀ x ∈ heard s.world.signals.next t es, x = false := by
  have hopened : (s.world.openSignal (.const false)).2.Orderly :=
    ho.openSignal fun _ ht ↦ absurd ht List.not_mem_nil
  have hmute := (h.of_letGo (fun _ _ ↦ trivial) _).mute hopened (Activity.mute_openSignal hstack)
  exact ⟨hmute.stands.truth_eq_false, hmute.turnings, hmute.heard⟩

/-! ### Scripts -/

namespace Simulation

open Wire

namespace Stage

/-- The same stage with other interactions. -/
def declaring (s : Stage) (i : Interactions CellId CellId) : Stage := { s with interactions := i }

end Stage

/-- The same on a stage with other interactions. -/
def Result.declaring (r : Result) (i : Interactions CellId CellId) : Result :=
  { r with stage := r.stage.declaring i }

namespace Stage

variable {i : Interactions CellId CellId} {s : Stage}

/-- What comes of a step leaves the interactions as they are. -/
theorem interactions_play (s : Stage) (table : List String) (step : Step) :
    (s.play table step).stage.interactions = s.interactions := by
  cases step with
  | update target kind locals =>
    rw [play]
    split <;> rfl
  | set key value =>
    rw [play]
    split
    · rfl
    · rw [set]
      split
      · rfl
      · rfl
      · split <;> rfl
  | observe target kind locals =>
    rw [play]
    split
    · rfl
    · rw [observe]
      dsimp only
      split
      · rfl
      · split
        · rfl
        · split <;> rfl
  | advance ms => rfl

theorem set_declaring (s : Stage) (i : Interactions CellId CellId) (key : String) (p : Payload) :
    (s.declaring i).set key p = (s.set key p).declaring i := by
  have hworld : (s.declaring i).world = s.world := rfl
  rw [set, set, hworld]
  cases s.world.global? key with
  | error problem => rfl
  | ok found =>
    cases found with
    | none => rfl
    | some c =>
      dsimp only
      cases Payload.fold ⟨false, true⟩ (s.world.payload c) p with
      | none => rfl
      | some q => rfl

theorem observe_declaring {target kind : String}
    (h : i.reaction? target kind = s.interactions.reaction? target kind)
    (entries : List (String × Payload)) :
    (s.declaring i).observe target kind entries = (s.observe target kind entries).declaring i := by
  have hsignals : (s.declaring i).signals = s.signals := rfl
  have hfound : (s.declaring i).interactions.reaction? target kind =
      s.interactions.reaction? target kind := h
  rw [observe, observe, hsignals, hfound]
  dsimp only
  cases s.signals.get? (description target kind entries) with
  | some signal => rfl
  | none =>
    dsimp only
    cases s.interactions.reaction? target kind with
    | none => rfl
    | some reaction =>
      have hcreated : (s.declaring i).createMap entries =
        ((s.createMap entries).1, (s.createMap entries).2.declaring i) := rfl
      rw [hcreated]
      have hworld : ((s.createMap entries).2.declaring i).world = (s.createMap entries).2.world :=
        rfl
      dsimp only
      rw [hworld]
      cases (s.createMap entries).2.world.observePredicate (s.createMap entries).1
        reaction.predicate with
      | error problem => rfl
      | ok opened => rfl

/-- **A step does the same** with interactions in which the same is found. -/
theorem play_declaring (hactions : ∀ target kind, i.action? target kind =
      s.interactions.action? target kind)
    (hreactions : ∀ target kind, i.reaction? target kind = s.interactions.reaction? target kind)
    (table : List String) (step : Step) :
    (s.declaring i).play table step = (s.play table step).declaring i := by
  cases step with
  | update target kind locals =>
    rw [play, play]
    cases Tagged.payloads table locals with
    | error m => rfl
    | ok entries =>
      dsimp only
      rw [update, declaring, hactions]
      rfl
  | set key value =>
    rw [play, play]
    cases value.payload table with
    | error m => rfl
    | ok p => exact s.set_declaring i key p
  | observe target kind locals =>
    rw [play, play]
    cases Tagged.payloads table locals with
    | error m => rfl
    | ok entries => exact observe_declaring (hreactions target kind) entries
  | advance ms => rfl

/-- **So does a script.** -/
theorem reports_declaring (hactions : ∀ target kind, i.action? target kind =
      s.interactions.action? target kind)
    (hreactions : ∀ target kind, i.reaction? target kind = s.interactions.reaction? target kind)
    (table : List String) (steps : List Step) :
    (s.declaring i).reports table steps = s.reports table steps := by
  induction steps generalizing s with
  | nil => rfl
  | cons step rest ih =>
    rw [reports, reports, play_declaring hactions hreactions]
    have hinteractions := s.interactions_play table step
    have hrest := ih (s := (s.play table step).stage.drain.2) (hinteractions.symm ▸ hactions)
      (hinteractions.symm ▸ hreactions)
    exact congrArg (List.cons _) hrest

end Stage

end Simulation

namespace Interactions

open Session Simulation

/-- What interactions come to that have been built. -/
structure Dispatches (i : Interactions CellId CellId) : Prop where
  /-- If something happens to a target, the updates of the action that is declared for that are run,
  and if it is asked how it looks, the predicate of the reaction that is declared for that is
  observed. -/
  acts : ∀ a ∈ i.actions, i.Acts a.target a.kind a.updates
  looks : ∀ r ∈ i.reactions, i.Looks r.target r.kind r.predicate
  /-- If nothing is declared for it, nothing happens, and nothing shows. -/
  idles : ∀ target kind, (target, kind) ∉ i.actionBindings → i.Idles target kind
  blank : ∀ target kind, (target, kind) ∉ i.reactionBindings → i.Blank target kind
  /-- The same declarations in another order can be built as well and come to the same, and so does
  every script. -/
  reordered : ∀ i' : Interactions CellId CellId, i.Reorders i' → i'.build = .ok i' ∧
    (∀ a ∈ i.actions, i'.Acts a.target a.kind a.updates) ∧
    (∀ r ∈ i.reactions, i'.Looks r.target r.kind r.predicate) ∧
    ∀ stage : Stage, stage.interactions = i → ∀ table steps,
      (stage.declaring i').reports table steps = stage.reports table steps

theorem dispatches_of_distinct {i : Interactions CellId CellId} (h : i.Distinct) :
    i.Dispatches where
  acts := fun _ ha ↦ acts_of_mem h ha
  looks := fun _ hr ↦ looks_of_reaction? ((reaction?_eq_some_iff h).2 ⟨hr, rfl⟩)
  idles := fun _ _ hnot ↦ (acts_of_not_mem hnot).idles
  blank := fun _ _ hnot ↦ blank_of_reaction? (reaction?_eq_none_iff.2 hnot)
  reordered := fun i' hreorders ↦ by
    have h' := hreorders.distinct h
    refine ⟨build_eq_ok_iff.2 ⟨rfl, h'⟩, fun a ha ↦ acts_of_mem h' (hreorders.actions.mem_iff.1 ha),
      fun r hr ↦ looks_of_reaction? ((reaction?_eq_some_iff h').2
        ⟨hreorders.reactions.mem_iff.1 hr, rfl⟩), ?_⟩
    rintro stage rfl table steps
    exact Stage.reports_declaring (hreorders.action? h) (hreorders.reaction? h) table steps

/-- **What is declared once is what is dispatched to.** Interactions are built exactly if no two
actions, no two reactions and no two watches are bound to the same; otherwise the first declaration
that repeats one before it is named in a fatal problem, actions coming before reactions and these
before watches. Once they are built, each target and kind leads to the one declaration for it, in
whatever order all are declared. Without a declaration nothing happens and nothing shows, however
long one looks. -/
theorem dispatched_to_one :
    (∀ {α β : Type} (i : Interactions α β),
        (∀ i', i.build = .ok i' ↔ i' = i ∧ i.Distinct) ∧
        ∀ p, i.build = .error p ↔
          ∃ what name, i.Repeats what name ∧ p = .repeatedDeclaration what name) ∧
      (∀ what name, (Problem.repeatedDeclaration what name).severity = .fatal ∧
        (Problem.repeatedDeclaration what name).message =
          what.name ++ " '" ++ name ++ "' is declared more than once") ∧
      (∀ i : Interactions CellId CellId, i.build = .ok i → i.Dispatches) ∧
      ∀ s : Session, s.world.Orderly → ∀ stack,
        (∀ truth rest, .tellSignal s.world.signals.next truth rest ∉ stack) →
          ∀ name es b, Activity.Run Activity.anything
            ⟨(s.keeping name (s.world.openSignal (.const false))).world, stack⟩ es b →
              b.world.truth s.world.signals.next = false ∧
                turnings s.world.signals.next es = [] ∧
                ∀ t, ∀ x ∈ heard s.world.signals.next t es, x = false :=
  ⟨fun _ ↦ ⟨fun _ ↦ build_eq_ok_iff, fun _ ↦ build_eq_error_iff⟩, fun _ _ ↦ ⟨rfl, rfl⟩,
    fun _ h ↦ dispatches_of_distinct (build_eq_ok_iff.1 h).2,
    fun _ ho _ hstack name _ _ h ↦ mute_of_keeping ho hstack name h⟩

/-! ### Two bindings that read the same -/

/-- The door of a room is opened, and in the room a door is: the bindings differ, but not their
names. -/
def lookalikes : Interactions CellId CellId :=
  ⟨[⟨"room/door", "open", [.clear [.fromGlobal "x"]]⟩,
      ⟨"room", "door/open", [.clear [.fromGlobal "y"]]⟩],
    [⟨"room", "door/open", .const true⟩], []⟩

/-- A session that has been asked for something that is not declared. -/
def asked : Session :=
  let s := ofGlobals [] false
  s.keeping "n" (s.world.openSignal (.const false))

/-- Both are told apart, whichever comes first, and what is not declared shows nothing. -/
theorem dispatched_to_one_lookalikes :
    lookalikes.Acts "room" "door/open" [.clear [.fromGlobal "y"]] ∧
      lookalikes.Looks "room" "door/open" (.const true) ∧ lookalikes.Idles "room" "open" ∧
      lookalikes.Blank "room/door" "open" ∧
      Interactions.Acts { lookalikes with actions := lookalikes.actions.reverse } "room"
        "door/open" [.clear [.fromGlobal "y"]] ∧
      (asked.world.subscribe 0 ⟨none, []⟩).2.truth 0 = false := by
  obtain ⟨-, -, hdispatches, hmute⟩ := dispatched_to_one
  have h := hdispatches lookalikes rfl
  have hreorders : lookalikes.Reorders
      { lookalikes with actions := lookalikes.actions.reverse } :=
    ⟨(List.reverse_perm _).symm, .refl _, .refl _⟩
  refine ⟨h.acts _ (List.mem_cons_of_mem _ List.mem_cons_self), h.looks _ List.mem_cons_self,
    h.idles _ _ (by decide), h.blank _ _ (by decide),
    (h.reordered _ hreorders).2.1 _ (List.mem_cons_of_mem _ List.mem_cons_self), ?_⟩
  have ho : (ofGlobals [] false).world.Orderly := orderly_start.spares (spares_listen _ _)
  have hrun : Activity.Run Activity.anything ⟨asked.world, []⟩ _ _ :=
    (Activity.Run.refl _).deed (.subscribe 0 ⟨none, []⟩) (show asked.world.Lives 0 by decide)
      trivial
  exact (hmute _ ho [] (fun _ _ ↦ List.not_mem_nil) "n" _ _ hrun).1

end Interactions

end LiveTemplate
