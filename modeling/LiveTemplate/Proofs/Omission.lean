import LiveTemplate.Proofs.Repetition
import LiveTemplate.Proofs.Schema

/-!
# Questions leave no trace

To ask how a target looks opens a signal, which observes cells and may set timers later on. None of
that comes back: a script whose questions are left out does to the globals what it did, and has the
same problems (`reports_of_omission`).

A step puts the problem that it raises into the sink (`sink_of_raises`), and no other
(`gathers_play`). As the sink is drained after each step, it is empty before the next one, so a
problem is reported of the step that raised it, once, and of no other.

Two stages are in step if the globals and the literals hold the same in both (`InStep`). A question
keeps them so, whatever it opens, and any other step does the same in both. Only the cells of local
values are other ones, since questions use up cells; so an action is run in worlds that are alike but
for their numbers (`alike_createAll`).
-/

namespace LiveTemplate

namespace Engine.World

variable {η : Type} {w w' : World η} {P : CellId → Prop}

/-! ### Time and values -/

theorem values_completeAll {xs : List (Work η)} (hxs : ∀ x ∈ xs, x.level < 3) (w : World η) :
    (w.completeAll xs).world.values = w.values :=
  rel_completeAll (R := fun w w' ↦ w'.values = w.values) (fun _ ↦ rfl) (fun h h' ↦ h'.trans h)
    (fun x hx w ↦ values_complete w (hxs x hx)) w

/-- **That time passes changes no value.** -/
theorem values_pass (n : Nat) (w : World η) (target : UInt64) :
    (pass n w target).world.values = w.values := by
  induction n generalizing w with
  | zero => rfl
  | succ n ih =>
    cases hdue : w.clock.takeDue? target with
    | none => simp only [pass, hdue]; rfl
    | some due =>
      obtain ⟨timer, clock⟩ := due
      simp only [pass, hdue]
      rw [ih]
      cases timer.task with
      | handler h => rfl
      | expire s place =>
        -- The end of a window can turn a signal, and all that is left then is to tell of it.
        have hlevel : ∀ x ∈ (expire { w with clock } s place).2, x.level < 3 := fun x hx ↦ by
          rw [level_of_mem_setTerm hx]
          exact Nat.succ_pos 2
        exact (values_completeAll hlevel _).trans (values_setTerm _ s place _)

theorem outcome_pass (n : Nat) (w : World η) (target : UInt64) :
    (pass n w target).outcome = .ok () := by
  cases n with
  | zero => rfl
  | succ n =>
    unfold pass
    split <;> rfl

/-! ### New cells -/

/-- Cells below `n` keep their numbers, and those from `n` on are counted from `n'`. -/
def renumber (n n' c : Nat) : Nat := if c < n then c else n' + (c - n)

theorem map_renumber_range' (n n' len : Nat) :
    (List.range' n len).map (renumber n n') = List.range' n' len := by
  refine List.ext_getElem (by simp) fun i _ _ ↦ ?_
  have hnew : ¬n + i < n := by omega
  simp [renumber, hnew]

theorem eq_of_renumber_eq {n n' c c' : Nat} (hc : c < n → c < n')
    (hc' : c' < n → c' < n') (h : renumber n n' c = renumber n n' c') : c = c' := by
  unfold renumber at h
  split at h <;> split at h <;> omega

theorem lt_next_of_hasCell (hw : w.cells.Tight) {c : CellId} (hc : w.HasCell c) :
    c < w.cells.next := by
  obtain ⟨cell, hcell⟩ := Option.isSome_iff_exists.1 hc
  exact hw c cell hcell

/-- **Worlds that are alike stay so when cells for the same entries are made in both**, though they
have other numbers. -/
theorem alike_createAll (h : Alike id P w w') (hw : w.cells.Tight) (hw' : w'.cells.Tight)
    (hold : ∀ c, P c → w.HasCell c) (entries : List (String × Payload)) :
    Alike (renumber w.cells.next w'.cells.next)
        (fun c ↦ P c ∨ c ∈ List.range' w.cells.next entries.length)
        (w.createAll entries).2 (w'.createAll entries).2 ∧
      OrderedMap.ofList (w'.createAll entries).1
        = (OrderedMap.ofList (w.createAll entries).1).map
            (renumber w.cells.next w'.cells.next) ∧
      ∀ c ∈ (OrderedMap.ofList (w.createAll entries).1).values,
        c ∈ List.range' w.cells.next entries.length := by
  have hlength : (entries.map Prod.snd).length = entries.length := List.length_map _
  have hspares := spares_createMany hw (entries.map Prod.snd)
  have hspares' := spares_createMany hw' (entries.map Prod.snd)
  obtain ⟨hcells, hpayloads⟩ := payload_createMany hw (entries.map Prod.snd)
  obtain ⟨hcells', hpayloads'⟩ := payload_createMany hw' (entries.map Prod.snd)
  rw [hlength] at hcells hpayloads hcells' hpayloads'
  rw [← map_renumber_range' w.cells.next, List.map_map] at hpayloads'
  have hnew := List.map_inj_left.1 (hpayloads'.trans hpayloads.symm)
  have hold' : ∀ c, P c → w'.HasCell c := fun c hc ↦ (h.hasCell c hc).2 (hold c hc)
  have hkeeps : ∀ c, P c → renumber w.cells.next w'.cells.next c = c := fun c hc ↦
    if_pos (lt_next_of_hasCell hw (hold c hc))
  -- A cell below the new ones is an old one, so no other is renumbered to it.
  have hbelow : ∀ c, P c ∨ c ∈ List.range' w.cells.next entries.length →
      c < w.cells.next → c < w'.cells.next := by
    rintro c (hc | hc) hlt
    · exact lt_next_of_hasCell hw' (hold' c hc)
    · exact absurd (List.mem_range'_1.1 hc).1 (Nat.not_le.2 hlt)
  rw [createAll_eq, createAll_eq]
  refine ⟨⟨?_, ?_, ?_, ?_, ?_, ?_⟩, ?_, ?_⟩
  · rintro c (hc | hc)
    · rw [hkeeps c hc, (hspares'.payload c (hold' c hc)).2, (hspares.payload c (hold c hc)).2]
      exact h.payload c hc
    · exact hnew c hc
  · rintro c (hc | hc)
    · rw [hkeeps c hc]
      exact iff_of_true (hspares'.payload c (hold' c hc)).1 (hspares.payload c (hold c hc)).1
    · refine iff_of_true (hcells' _ ?_) (hcells c hc)
      rw [← map_renumber_range' w.cells.next]
      exact List.mem_map_of_mem hc
  · intro c c' hc hc' heq
    exact eq_of_renumber_eq (hbelow c hc) (hbelow c' hc') heq
  · rw [createMany_eq, createMany_eq w]
    exact h.published
  · intro key
    rw [createMany_eq, createMany_eq w]
    show w'.globals.get? key = (w.globals.get? key).map _
    rw [h.get? key]
    cases hkey : w.globals.get? key with
    | none => rfl
    | some c => exact congrArg some (hkeeps c (h.global key c hkey)).symm
  · intro key c hkey
    rw [createMany_eq w] at hkey
    exact .inl (h.global key c hkey)
  · rw [OrderedMap.map_ofList, ← map_renumber_range' w.cells.next, List.zip_map_right]
    rfl
  · intro c hc
    obtain ⟨e, he, rfl⟩ := List.mem_map.1 hc
    exact (List.of_mem_zip (OrderedMap.mem_of_mem_ofList he)).2

end Engine.World

namespace Simulation

open Engine World Wire

/-- Whether a step asks how a target looks. -/
def Step.asks : Step → Bool
  | .observe _ _ _ => true
  | _ => false

namespace Stage

variable {s s' r r' : Stage} {table : List String} {step : Step}

/-- The cells that steps have in common: those of the globals and of the literals. -/
def Keeps (s : Stage) (c : CellId) : Prop :=
  c ∈ s.world.globals.values ∨ c ∈ s.interactions.literals

theorem Sound.hasCell (hs : s.Sound) {c : CellId} (hc : s.Keeps c) : s.world.HasCell c :=
  hc.elim (hs.global c) (hs.literal c)

theorem Continues.globals (h : Continues s s') (hs : s.Sound) :
    s'.world.globals = s.world.globals := by
  obtain ⟨-, es, hrun⟩ := h
  exact (hrun.globals hs.orderly hs.published).2

/-! ### Stages in step -/

/-- Two stages are in step: the globals and the literals hold the same in both, and no problem is
left to be reported. -/
structure InStep (s s' : Stage) : Prop where
  sound : s.Sound
  sound' : s'.Sound
  sink : s.sink = []
  sink' : s'.sink = []
  interactions : s'.interactions = s.interactions
  globals : s'.world.globals = s.world.globals
  payload : ∀ c, s.Keeps c → s'.world.payload c = s.world.payload c

theorem InStep.refl (hs : s.Sound) (hsink : s.sink = []) : InStep s s :=
  ⟨hs, hs, hsink, hsink, rfl, rfl, fun _ _ ↦ rfl⟩

theorem InStep.globals_eq (h : InStep s s') : s'.globals = s.globals := by
  rw [Stage.globals, Stage.globals, h.globals]
  exact OrderedMap.map_congr fun c hc ↦ h.payload c (.inl hc)

theorem InStep.alike (h : InStep s s') : Alike id s.Keeps s.world s'.world where
  payload := h.payload
  hasCell c hc := by
    have hc' : s'.Keeps c := by
      rw [Keeps, h.globals, h.interactions]
      exact hc
    exact iff_of_true (h.sound'.hasCell hc') (h.sound.hasCell hc)
  injective _ _ _ _ := id
  published := h.sound'.published.trans h.sound.published.symm
  get? key := by rw [h.globals, Option.map_id, id_eq]
  global _ _ hkey := .inl (OrderedMap.mem_values_of_get? hkey)

/-- Stages that were in step go on to others that hold the same. -/
theorem InStep.continues (h : InStep s s') (hr : Continues s r) (hr' : Continues s' r')
    (hsink : r.sink = []) (hsink' : r'.sink = [])
    (hpayload : ∀ c, s.Keeps c → r'.world.payload c = r.world.payload c) : InStep r r' where
  sound := hr.sound h.sound
  sound' := hr'.sound h.sound'
  sink := hsink
  sink' := hsink'
  interactions := by rw [hr'.interactions, h.interactions, hr.interactions]
  globals := by rw [hr'.globals h.sound', h.globals, hr.globals h.sound]
  payload c hc := by
    rw [Keeps, hr.globals h.sound, hr.interactions] at hc
    exact hpayload c hc

/-! ### Questions -/

/-- **To ask changes nothing that there was before.** -/
theorem payload_observe (hs : s.Sound) (q : Question) {c : CellId} (hc : s.world.HasCell c) :
    (s.observe q.target q.kind q.locals).stage.world.payload c = s.world.payload c := by
  have hobserved := s.observed_observe q
  generalize s.observe q.target q.kind q.locals = result at *
  cases hobserved with
  | again => rfl
  | unbound => exact payload_of_values (values_openSignal _ _) c
  | failed => exact ((s.spares_createMap hs q.locals).payload c hc).2
  | bound =>
    exact (payload_of_values (values_openSignal _ _) c).trans
      ((s.spares_createMap hs q.locals).payload c hc).2

theorem payload_of_asks (hs : s.Sound) (hstep : step.asks) {c : CellId} (hc : s.world.HasCell c) :
    (s.play table step).stage.world.payload c = s.world.payload c := by
  cases step with
  | observe target kind locals =>
    rw [play]
    split
    · rfl
    · exact payload_observe hs ⟨target, kind, _⟩ hc
  | _ => cases hstep

/-- **A question keeps stages in step.** -/
theorem InStep.of_asks (h : InStep s s') (table : List String) (hstep : step.asks) :
    InStep (s.play table step).stage.drain.2 s' :=
  h.continues ((s.continues_play h.sound table step).sink []) (.refl s') rfl h.sink' fun c hc ↦
    (h.payload c hc).trans (payload_of_asks h.sound hstep (h.sound.hasCell hc)).symm

/-! ### Other steps -/

/-- Two results have the same problems in the sink, and hold the same. -/
structure SameResult (s : Stage) (done done' : Result) : Prop where
  sink : done'.stage.sink = done.stage.sink
  payload : ∀ c, s.Keeps c → done'.stage.world.payload c = done.stage.world.payload c

theorem InStep.same_sink (h : InStep s s') : s'.sink = s.sink := h.sink'.trans h.sink.symm

theorem InStep.fails (h : InStep s s') (p : Problem) : SameResult s (s.fails p) (s'.fails p) :=
  ⟨congrArg (· ++ [p]) h.same_sink, h.payload⟩

/-- Work that changes no values, done in worlds that are alike. -/
theorem SameResult.after {g : CellId → CellId} {P : CellId → Prop} {done done' : Completion Empty}
    (halike : Alike g P done.world done'.world) (hP : ∀ c, s.Keeps c → P c ∧ g c = c)
    (hsink : r'.sink = r.sink) (houtcome : done'.outcome = done.outcome) :
    SameResult s (r.after done) (r'.after done') where
  sink := by
    show r'.sink ++ _ = r.sink ++ _
    rw [hsink, houtcome]
  payload c hc := by
    obtain ⟨hc, hname⟩ := hP c hc
    have hpayload := halike.payload c hc
    rwa [hname] at hpayload

/-- **Time passes in the same way.** -/
theorem InStep.advance (h : InStep s s') (ms : UInt64) :
    SameResult s (s.advance ms) (s'.advance ms) :=
  .after (h.alike.of_values (values_pass _ _ _) (values_pass _ _ _)) (fun _ hc ↦ ⟨hc, rfl⟩)
    h.same_sink ((outcome_pass _ _ _).trans (outcome_pass _ _ _).symm)

theorem completed_write (w : World Empty) (c : CellId) (q : Payload) :
    ((w.write c q).2.1.completeAll (w.write c q).2.2).outcome = .ok () ∧
      ((w.write c q).2.1.completeAll (w.write c q).2.2).world.values = (w.write c q).2.1.values := by
  have hlevel : ∀ x ∈ (w.write c q).2.2, Work.level x < 3 := fun x hx ↦ by
    rw [level_of_mem_write hx]
    exact Nat.lt_succ_self 2
  exact ⟨outcome_completeAll (fun x hx w ↦ outcome_complete w (hlevel x hx)) _,
    values_completeAll hlevel _⟩

theorem global?_eq (hs : s.Sound) (key : String) :
    s.world.global? key = match s.world.globals.get? key with
      | some c => .ok (some c)
      | none => .error (.unknownGlobal key) :=
  if_pos hs.published

/-- **A global is set in the same way.** -/
theorem InStep.set (h : InStep s s') (key : String) (p : Payload) :
    SameResult s (s.set key p) (s'.set key p) := by
  unfold Stage.set
  rw [global?_eq h.sound, global?_eq h.sound', h.globals]
  cases hkey : s.world.globals.get? key with
  | none => exact h.fails _
  | some c =>
    have hc : s.Keeps c := .inl (OrderedMap.mem_values_of_get? hkey)
    dsimp only
    rw [h.payload c hc]
    cases Payload.fold ⟨false, true⟩ (s.world.payload c) p with
    | none => exact h.fails _
    | some q =>
      obtain ⟨houtcome, hvalues⟩ := completed_write s.world c q
      obtain ⟨houtcome', hvalues'⟩ := completed_write s'.world c q
      have hedit := h.alike.edit (Edit.of_some hc q)
      exact .after (hedit.of_values hvalues hvalues') (fun _ hc ↦ ⟨hc, rfl⟩) h.same_sink
        (houtcome'.trans houtcome.symm)

/-- **An action is run in the same way**, over local values in other cells. -/
theorem InStep.update (h : InStep s s') (target kind : String) (entries : List (String × Payload)) :
    SameResult s (s.update target kind entries) (s'.update target kind entries) := by
  have hold : ∀ c, s.Keeps c → s.world.HasCell c := fun c ↦ h.sound.hasCell
  obtain ⟨halike, hlocals, hnew⟩ := alike_createAll h.alike h.sound.orderly.cells
    h.sound'.orderly.cells hold entries
  have hname : ∀ c, s.Keeps c → renumber s.world.cells.next s'.world.cells.next c = c := fun c hc ↦
    if_pos (lt_next_of_hasCell h.sound.orderly.cells (hold c hc))
  -- An action refers to cells by its literals only, and those keep their numbers.
  have hstay : Stay (renumber s.world.cells.next s'.world.cells.next)
      (fun c ↦ s.Keeps c ∨ c ∈ List.range' s.world.cells.next entries.length)
      (Update.allReferences (s.interactions.updates target kind)) := by
    intro ref href c hc
    have hliteral : s.Keeps c := by
      refine .inr ?_
      rw [Interactions.literals_eq]
      exact List.mem_flatMap.2 ⟨ref, s.interactions.references_updates target kind href, hc⟩
    exact ⟨.inl hliteral, hname c hliteral⟩
  have horderly : (s.world.createAll entries).2.Orderly :=
    h.sound.orderly.spares (s.spares_createMap h.sound entries)
  obtain ⟨houtcome, hafter⟩ := apply_of_alike halike horderly (fun c hc ↦ .inr (hnew c hc)) hstay
  rw [← hlocals] at houtcome hafter
  have hdone : SameResult s (s.after _) (s'.after _) :=
    .after hafter (fun c hc ↦ ⟨.inl hc, hname c hc⟩) h.same_sink houtcome
  unfold Stage.update
  rw [h.interactions]
  exact hdone

/-- **What asks for nothing does the same in stages that are in step**, and keeps them so. -/
theorem InStep.play (h : InStep s s') (table : List String) (hstep : step.asks = false) :
    (s'.play table step).stage.sink = (s.play table step).stage.sink ∧
      InStep (s.play table step).stage.drain.2 (s'.play table step).stage.drain.2 := by
  have hsame : SameResult s (s.play table step) (s'.play table step) := by
    cases step with
    | update target kind locals =>
      rw [Stage.play, Stage.play]
      split
      · exact h.fails _
      · exact h.update target kind _
    | set key value =>
      rw [Stage.play, Stage.play]
      split
      · exact h.fails _
      · exact h.set key _
    | observe target kind locals => cases hstep
    | advance ms => exact h.advance ms
  exact ⟨hsame.sink, h.continues ((s.continues_play h.sound table step).sink [])
    ((s'.continues_play h.sound' table step).sink []) rfl rfl hsame.payload⟩

/-! ### Problems -/

/-- The problems that a step can raise at a stage. -/
inductive Raises (s : Stage) (table : List String) : Step → Problem → Prop
  /-- The local values of an event cannot be read. -/
  | event {target kind : String} {locals : List (String × Tagged)} {m : Misfit}
      (h : Tagged.payloads table locals = .error m) :
      Raises s table (.update target kind locals) (.misfit m)
  /-- The action that is run for an event fails. -/
  | action {target kind : String} {locals : List (String × Tagged)}
      {entries : List (String × Payload)} {p : Problem}
      (hread : Tagged.payloads table locals = .ok entries)
      (h : ((s.createMap entries).2.world.apply (s.interactions.updates target kind)
        (s.createMap entries).1).outcome = .error p) :
      Raises s table (.update target kind locals) p
  /-- What a global is to be set to cannot be read. -/
  | value {key : String} {value : Tagged} {m : Misfit} (h : value.payload table = .error m) :
      Raises s table (.set key value) (.misfit m)
  /-- There is no such global. -/
  | unknown {key : String} {value : Tagged} {p : Payload} (hread : value.payload table = .ok p)
      (h : s.world.globals.get? key = none) : Raises s table (.set key value) (.unknownGlobal key)
  /-- A global is of another kind. -/
  | unlike {key : String} {value : Tagged} {p : Payload} {c : CellId}
      (hread : value.payload table = .ok p) (hkey : s.world.globals.get? key = some c)
      (h : Payload.fold ⟨false, true⟩ (s.world.payload c) p = none) :
      Raises s table (.set key value) (.cannotAssign p.kind key (s.world.payload c).kind)
  /-- The local values of a question cannot be read. -/
  | question {target kind : String} {locals : List (String × Tagged)} {m : Misfit}
      (h : Tagged.payloads table locals = .error m) :
      Raises s table (.observe target kind locals) (.misfit m)
  /-- An operand of a reaction that has not been asked for before is not found. -/
  | operand {target kind : String} {locals : List (String × Tagged)}
      {entries : List (String × Payload)} {r : Reaction CellId} {p : Problem}
      (hread : Tagged.payloads table locals = .ok entries)
      (hnew : s.signals.get? (description target kind entries) = none)
      (hr : s.interactions.reaction? target kind = some r)
      (h : (s.createMap entries).2.world.bind (s.createMap entries).1 r.predicate = .error p) :
      Raises s table (.observe target kind locals) p

theorem sink_after_ok (s : Stage) {done : Completion Empty} (h : done.outcome = .ok ()) :
    (s.after done).stage.sink = s.sink := by
  rw [after_of_ok h]

theorem sink_after_error (s : Stage) {done : Completion Empty} {p : Problem}
    (h : done.outcome = .error p) : (s.after done).stage.sink = s.sink ++ [p] := by
  rw [after_of_error h]
  rfl

/-- **What a step raises, it puts into the sink.** -/
theorem sink_of_raises (hs : s.Sound) {p : Problem} (h : s.Raises table step p) :
    (s.play table step).stage.sink = s.sink ++ [p] := by
  cases h with
  | event h => rw [play, h]; rfl
  | action hread h => rw [play, hread]; exact sink_after_error _ h
  | value h => rw [play, h]; rfl
  | unknown hread h => simp only [play, hread, set, global?_eq hs, h]; rfl
  | unlike hread hkey h => simp only [play, hread, set, global?_eq hs, hkey, h]; rfl
  | question h => rw [play, h]; rfl
  | operand hread hnew hr h => simp only [play, hread, observe, hnew, hr, observePredicate, h]; rfl

/-- A step leaves the sink as it is, or it raises a problem and puts that into the sink. -/
def Gathers (s : Stage) (table : List String) (step : Step) (r : Result) : Prop :=
  r.stage.sink = s.sink ∨ ∃ p, r.stage.sink = s.sink ++ [p] ∧ s.Raises table step p

theorem gathers_set (hs : s.Sound) {key : String} {value : Tagged} {q : Payload}
    (hread : value.payload table = .ok q) : s.Gathers table (.set key value) (s.set key q) := by
  rw [Stage.set, global?_eq hs]
  cases hkey : s.world.globals.get? key with
  | none => exact .inr ⟨_, rfl, .unknown hread hkey⟩
  | some c =>
    dsimp only
    cases hfold : Payload.fold ⟨false, true⟩ (s.world.payload c) q with
    | none => exact .inr ⟨_, rfl, .unlike hread hkey hfold⟩
    | some q' => exact .inl (s.sink_after_ok (completed_write s.world c q').1)

theorem gathers_observe {target kind : String} {locals : List (String × Tagged)}
    {entries : List (String × Payload)} (hread : Tagged.payloads table locals = .ok entries) :
    s.Gathers table (.observe target kind locals) (s.observe target kind entries) := by
  have hobserved := s.observed_observe ⟨target, kind, entries⟩
  generalize s.observe target kind entries = result at *
  cases hobserved with
  | again => exact .inl rfl
  | unbound => exact .inl rfl
  | failed hnew hr hbind => exact .inr ⟨_, rfl, .operand hread hnew hr hbind⟩
  | bound => exact .inl rfl

/-- **A step puts nothing else into the sink.** -/
theorem gathers_play (hs : s.Sound) (table : List String) (step : Step) :
    s.Gathers table step (s.play table step) := by
  cases step with
  | update target kind locals =>
    rw [play]
    cases hread : Tagged.payloads table locals with
    | error m => exact .inr ⟨_, rfl, .event hread⟩
    | ok entries =>
      cases houtcome : ((s.createMap entries).2.world.apply (s.interactions.updates target kind)
        (s.createMap entries).1).outcome with
      | ok => exact .inl (sink_after_ok _ houtcome)
      | error p => exact .inr ⟨p, sink_after_error _ houtcome, .action hread houtcome⟩
  | set key value =>
    rw [play]
    cases hread : value.payload table with
    | error m => exact .inr ⟨_, rfl, .value hread⟩
    | ok q => exact gathers_set hs hread
  | observe target kind locals =>
    rw [play]
    cases hread : Tagged.payloads table locals with
    | error m => exact .inr ⟨_, rfl, .question hread⟩
    | ok entries => exact gathers_observe hread
  | advance ms => exact .inl (s.sink_after_ok (outcome_pass _ _ _))

/-- **If the sink is empty, it holds what a step raises after it**, which is one problem at most. -/
theorem mem_sink_play (hs : s.Sound) (hsink : s.sink = []) (table : List String) (step : Step) :
    (s.play table step).stage.sink.length ≤ 1 ∧
      ∀ p, p ∈ (s.play table step).stage.sink ↔ s.Raises table step p := by
  have hraised : ∀ p, s.Raises table step p → (s.play table step).stage.sink = [p] := fun p h ↦ by
    rw [sink_of_raises hs h, hsink, List.nil_append]
  refine ⟨?_, fun p ↦ ⟨fun h ↦ ?_, fun h ↦ hraised p h ▸ List.mem_singleton_self p⟩⟩
  · obtain h | ⟨p, -, hp⟩ := gathers_play hs table step
    · rw [h, hsink]
      exact Nat.zero_le 1
    · rw [hraised p hp]
      exact Nat.le_refl 1
  · obtain hsame | ⟨p', -, hp'⟩ := gathers_play hs table step
    · rw [hsame, hsink] at h
      exact absurd h List.not_mem_nil
    · rw [hraised p' hp'] at h
      rw [List.mem_singleton.1 h]
      exact hp'

theorem sink_afterAll (hsink : s.sink = []) (table : List String) (steps : List Step) :
    (s.afterAll table steps).sink = [] := by
  induction steps generalizing s with
  | nil => exact hsink
  | cons step rest ih => exact ih rfl

/-! ### Whole scripts -/

/-- The steps that ask for nothing. -/
def bare (steps : List Step) : List Step := steps.filter fun step ↦ !step.asks

/-- The reports of the steps that ask for nothing, each with its step. -/
def acting (steps : List Step) (reports : List Report) : List (Step × Report) :=
  (steps.zip reports).filter fun e ↦ !e.1.asks

theorem answer_of_not_asks (hs : s.Sound) (table : List String) (hstep : step.asks = false) :
    (s.play table step).answer = none := by
  refine (s.aside_of_question? hs ?_).answer
  cases step with
  | observe => cases hstep
  | _ => rfl

/-- **A script does what it does without its questions.** -/
theorem InStep.reports (h : InStep s s') (table : List String) (steps : List Step) :
    acting steps (s.reports table steps) = (bare steps).zip (s'.reports table (bare steps)) ∧
      InStep (s.afterAll table steps) (s'.afterAll table (bare steps)) := by
  -- At a question only the first stage goes on, and at any other step both do.
  induction steps generalizing s s' with
  | nil => exact ⟨rfl, h⟩
  | cons step rest ih =>
    cases hstep : step.asks with
    | true =>
      obtain ⟨hreports, hlast⟩ := ih (h.of_asks table hstep)
      have hbare : bare (step :: rest) = bare rest := List.filter_cons_of_neg (by simp [hstep])
      rw [hbare]
      refine ⟨?_, hlast⟩
      rw [← hreports]
      exact List.filter_cons_of_neg (by simp [hstep])
    | false =>
      obtain ⟨hsink, hnext⟩ := h.play table hstep
      obtain ⟨hreports, hlast⟩ := ih hnext
      have hbare : bare (step :: rest) = step :: bare rest :=
        List.filter_cons_of_pos (by simp [hstep])
      rw [hbare]
      refine ⟨?_, hlast⟩
      have hanswer := answer_of_not_asks h.sound table hstep
      have hanswer' := answer_of_not_asks h.sound' table hstep
      have hfirst : acting (step :: rest) (s.reports table (step :: rest)) =
          (step, ⟨step.label, (s.play table step).answer, (s.play table step).stage.sink,
            (s.play table step).stage.drain.2.globals⟩) ::
            acting rest ((s.play table step).stage.drain.2.reports table rest) :=
        List.filter_cons_of_pos (by simp [hstep])
      rw [hfirst, hreports, hanswer, ← hanswer', ← hsink, ← hnext.globals_eq]
      rfl

/-- The reports of the first steps do not depend on those that follow. -/
theorem reports_take (s : Stage) (table : List String) (steps : List Step) (n : Nat) :
    s.reports table (steps.take n) = (s.reports table steps).take n := by
  induction steps generalizing s n with
  | nil => simp [reports]
  | cons step rest ih =>
    cases n with
    | zero => rfl
    | succ n => exact congrArg (_ :: ·) (ih (s.play table step).stage.drain.2 n)

theorem globals_of_asks (hs : s.Sound) (hstep : step.asks) :
    (s.play table step).stage.globals = s.globals := by
  rw [Stage.globals, (s.continues_play hs table step).globals hs]
  exact OrderedMap.map_congr fun c hc ↦ payload_of_asks hs hstep (hs.global c hc)

end Stage

/-- **Questions leave no trace, and what is to come leaves none either.** Let two scripts differ in
their questions only. Then the other steps are reported in the same way in both, with the same
problems and the same globals after them, and the globals are the same in the end. The reports of the
first steps are those of the script that is cut off after them. Before each step the sink is empty,
and what the step puts into it is what is reported of the step: at most one problem, namely the one
that it raises at its stage. A question changes no global. -/
theorem reports_of_omission (d : Template.Document) (script : Script) :
    (∀ script', script'.strings = script.strings →
      Stage.bare script'.steps = Stage.bare script.steps →
        Stage.acting script'.steps (play d script') = Stage.acting script.steps (play d script) ∧
          (stageAt d script' script'.steps.length).globals
            = (stageAt d script script.steps.length).globals) ∧
      (∀ n, play d ⟨script.strings, script.steps.take n⟩ = (play d script).take n) ∧
      ∀ n step, script.steps[n]? = some step →
        ∃ report, (play d script)[n]? = some report ∧
          (stageAt d script n).sink = [] ∧
          report.problems = ((stageAt d script n).play script.strings step).stage.sink ∧
          report.problems.length ≤ 1 ∧
          (∀ p, p ∈ report.problems ↔ (stageAt d script n).Raises script.strings step p) ∧
          (step.asks → report.globals = (stageAt d script n).globals) := by
  refine ⟨fun script' hstrings hsteps ↦ ?_, fun n ↦ Stage.reports_take _ _ _ n,
    fun n step hstep ↦ ?_⟩
  · -- Both scripts are compared with the one that asks for nothing.
    have hinit := Stage.InStep.refl (Stage.sound_ofDocument d) rfl
    obtain ⟨hreports, hlast⟩ := hinit.reports script.strings script.steps
    obtain ⟨hreports', hlast'⟩ := hinit.reports script.strings script'.steps
    rw [hsteps] at hreports' hlast'
    constructor
    · rw [play, hstrings, play, hreports, hreports']
    · rw [stageAt, stageAt, List.take_length, List.take_length, hstrings, ← hlast'.globals_eq,
        hlast.globals_eq]
  · have hsound : (stageAt d script n).Sound :=
      (Stage.knows_afterAll (Stage.knows_ofDocument d) script.strings (script.steps.take n)).sound
    have hsink : (stageAt d script n).sink = [] := Stage.sink_afterAll rfl _ _
    have hreport := (Stage.ofDocument d).getElem?_reports script.strings script.steps n
    obtain ⟨hlength, hmem⟩ := Stage.mem_sink_play hsound hsink script.strings step
    rw [hstep] at hreport
    exact ⟨_, hreport, hsink, rfl, hlength, hmem, Stage.globals_of_asks hsound⟩

/-- A document with a reaction to recent changes. -/
def blinking : Template.Document where
  globals := .ofList [("x", .string "off")]
  interactions := {
    actions := []
    reactions := [⟨"lamp", "glow", .term (.changed (.fromGlobal "x") 100)⟩]
    watches := [] }

/-- A script that asks before and after the global changes. -/
def curious : Script where
  strings := ["on"]
  steps := [.observe "lamp" "glow" [], .set "x" ⟨.stringList, .array []⟩,
    .set "x" ⟨.stringIndex, .number (.natural 0)⟩, .advance 50, .observe "lamp" "glow" [],
    .advance 50]

/-- The same script without its questions. -/
def incurious : Script where
  strings := ["on"]
  steps := [.set "x" ⟨.stringList, .array []⟩, .set "x" ⟨.stringIndex, .number (.natural 0)⟩,
    .advance 50, .advance 50]

/-- Both are reported in the same way, down to the problem of the global that is set to a list. -/
theorem reports_of_omission_blinking :
    Stage.acting incurious.steps (play blinking incurious)
        = Stage.acting curious.steps (play blinking curious) ∧
      ∃ report, (play blinking curious)[1]? = some report ∧
        .cannotAssign .stringList "x" .string ∈ report.problems := by
  have hstrings : incurious.strings = curious.strings := rfl
  have hsteps : Stage.bare incurious.steps = Stage.bare curious.steps := rfl
  obtain ⟨homission, -, hstep⟩ := reports_of_omission blinking curious
  obtain ⟨hacting, -⟩ := homission incurious hstrings hsteps
  obtain ⟨report, hreport, -, -, -, hraises, -⟩ := hstep 1 _ rfl
  refine ⟨hacting, report, hreport, (hraises _).2 ?_⟩
  exact .unlike (p := .stringList []) (c := 0) rfl rfl rfl

end Simulation

end LiveTemplate
