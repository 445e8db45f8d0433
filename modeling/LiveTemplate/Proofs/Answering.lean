import LiveTemplate.Proofs.Staging

/-!
# What a script is answered

A signal that is kept for a question shows what a new look would show (`Shows.truth`). But it is kept
under a description, and questions that differ can have the same. What is answered is what a new look
would show to the one who asked first under the description (`answer_of_play`). So a step is answered
for its own target, kind and local values as long as no others were asked for under its
description.
-/

namespace LiveTemplate.Simulation

open Engine World

/-- Questions are the same if they are for the same target and kind, over the same local values. -/
structure Question.Same (q q' : Question) : Prop where
  target : q.target = q'.target
  kind : q.kind = q'.kind
  locals : OrderedMap.ofList q.locals = .ofList q'.locals

namespace Stage

/-! ### Looking at a signal that is kept -/

theorem truth_of_standsFor {s : Stage} (hs : s.Sound) {sig : SignalId} {f : Formula (Term CellId)}
    (hheld : Activity.Held sig ⟨s.world, []⟩) (hstands : Activity.StandsFor f sig ⟨s.world, []⟩)
    (hf : f.Timeless) : s.world.truth sig = f.eval (·.holds s.world.payload) :=
  Activity.truth_of_quiet hs.fresh (fun _ _ _ h ↦ absurd h List.not_mem_nil) hstands hf hheld.lives

/-- Local values that hold the same look the same, if nothing but cells has been added meanwhile. -/
theorem sameSight_of_spares {s : Stage} (hs : s.Sound) {target kind : String} {r : Reaction CellId}
    (hr : s.interactions.reaction? target kind = some r) {w w' : World Empty}
    {locals locals' : ValueMap} (hw : Spares s.world w) (hw' : Spares s.world w')
    (hlocals : locals'.map w'.payload = locals.map w.payload) :
    SameSight r.predicate.references w locals w' locals' where
  published := (hw'.globals hs.published).1.trans (hw.globals hs.published).1.symm
  global key := by
    rw [(hw.globals hs.published).2, (hw'.globals hs.published).2]
    cases hkey : s.world.globals.get? key with
    | none => rfl
    | some c =>
      have hcell := hs.global c (OrderedMap.mem_values_of_get? hkey)
      exact congrArg some ((hw'.payload c hcell).2.trans (hw.payload c hcell).2.symm)
  localValues := hlocals
  literal ref href c hc := by
    have hcell := hs.literal c (mem_literals_of_reaction? hr href hc)
    exact (hw'.payload c hcell).2.trans (hw.payload c hcell).2.symm

theorem look_of_reaction? {s : Stage} {q : Question} {r : Reaction CellId}
    (hr : s.interactions.reaction? q.target q.kind = some r) :
    s.look q =
      ((s.createMap q.locals).2.world.evaluate (s.createMap q.locals).1 r.predicate).1 := by
  rw [look, hr]

/-- **A signal that is kept shows what a new look would show.** -/
theorem Shows.truth {s : Stage} (hs : s.Sound) {q : Question} {sig : SignalId} (h : Shows s q sig)
    (hq : s.Timeless q) : s.look q = .ok (s.world.truth sig) := by
  cases h with
  | unbound hr hheld hstands =>
    rw [look, hr, truth_of_standsFor hs hheld hstands fun _ h ↦ absurd h List.not_mem_nil]
    rfl
  | bound hr hheld hstands hbind hlocals hapart =>
    rename_i r locals f
    have hlocals' := (s.map_createMap hs q.locals).1.trans hlocals.symm
    have hsight := sameSight_of_spares hs hr (.refl _) (s.spares_createMap hs q.locals) hlocals'
    rw [look_of_reaction? hr, evaluate_of_sameSight hsight, evaluate_of_bind hbind,
      truth_of_standsFor hs hheld hstands (timeless_of_bind (hq r hr) hbind)]


theorem timeless_of_same {s : Stage} {q q' : Question} (h : q.Same q') (hq : s.Timeless q) :
    s.Timeless q' := by
  rw [Timeless, ← h.target, ← h.kind]
  exact hq

theorem look_of_same {s : Stage} (hs : s.Sound) {q q' : Question} (h : q.Same q') :
    s.look q' = s.look q := by
  obtain ⟨target, kind, entries⟩ := q
  obtain ⟨target', kind', entries'⟩ := q'
  obtain ⟨rfl, rfl, hentries⟩ := h
  cases hr : s.interactions.reaction? target kind with
  | none => simp only [look, hr]
  | some r =>
    have hlocals := (s.map_createMap hs entries').1.trans
      (hentries.symm.trans (s.map_createMap hs entries).1.symm)
    rw [look_of_reaction? hr, look_of_reaction? hr]
    exact evaluate_of_sameSight (sameSight_of_spares hs hr (s.spares_createMap hs entries)
      (s.spares_createMap hs entries') hlocals)

/-! ### Who asked first -/

/-- The stage after steps, the sink drained after each. -/
def afterAll (s : Stage) (table : List String) (steps : List Step) : Stage :=
  steps.foldl (fun s step ↦ (s.play table step).stage.drain.2) s

/-- The questions that are answered as steps are played, in order. -/
def answered (s : Stage) (table : List String) : List Step → List Question
  | [] => []
  | step :: rest =>
    let r := s.play table step
    (if r.answer.isSome then (step.question? table).toList else []) ++
      r.stage.drain.2.answered table rest

/-- The first of some questions that has a description. -/
def firstUnder (qs : List Question) (key : String) : Option Question :=
  qs.find? (·.description == key)

theorem firstUnder_eq_none {qs : List Question} {key : String} :
    firstUnder qs key = none ↔ ∀ q ∈ qs, q.description ≠ key := by
  simp [firstUnder, List.find?_eq_none]

theorem mem_of_firstUnder {qs : List Question} {key : String} {q : Question}
    (h : firstUnder qs key = some q) : q ∈ qs ∧ q.description = key :=
  ⟨List.mem_of_find?_eq_some h, by simpa using List.find?_some h⟩

/-- The signals that are kept at a stage are those of the questions that were answered: under each
description there is one, which shows what was asked first. -/
structure Knows (s : Stage) (qs : List Question) : Prop where
  sound : s.Sound
  unasked : ∀ key, firstUnder qs key = none → s.signals.get? key = none
  asked : ∀ key q, firstUnder qs key = some q →
    ∃ sig, s.signals.get? key = some sig ∧ Shows s q sig

theorem knows_ofDocument (d : Template.Document) : Knows (ofDocument d) [] :=
  ⟨sound_ofDocument d, fun _ _ ↦ rfl, fun _ _ h ↦ nomatch h⟩

theorem Knows.continues {s s' : Stage} {qs : List Question} (h : Knows s qs) (hs : Continues s s')
    (hsignals : s'.signals = s.signals) : Knows s' qs where
  sound := hs.sound h.sound
  unasked key hkey := hsignals ▸ h.unasked key hkey
  asked key q hq := by
    obtain ⟨sig, hsig, hshows⟩ := h.asked key q hq
    exact ⟨sig, hsignals ▸ hsig, hshows.continues h.sound hs⟩

theorem firstUnder_append (qs : List Question) (q : Question) (key : String) :
    firstUnder (qs ++ [q]) key =
      (firstUnder qs key).or (if q.description = key then some q else none) := by
  rw [firstUnder, List.find?_append, firstUnder, List.find?_singleton]
  simp only [beq_iff_eq]

/-- A question that is answered by a signal that was kept adds nothing. -/
theorem Knows.again {s : Stage} {qs : List Question} (h : Knows s qs) {q : Question}
    {sig : SignalId} (hsig : s.signals.get? q.description = some sig) : Knows s (qs ++ [q]) where
  sound := h.sound
  unasked key hkey := by
    rw [firstUnder_append, Option.or_eq_none_iff] at hkey
    exact h.unasked key hkey.1
  asked key q' hq' := by
    rw [firstUnder_append] at hq'
    cases hfirst : firstUnder qs key with
    | some q'' =>
      rw [hfirst] at hq'
      cases hq'
      exact h.asked key _ hfirst
    | none =>
      rw [hfirst, Option.none_or] at hq'
      split at hq'
      · rename_i hdescription
        have hnone := h.unasked key hfirst
        rw [← hdescription, hsig] at hnone
        cases hnone
      · cases hq'

/-- A new question is the first under its description. -/
theorem Knows.keep {s s' : Stage} {qs : List Question} (h : Knows s qs) (hs : Continues s s')
    {q : Question} {sig : SignalId} (hnew : s.signals.get? q.description = none)
    (hsignals : s'.signals = s.signals.insert q.description sig) (hshows : Shows s' q sig) :
    Knows s' (qs ++ [q]) where
  sound := hs.sound h.sound
  unasked key hkey := by
    rw [firstUnder_append, Option.or_eq_none_iff] at hkey
    have hne : key ≠ q.description := fun heq ↦ by simp [heq] at hkey
    rw [hsignals, OrderedMap.get?_insert, if_neg hne]
    exact h.unasked key hkey.1
  asked key q' hq' := by
    rw [hsignals, OrderedMap.get?_insert]
    rw [firstUnder_append] at hq'
    cases hfirst : firstUnder qs key with
    | some q'' =>
      rw [hfirst] at hq'
      cases hq'
      obtain ⟨sig', hsig', hshows'⟩ := h.asked key _ hfirst
      have hne : key ≠ q.description := fun heq ↦ by
        rw [heq, hnew] at hsig'
        cases hsig'
      rw [if_neg hne]
      exact ⟨sig', hsig', hshows'.continues h.sound hs⟩
    | none =>
      rw [hfirst, Option.none_or] at hq'
      split at hq'
      · rename_i hdescription
        cases hq'
        rw [if_pos hdescription.symm]
        exact ⟨sig, rfl, hshows⟩
      · cases hq'

/-! ### What a step is answered -/

theorem held_openSignal (w : World Empty) (f : Formula (Term CellId)) :
    Activity.Held w.signals.next ⟨(w.openSignal f).2, []⟩ := by
  show 0 < (w.openSignal f).2.holders w.signals.next
  rw [holders, get?_openSignal, if_pos rfl]
  exact Nat.one_pos

theorem shows_unbound (s : Stage) {q : Question}
    (hr : s.interactions.reaction? q.target q.kind = none) :
    Shows (s.keep q.description (s.world.openSignal (.const false))).stage q s.world.signals.next :=
  .unbound hr (held_openSignal _ _) (Activity.standsFor_openSignal _ _ _)

theorem shows_bound {s : Stage} (hs : s.Sound) {q : Question} {r : Reaction CellId}
    {f : Formula (Term CellId)} (hr : s.interactions.reaction? q.target q.kind = some r)
    (hbind : (s.createMap q.locals).2.world.bind (s.createMap q.locals).1 r.predicate = .ok f) :
    Shows ((s.createMap q.locals).2.keep q.description
      ((s.createMap q.locals).2.world.openSignal f)).stage q
      (s.createMap q.locals).2.world.signals.next := by
  have hvalues := values_openSignal (s.createMap q.locals).2.world f
  obtain ⟨hlocals, hcells⟩ := s.map_createMap hs q.locals
  refine .bound hr (held_openSignal _ _) (Activity.standsFor_openSignal _ _ _)
    ((bind_of_values hvalues _ _).trans hbind) ?_ fun c hc ↦ ?_
  · exact (congrArg (OrderedMap.map · _) (payloads_of_values hvalues)).trans hlocals
  · obtain ⟨hcell, hnew⟩ := hcells c hc
    refine ⟨(hasCell_of_values hvalues c).2 hcell, fun hmem ↦ hnew (hs.global c ?_),
      fun hmem ↦ hnew (hs.literal c hmem)⟩
    have hglobals := ((s.spares_createMap hs q.locals).globals hs.published).2
    exact hglobals ▸ globals_of_values hvalues ▸ hmem

/-- **A step adds its question**, if it asks one and is answered. -/
theorem knows_play {s : Stage} {qs : List Question} (h : Knows s qs) (table : List String)
    (step : Step) :
    Knows (s.play table step).stage
      (qs ++ if (s.play table step).answer.isSome then (step.question? table).toList else []) := by
  cases hq : step.question? table with
  | none =>
    have haside := s.aside_of_question? h.sound hq
    rw [haside.answer]
    exact (List.append_nil qs).symm ▸ h.continues haside.toContinues haside.signals
  | some q =>
    have hobserved := s.observed_observe q
    have hcontinues := s.continues_play h.sound table step
    rw [s.play_of_question? hq] at hcontinues ⊢
    generalize s.observe q.target q.kind q.locals = result at *
    cases hobserved with
    | again hsig => exact h.again hsig
    | unbound hnew hr => exact h.keep hcontinues hnew rfl (s.shows_unbound hr)
    | failed => exact (List.append_nil qs).symm ▸ h.continues hcontinues rfl
    | bound hnew hr hbind => exact h.keep hcontinues hnew rfl (shows_bound h.sound hr hbind)

/-- **Who asks first is answered what a new look shows.** -/
theorem answer_of_new {s : Stage} {q : Question} (h : s.signals.get? q.description = none) :
    (s.observe q.target q.kind q.locals).answer = (s.look q).toOption := by
  have hobserved := s.observed_observe q
  generalize s.observe q.target q.kind q.locals = result at *
  cases hobserved with
  | again hsig =>
    rw [h] at hsig
    cases hsig
  | unbound _ hr =>
    rw [look, hr]
    exact congrArg some (truth_openSignal s.world (.const false))
  | failed _ hr hbind =>
    rw [look_of_reaction? hr, evaluate_eq, hbind]
    rfl
  | bound _ hr hbind =>
    rw [look_of_reaction? hr, evaluate_of_bind hbind]
    exact congrArg some (truth_openSignal _ _)

/-- **Who asks again is answered what was asked first.** -/
theorem answer_of_again {s : Stage} {qs : List Question} (h : Knows s qs) {q q' : Question}
    (hfirst : firstUnder qs q.description = some q') (hq' : s.Timeless q') :
    ∃ b, s.look q' = .ok b ∧ (s.observe q.target q.kind q.locals).answer = some b := by
  obtain ⟨sig, hsig, hshows⟩ := h.asked q.description q' hfirst
  refine ⟨s.world.truth sig, hshows.truth h.sound hq', ?_⟩
  have hobserved := s.observed_observe q
  generalize s.observe q.target q.kind q.locals = result at *
  cases hobserved with
  | again hsig' =>
    rw [hsig] at hsig'
    cases hsig'
    rfl
  | unbound hnew =>
    rw [hsig] at hnew
    cases hnew
  | failed hnew =>
    rw [hsig] at hnew
    cases hnew
  | bound hnew =>
    rw [hsig] at hnew
    cases hnew

/-! ### Scripts -/

theorem knows_afterAll {s : Stage} {qs : List Question} (h : Knows s qs) (table : List String)
    (steps : List Step) : Knows (s.afterAll table steps) (qs ++ s.answered table steps) := by
  induction steps generalizing s qs with
  | nil => exact (List.append_nil qs).symm ▸ h
  | cons step rest ih =>
    have hstep := knows_play h table step
    have hrest := ih (hstep.continues ((Continues.refl _).sink []) rfl)
    rw [List.append_assoc] at hrest
    exact hrest

theorem getElem?_reports (s : Stage) (table : List String) (steps : List Step) (n : Nat) :
    (s.reports table steps)[n]? = steps[n]?.map fun step ↦
      let r := (s.afterAll table (steps.take n)).play table step
      ⟨step.label, r.answer, r.stage.sink, r.stage.globals⟩ := by
  induction steps generalizing s n with
  | nil => rfl
  | cons step rest ih =>
    cases n with
    | zero => rfl
    | succ n => exact ih (s.play table step).stage.drain.2 n

end Stage

/-- The stage before a step of a script that is played against a document. -/
def stageAt (d : Template.Document) (script : Script) (n : Nat) : Stage :=
  (Stage.ofDocument d).afterAll script.strings (script.steps.take n)

/-- The questions that have been answered before a step of a script. -/
def answeredBefore (d : Template.Document) (script : Script) (n : Nat) : List Question :=
  (Stage.ofDocument d).answered script.strings (script.steps.take n)

/-- **What a step of a script is answered.** Let a step ask for a target and a kind over local
values that can be read. If no question was answered before under its description, the step is
answered what a new look shows at this point, and not at all if an operand is not found. Otherwise
it is answered what a new look shows to the first question that was, unless that depends on recent
changes. So the step is answered for itself if all the questions that were answered under its
description are the same as its own. -/
theorem answer_of_play {d : Template.Document} {script : Script} {n : Nat} {step : Step}
    {q : Question} (hstep : script.steps[n]? = some step)
    (hq : step.question? script.strings = some q) :
    ∃ report, (play d script)[n]? = some report ∧
      ((∀ q' ∈ answeredBefore d script n, q'.description ≠ q.description) →
        report.answer = ((stageAt d script n).look q).toOption) ∧
      (∀ q', Stage.firstUnder (answeredBefore d script n) q.description = some q' →
        (stageAt d script n).Timeless q' →
          ∃ b, (stageAt d script n).look q' = .ok b ∧ report.answer = some b) ∧
      ((∀ q' ∈ answeredBefore d script n, q'.description = q.description → q.Same q') →
        (stageAt d script n).Timeless q →
          report.answer = ((stageAt d script n).look q).toOption) := by
  have hknows : Stage.Knows (stageAt d script n) (answeredBefore d script n) :=
    Stage.knows_afterAll (Stage.knows_ofDocument d) script.strings (script.steps.take n)
  have hreport := (Stage.ofDocument d).getElem?_reports script.strings script.steps n
  have hplay := (stageAt d script n).play_of_question? hq
  rw [hstep] at hreport
  refine ⟨_, hreport, fun hnew ↦ ?_, fun q' hfirst hq' ↦ ?_, fun hsame htimeless ↦ ?_⟩
  · show ((stageAt d script n).play script.strings step).answer = _
    rw [hplay]
    exact Stage.answer_of_new (hknows.unasked _ (Stage.firstUnder_eq_none.2 hnew))
  · show ∃ b, _ ∧ ((stageAt d script n).play script.strings step).answer = _
    rw [hplay]
    exact Stage.answer_of_again hknows hfirst hq'
  · show ((stageAt d script n).play script.strings step).answer = _
    rw [hplay]
    cases hfirst : Stage.firstUnder (answeredBefore d script n) q.description with
    | none => exact Stage.answer_of_new (hknows.unasked _ hfirst)
    | some q' =>
      obtain ⟨hmem, hdescription⟩ := Stage.mem_of_firstUnder hfirst
      have hq' := hsame q' hmem hdescription
      have htimeless' := Stage.timeless_of_same hq' htimeless
      obtain ⟨b, hlook, hanswer⟩ := Stage.answer_of_again hknows hfirst htimeless'
      rw [hanswer, ← Stage.look_of_same hknows.sound hq', hlook]
      rfl

/-! ### A description that is shared -/

/-- Whether a global is on. -/
def lit : Predicate Payload := .term (.relation .equals (.fromGlobal "x") (.literal (.string "on")))

/-- A document with two reactions, one for a global that is on and one for the same global that is
not. Their targets and kinds make up the same text. -/
def slashed : Template.Document where
  globals := .ofList [("x", .string "on")]
  interactions := {
    actions := []
    reactions := [⟨"a/b", "c", lit⟩, ⟨"a", "b/c", .not lit⟩]
    watches := [] }

/-- A script that asks for both. -/
def asking : Script := ⟨[], [.observe "a/b" "c" [], .observe "a" "b/c" []]⟩

/-- The first step is answered for itself, and the second is answered for the first. -/
theorem answer_of_play_slashed :
    (∃ report, (play slashed asking)[0]? = some report ∧ report.answer = some true) ∧
      ∃ report, (play slashed asking)[1]? = some report ∧ report.answer = some true ∧
        (stageAt slashed asking 1).look ⟨"a", "b/c", []⟩ = .ok false := by
  have hfirst : Stage.firstUnder (answeredBefore slashed asking 1)
      (Question.description ⟨"a", "b/c", []⟩) = some ⟨"a/b", "c", []⟩ := rfl
  have htimeless : (stageAt slashed asking 1).Timeless ⟨"a/b", "c", []⟩ := fun r hr ↦ by
    cases hr
    decide
  have hstep₀ : asking.steps[0]? = some (.observe "a/b" "c" []) := rfl
  have hstep₁ : asking.steps[1]? = some (.observe "a" "b/c" []) := rfl
  obtain ⟨report, hreport, hnew, -⟩ := answer_of_play (d := slashed) hstep₀ rfl
  obtain ⟨report', hreport', -, hagain, -⟩ := answer_of_play (d := slashed) hstep₁ rfl
  obtain ⟨b, hlook, hanswer⟩ := hagain _ hfirst htimeless
  cases hlook
  exact ⟨⟨report, hreport, hnew fun _ h ↦ absurd h List.not_mem_nil⟩, report', hreport', hanswer,
    rfl⟩

end LiveTemplate.Simulation
