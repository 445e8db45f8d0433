import LiveTemplate.Proofs.Acting
import LiveTemplate.Proofs.Freshness
import LiveTemplate.Proofs.Holding
import LiveTemplate.Proofs.Installation
import LiveTemplate.Proofs.Seeing
import LiveTemplate.Simulation.Play

/-!
# What a step of a script does

Each step of a script is a run, of whatever sort as long as that suits a script (`becomes_play`). In
particular nobody lets go of a signal, and no cell is written to that was there before but for globals
and literals (`continues_play`). So a signal that is kept for a question goes on standing for what was
asked: it lives on, and its local values stay as they were (`Shows.continues`).
-/

namespace LiveTemplate.Simulation

open Engine World Wire

/-- What is asked for in a step: how a target looks in some way, over local values. -/
structure Question where
  target : String
  kind : String
  locals : List (String × Payload)

/-- The description under which its answer is kept. -/
def Question.description (q : Question) : String := Stage.description q.target q.kind q.locals

/-- The question of a step, if it asks for something and its values can be read. -/
def Step.question? (table : List String) : Step → Option Question
  | .observe target kind locals =>
    (Tagged.payloads table locals).toOption.map fun entries ↦ ⟨target, kind, entries⟩
  | _ => none

namespace Stage

/-- What a new look shows: how the reaction bound to a target and a kind comes out over new local
values. Without such a reaction nothing shows. -/
def look (s : Stage) (q : Question) : Except Problem Bool :=
  match s.interactions.reaction? q.target q.kind with
  | none => .ok false
  | some r =>
    let (locals, s') := s.createMap q.locals
    (s'.world.evaluate locals r.predicate).1

/-- What is asked for does not depend on recent changes. -/
def Timeless (s : Stage) (q : Question) : Prop :=
  ∀ r, s.interactions.reaction? q.target q.kind = some r → Formula.Timeless r.predicate

/-- Between two steps of a script the world is in order, and no signal is out of date. The global
state is published, and the globals and the literals of the interactions are in cells. -/
structure Sound (s : Stage) : Prop where
  orderly : s.world.Orderly
  fresh : Activity.Fresh ⟨s.world, []⟩
  published : s.world.published = true
  global : ∀ c ∈ s.world.globals.values, s.world.HasCell c
  literal : ∀ c ∈ s.interactions.literals, s.world.HasCell c

theorem sound_ofDocument (d : Template.Document) : (ofDocument d).Sound := by
  have hi := installed_ofDocument (η := Empty) d
  refine ⟨hi.orderly, fun s place live r left right hlive ↦ ?_, hi.published, hi.global, hi.literal⟩
  have hsignals : (ofDocument d).world.signals = .empty := hi.signals
  obtain ⟨sig, hsig, -⟩ := term?_eq_some.1 hlive
  rw [hsignals] at hsig
  cases hsig

/-! ### Steps as runs -/

/-- What may be done in a step: no signal is let go of, and a cell that was there before is not
written to, unless it is that of a global or of a literal. -/
def plays (s : Stage) : Activity Empty → Deed Empty → Prop := fun _ d ↦
  (∀ sig, d ≠ .letGo sig) ∧
    ∀ c, s.world.HasCell c → c ∉ s.world.globals.values → c ∉ s.interactions.literals → d.Avoids c

/-- A stage goes on to another with the same interactions. -/
structure Continues (s s' : Stage) : Prop where
  interactions : s'.interactions = s.interactions
  run : ∃ es, Activity.Run s.plays ⟨s.world, []⟩ es ⟨s'.world, []⟩

theorem Continues.refl (s : Stage) : Continues s s := ⟨rfl, [], .refl _⟩

/-- Whatever is reported or drained. -/
theorem Continues.sink {s s' : Stage} (h : Continues s s') (problems : List Problem) :
    Continues s { s' with sink := problems } := ⟨h.interactions, h.run⟩

/-- What writes to no cell may be done, but for letting go. -/
theorem plays_of_avoids (s : Stage) (a : Activity Empty) {d : Deed Empty}
    (hd : ∀ sig, d ≠ .letGo sig) (havoids : ∀ c, d.Avoids c) : s.plays a d :=
  ⟨hd, fun c _ _ _ ↦ havoids c⟩

theorem plays_create (s : Stage) (a : Activity Empty) (p : Payload) : s.plays a (.create p) :=
  s.plays_of_avoids a (fun _ h ↦ nomatch h) fun _ ↦ trivial

/-- A global may be written to. -/
theorem plays_write (s : Stage) (a : Activity Empty) {c : CellId} (hc : c ∈ s.world.globals.values)
    (p : Payload) : s.plays a (.write c p) :=
  ⟨fun _ h ↦ (nomatch h), fun _ _ hglobal _ heq ↦ hglobal (heq ▸ hc)⟩

/-- An action may be run over new local values. -/
theorem plays_perform (s : Stage) (a : Activity Empty) (target kind : String) {locals : ValueMap}
    (hlocals : ∀ c ∈ locals.values, ¬s.world.HasCell c) :
    s.plays a (.perform (s.interactions.updates target kind) locals) := by
  refine ⟨fun _ h ↦ (nomatch h), fun c hc _ hliteral ↦ ⟨fun htarget ↦ hliteral ?_, fun hmem ↦ ?_⟩⟩
  · have hreference := Interactions.references_updates s.interactions target kind
      (Update.allTargets_subset _ htarget)
    rw [Interactions.literals_eq]
    exact List.mem_flatMap.2 ⟨_, hreference, List.mem_singleton_self c⟩
  · exact hlocals c hmem hc

/-- All that steps of a script do may be done: values are created, a global is set to what another
payload is folded to in it, an action is run over new local values, a signal is opened, and the clock
is moved. -/
structure Suits (s : Stage) (may : Activity Empty → Deed Empty → Prop) : Prop where
  create : ∀ a p, may a (.create p)
  write : ∀ c ∈ s.world.globals.values, ∀ mode p q,
    Payload.fold mode (s.world.payload c) p = some q → may ⟨s.world, []⟩ (.write c q)
  perform : ∀ a target kind locals, (∀ c ∈ OrderedMap.values locals, ¬s.world.HasCell c) →
    may a (.perform (s.interactions.updates target kind) locals)
  openSignal : ∀ a f, may a (.openSignal f)
  advance : ∀ a ms, may a (.advance ms)

theorem suits_plays (s : Stage) : s.Suits s.plays where
  create a p := s.plays_create a p
  write _ hc _ _ q _ := s.plays_write _ hc q
  perform a target kind _ hlocals := s.plays_perform a target kind hlocals
  openSignal a _ := s.plays_of_avoids a (fun _ h ↦ nomatch h) fun _ ↦ trivial
  advance a _ := s.plays_of_avoids a (fun _ h ↦ nomatch h) fun _ ↦ trivial

/-- A stage becomes another by a run. -/
def Becomes (may : Activity Empty → Deed Empty → Prop) (s s' : Stage) : Prop :=
  ∃ es, Activity.Run may ⟨s.world, []⟩ es ⟨s'.world, []⟩

section Becomes

variable {may : Activity Empty → Deed Empty → Prop} {s : Stage} (hmay : s.Suits may)

theorem Becomes.refl (may : Activity Empty → Deed Empty → Prop) (s : Stage) : Becomes may s s :=
  ⟨[], .refl _⟩

include hmay

theorem run_createAll (w : World Empty) (entries : List (String × Payload))
    (stack : List (Work Empty)) :
    ∃ es, Activity.Run may ⟨w, stack⟩ es ⟨(w.createAll entries).2, stack⟩ := by
  induction entries generalizing w with
  | nil => exact ⟨[], .refl _⟩
  | cons e rest ih =>
    obtain ⟨es, hrun⟩ := ih (w.create e.2).2
    have hdeed := (Activity.Run.refl ⟨w, stack⟩).deed (.create e.2) trivial (hmay.create _ _)
    exact ⟨_, hdeed.trans hrun⟩

theorem becomes_update (hs : s.Sound) (target kind : String) (entries : List (String × Payload)) :
    Becomes may s (s.update target kind entries).stage := by
  obtain ⟨-, hcells⟩ := map_createAll hs.orderly.cells entries
  obtain ⟨es, hcreate⟩ := run_createAll hmay s.world entries []
  obtain ⟨es', happly⟩ := Activity.run_apply may (s.world.createAll entries).2
    (s.interactions.updates target kind) (.ofList (s.world.createAll entries).1) []
    (hmay.perform _ target kind _ fun c hc ↦ (hcells c hc).2)
  exact ⟨_, hcreate.trans happly⟩

theorem becomes_set (key : String) (p : Payload) : Becomes may s (s.set key p).stage := by
  unfold set
  split
  · exact .refl may s
  · exact .refl may s
  · rename_i c hc
    split
    · exact .refl may s
    · rename_i q hfold
      have hc : s.world.resolve .empty (.fromGlobal key) = .ok (some c) := hc
      have hglobal : c ∈ s.world.globals.values :=
        of_resolve (fun _ _ h ↦ OrderedMap.mem_values_of_get? h)
          (fun _ h ↦ absurd h List.not_mem_nil) (fun _ h ↦ absurd h List.not_mem_nil) hc
      have hwrite := (Activity.Run.refl ⟨s.world, []⟩).deed (.write c q) trivial
        (hmay.write c hglobal _ p q hfold)
      have hlevel : ∀ x ∈ (s.world.write c q).2.2, Work.level x < 4 := fun x hx ↦ by
        rw [level_of_mem_write hx]
        decide
      obtain ⟨es, hrun⟩ := Activity.run_completeAll may
        (fun x hx w stack ↦ Activity.run_complete may w (hlevel x hx) stack)
        (s.world.write c q).2.1 []
      exact ⟨_, hwrite.trans hrun⟩

theorem becomes_advance (ms : UInt64) : Becomes may s (s.advance ms).stage :=
  Activity.run_wait may s.world ms [] (hmay.advance _ ms)

end Becomes

/-- A step that asks for nothing goes on without an answer, and keeps the same signals. -/
structure Aside (s : Stage) (r : Result) : Prop extends Continues s r.stage where
  signals : r.stage.signals = s.signals
  answer : r.answer = none

theorem aside_fails (s : Stage) (p : Problem) : Aside s (s.fails p) :=
  ⟨(Continues.refl s).sink _, rfl, rfl⟩

theorem aside_update (s : Stage) (hs : s.Sound) (target kind : String)
    (entries : List (String × Payload)) : Aside s (s.update target kind entries) :=
  ⟨⟨rfl, becomes_update s.suits_plays hs target kind entries⟩, rfl, rfl⟩

theorem aside_set (s : Stage) (key : String) (p : Payload) : Aside s (s.set key p) := by
  have hrun := becomes_set s.suits_plays key p
  unfold set at hrun ⊢
  split at hrun
  · exact s.aside_fails _
  · exact ⟨.refl s, rfl, rfl⟩
  · split at hrun
    · exact s.aside_fails _
    · exact ⟨⟨rfl, hrun⟩, rfl, rfl⟩

theorem aside_advance (s : Stage) (ms : UInt64) : Aside s (s.advance ms) :=
  ⟨⟨rfl, becomes_advance s.suits_plays ms⟩, rfl, rfl⟩

theorem aside_of_question? (s : Stage) (hs : s.Sound) {table : List String} {step : Step}
    (h : step.question? table = none) : Aside s (s.play table step) := by
  cases step with
  | update target kind locals =>
    rw [play]
    split
    · exact s.aside_fails _
    · exact s.aside_update hs target kind _
  | set key value =>
    rw [play]
    split
    · exact s.aside_fails _
    · exact s.aside_set key _
  | observe target kind locals =>
    rw [play]
    cases hlocals : Tagged.payloads table locals with
    | error m => exact s.aside_fails _
    | ok entries =>
      rw [Step.question?, hlocals] at h
      cases h
  | advance ms => exact s.aside_advance ms

theorem play_of_question? (s : Stage) {table : List String} {step : Step} {q : Question}
    (h : step.question? table = some q) :
    s.play table step = s.observe q.target q.kind q.locals := by
  cases step with
  | observe target kind locals =>
    cases hlocals : Tagged.payloads table locals with
    | error m =>
      rw [Step.question?, hlocals] at h
      cases h
    | ok entries =>
      rw [Step.question?, hlocals] at h
      cases h
      rw [play, hlocals]
  | _ => cases h

/-- The literals of a reaction are among those of the interactions. -/
theorem mem_literals_of_reaction? {i : Interactions CellId CellId} {target kind : String}
    {r : Reaction CellId} (h : i.reaction? target kind = some r) {ref : Reference CellId}
    (href : ref ∈ r.predicate.references) {c : CellId} (hc : c ∈ ref.literals) :
    c ∈ i.literals := by
  rw [Interactions.literals_eq]
  refine List.mem_flatMap.2 ⟨ref, List.mem_append_right _ ?_, hc⟩
  exact List.mem_flatMap.2 ⟨r, List.mem_of_find?_eq_some h, href⟩

/-- New local values leave a stage as it is, but for new cells. -/
theorem spares_createMap (s : Stage) (hs : s.Sound) (entries : List (String × Payload)) :
    Spares s.world (s.createMap entries).2.world := by
  rw [createMap, createAll_eq]
  exact spares_createMany hs.orderly.cells _

/-- New local values hold what they were made with, in cells that there were not before. -/
theorem map_createMap (s : Stage) (hs : s.Sound) (entries : List (String × Payload)) :
    (s.createMap entries).1.map (s.createMap entries).2.world.payload = .ofList entries ∧
      ∀ c ∈ (s.createMap entries).1.values,
        (s.createMap entries).2.world.HasCell c ∧ ¬s.world.HasCell c :=
  map_createAll hs.orderly.cells entries

/-- The operands of a reaction that is bound over new local values are in cells. -/
theorem hasCell_of_bind (s : Stage) (hs : s.Sound) {target kind : String} {r : Reaction CellId}
    (hr : s.interactions.reaction? target kind = some r) {entries : List (String × Payload)}
    {f : Formula (Term CellId)}
    (hf : (s.createMap entries).2.world.bind (s.createMap entries).1 r.predicate = .ok f) :
    ∀ t ∈ f.terms, ∀ c ∈ t.operands, (s.createMap entries).2.world.HasCell c := by
  have hspares := s.spares_createMap hs entries
  refine of_bind (fun key c hkey ↦ ?_) (fun c hc ↦ ?_) (fun ref href c hc ↦ ?_) hf
  · rw [(hspares.globals hs.published).2] at hkey
    exact (hspares.payload c (hs.global c (OrderedMap.mem_values_of_get? hkey))).1
  · exact ((s.map_createMap hs entries).2 c hc).1
  · exact (hspares.payload c (hs.literal c (mem_literals_of_reaction? hr href hc))).1

/-- What comes of a question. -/
inductive Observed (s : Stage) (q : Question) : Result → Prop
  /-- It has been asked before, and the signal that was kept is asked. -/
  | again {sig : SignalId} (h : s.signals.get? q.description = some sig) :
      Observed s q ⟨s, some (s.world.truth sig)⟩
  /-- There is nothing to look at. -/
  | unbound (hnew : s.signals.get? q.description = none)
      (h : s.interactions.reaction? q.target q.kind = none) :
      Observed s q (s.keep q.description (s.world.openSignal (.const false)))
  /-- An operand is not found, and no signal is kept. -/
  | failed {r : Reaction CellId} {p : Problem} (hnew : s.signals.get? q.description = none)
      (hr : s.interactions.reaction? q.target q.kind = some r)
      (hbind :
        (s.createMap q.locals).2.world.bind (s.createMap q.locals).1 r.predicate = .error p) :
      Observed s q ((s.createMap q.locals).2.fails p)
  /-- A new signal is kept. -/
  | bound {r : Reaction CellId} {f : Formula (Term CellId)}
      (hnew : s.signals.get? q.description = none)
      (hr : s.interactions.reaction? q.target q.kind = some r)
      (hbind : (s.createMap q.locals).2.world.bind (s.createMap q.locals).1 r.predicate = .ok f) :
      Observed s q ((s.createMap q.locals).2.keep q.description
        ((s.createMap q.locals).2.world.openSignal f))

theorem observed_observe (s : Stage) (q : Question) :
    Observed s q (s.observe q.target q.kind q.locals) := by
  unfold observe
  dsimp only
  split
  · rename_i sig hsig
    exact .again hsig
  · rename_i hnew
    split
    · rename_i hr
      exact .unbound hnew hr
    · rename_i r hr
      dsimp only [observePredicate]
      cases hbind : (s.createMap q.locals).2.world.bind (s.createMap q.locals).1 r.predicate with
      | error p => exact .failed hnew hr hbind
      | ok f => exact .bound hnew hr hbind

section Becomes

variable {may : Activity Empty → Deed Empty → Prop} {s : Stage} (hmay : s.Suits may)
include hmay

/-- To keep a new signal. -/
theorem becomes_keep {s' : Stage} (h : Becomes may s s') {f : Formula (Term CellId)}
    (hf : ∀ t ∈ f.terms, ∀ c ∈ t.operands, s'.world.HasCell c) (key : String) :
    Becomes may s (s'.keep key (s'.world.openSignal f)).stage := by
  obtain ⟨es, hrun⟩ := h
  exact ⟨_, hrun.deed (.openSignal f) hf (hmay.openSignal _ f)⟩

theorem becomes_observe (hs : s.Sound) (q : Question) :
    Becomes may s (s.observe q.target q.kind q.locals).stage := by
  have hcreate : Becomes may s (s.createMap q.locals).2 := run_createAll hmay s.world q.locals []
  have hobserved := s.observed_observe q
  generalize s.observe q.target q.kind q.locals = result at *
  cases hobserved with
  | again => exact .refl may s
  | unbound => exact becomes_keep hmay (.refl may s) (fun _ h ↦ absurd h List.not_mem_nil) _
  | failed => exact hcreate
  | bound _ hr hbind => exact becomes_keep hmay hcreate (s.hasCell_of_bind hs hr hbind) _

/-- **Each step of a script is a run.** -/
theorem becomes_play (hs : s.Sound) (table : List String) (step : Step) :
    Becomes may s (s.play table step).stage := by
  cases step with
  | update target kind locals =>
    rw [play]
    split
    · exact .refl may s
    · exact becomes_update hmay hs target kind _
  | set key value =>
    rw [play]
    split
    · exact .refl may s
    · exact becomes_set hmay key _
  | observe target kind locals =>
    rw [play]
    split
    · exact .refl may s
    · exact becomes_observe hmay hs ⟨target, kind, _⟩
  | advance ms => exact becomes_advance hmay ms

end Becomes

theorem continues_observe (s : Stage) (hs : s.Sound) (q : Question) :
    Continues s (s.observe q.target q.kind q.locals).stage := by
  refine ⟨?_, becomes_observe s.suits_plays hs q⟩
  have hobserved := s.observed_observe q
  generalize s.observe q.target q.kind q.locals = result at *
  cases hobserved <;> rfl

/-- **Each step of a script goes on** with the same interactions. -/
theorem continues_play (s : Stage) (hs : s.Sound) (table : List String) (step : Step) :
    Continues s (s.play table step).stage := by
  cases hq : step.question? table with
  | none => exact (s.aside_of_question? hs hq).toContinues
  | some q =>
    rw [s.play_of_question? hq]
    exact s.continues_observe hs q

/-! ### Signals that are kept -/

theorem Continues.sound {s s' : Stage} (h : Continues s s') (hs : s.Sound) : s'.Sound := by
  obtain ⟨hinteractions, es, hrun⟩ := h
  obtain ⟨hpublished, hglobals⟩ := hrun.globals hs.orderly hs.published
  refine ⟨hrun.orderly hs.orderly,
    hrun.staysFresh hs.orderly (Activity.attended_nil _) hs.fresh, hpublished, fun c hc ↦ ?_,
    fun c hc ↦ ?_⟩
  · exact hrun.hasCell hs.orderly (hs.global c (hglobals ▸ hc))
  · exact hrun.hasCell hs.orderly (hs.literal c (hinteractions ▸ hc))

/-- A signal has been opened for a question, and is kept: it lives, and stands for the reaction over
local values as they were given, which nothing else leads to. -/
inductive Shows (s : Stage) (q : Question) (sig : SignalId) : Prop
  | unbound (h : s.interactions.reaction? q.target q.kind = none)
      (hheld : Activity.Held sig ⟨s.world, []⟩)
      (hstands : Activity.StandsFor (.const false) sig ⟨s.world, []⟩)
  | bound {r : Reaction CellId} {locals : ValueMap} {f : Formula (Term CellId)}
      (hr : s.interactions.reaction? q.target q.kind = some r)
      (hheld : Activity.Held sig ⟨s.world, []⟩) (hstands : Activity.StandsFor f sig ⟨s.world, []⟩)
      (hbind : s.world.bind locals r.predicate = .ok f)
      (hlocals : locals.map s.world.payload = .ofList q.locals)
      (hapart : ∀ c ∈ locals.values,
        s.world.HasCell c ∧ c ∉ s.world.globals.values ∧ c ∉ s.interactions.literals)

/-- **A signal that is kept goes on standing for what was asked.** -/
theorem Shows.continues {s s' : Stage} (hs : s.Sound) (h : Continues s s') {q : Question}
    {sig : SignalId} (hshows : Shows s q sig) : Shows s' q sig := by
  obtain ⟨hinteractions, es, hrun⟩ := h
  have hheld : Activity.Held sig ⟨s.world, []⟩ → Activity.Held sig ⟨s'.world, []⟩ :=
    hrun.held (fun _ hmay ↦ hmay.1 sig rfl) hs.orderly
  cases hshows with
  | unbound hunbound hheld' hstands =>
    exact .unbound (hinteractions ▸ hunbound) (hheld hheld') (hrun.standsFor hs.orderly hstands)
  | bound hr hheld' hstands hbind hlocals hapart =>
    rename_i r locals f
    obtain ⟨hpublished, hglobals⟩ := hrun.globals hs.orderly hs.published
    have hkept : ∀ c ∈ locals.values,
        s'.world.HasCell c ∧ s'.world.payload c = s.world.payload c := by
      intro c hc
      obtain ⟨hcell, hglobal, hliteral⟩ := hapart c hc
      exact hrun.kept (fun _ _ hmay ↦ hmay.2 c hcell hglobal hliteral) hs.orderly hs.published hcell
        hglobal fun _ _ h ↦ absurd h List.not_mem_nil
    refine .bound (hinteractions ▸ hr) (hheld hheld') (hrun.standsFor hs.orderly hstands)
      (bind_of_published hs.published hpublished hglobals hbind) ?_ fun c hc ↦ ?_
    · rw [← hlocals]
      exact OrderedMap.map_congr fun c hc ↦ (hkept c hc).2
    · obtain ⟨-, hglobal, hliteral⟩ := hapart c hc
      exact ⟨(hkept c hc).1, hglobals ▸ hglobal, hinteractions ▸ hliteral⟩

end Stage

end LiveTemplate.Simulation
