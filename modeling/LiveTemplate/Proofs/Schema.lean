import LiveTemplate.Proofs.Answering
import LiveTemplate.Proofs.Execution
import LiveTemplate.Proofs.Resolution

/-!
# The schema of a document in use

What the globals of a document are, and of which kinds, is settled once the document is put to use.
Their keys are taken down for good, and so are their cells: nothing can be added to globals that are
published. A cell can be given another payload, but that is of the kind of the one before: it is set
only to such a payload (`Fits`), and what is folded into it or what it is reset to is one. Updates do
no more than that (`Plays.kind`), so no turn and no deed changes a kind (`Run.kind`), and neither do
scripts that are played (`schema_of_ofDocument`).
-/

namespace LiveTemplate

namespace Engine

variable {η : Type}

namespace World

variable {w w' : World η} {locals : ValueMap} {c : CellId}

/-- What a cell can be given: what it can be set to, what can come of folding something into it, and
what it is reset to. -/
inductive Fits (w : World η) (c : CellId) : Payload → Prop
  | set {p : Payload} (h : w.assign c p = .ok (w.write c p)) : Fits w c p
  | fold {p : Payload} (mode : Payload.FoldMode) (source : Payload)
      (h : Payload.fold mode (w.payload c) source = some p) : Fits w c p
  | reset : Fits w c (w.payload c).zero

/-- **What fits is of the same kind.** -/
theorem Fits.kind {p : Payload} (h : w.Fits c p) : p.kind = (w.payload c).kind := by
  cases h with
  | set h =>
    unfold assign at h
    split at h
    · assumption
    · cases h
  | fold mode source h => exact Payload.kind_fold h
  | reset => exact Payload.kind_zero _

/-- An edit that puts something of the same kind there changes no kind. -/
theorem kind_edit {e : Edit} (he : ∀ c p, e = some (c, p) → p.kind = (w.payload c).kind)
    (c : CellId) : ((w.edit e).1.payload c).kind = (w.payload c).kind := by
  obtain _ | ⟨c', p⟩ := e
  · rfl
  · rw [payload_edit]
    split
    · rename_i h
      rw [he c' p rfl, h.1]
    · rfl

/-- **Moves of updates change no kind.** -/
theorem Plays.kind {ms : List (Move CellId)} {o : Except Problem Unit} {cells : List CellId}
    (h : Plays locals w ms o cells w') (c : CellId) :
    (w'.payload c).kind = (w.payload c).kind := by
  induction h with
  | done => rfl
  | fail => rfl
  | carry he _ ih =>
    refine ih.trans (kind_edit (fun c p heq ↦ ?_) c)
    subst heq
    exact (editOf_eq_ok.1 he).some.2
  | ask _ _ ih => exact ih

/-- **No turn changes a kind.** -/
theorem kind_turn (w : World η) (x : Work η) (c : CellId) :
    ((w.turn x).world.payload c).kind = (w.payload c).kind := by
  by_cases hperform : ∃ us locals, x = .perform us locals
  · obtain ⟨us, locals, rfl⟩ := hperform
    have hstepped := w.stepped_perform us locals
    rw [turn]
    generalize w.perform us locals = t at hstepped
    cases hstepped with
    | ending _ _ hvalues => exact congrArg Payload.kind (payload_of_values hvalues c)
    | @on _ _ e _ _ hplays hvalues =>
      have hkept := congrArg Payload.kind (payload_of_values (values_edit hvalues e) c)
      exact hkept.trans (hplays.kind c)
  · have hvalues := values_turn w fun us locals heq ↦ hperform ⟨us, locals, heq⟩
    exact congrArg Payload.kind (payload_of_values hvalues c)

/-- Globals that are published take no more keys. -/
theorem addGlobal_of_published (hpublished : w.published = true) (key : String) (c : CellId) :
    w.addGlobal key c = .error (.frozenGlobals key) := if_pos hpublished

end World

namespace Activity

open World

variable {a b : Activity η} {es : List Happening}

/-- Nothing is put into a cell from outside but what fits. -/
def fitting : Activity η → Deed η → Prop := fun a d ↦ ∀ c p, d = .write c p → a.world.Fits c p

/-- **No deed changes a kind**, as long as nothing is put into a cell but what fits. -/
theorem kind_after {w : World η} (ho : w.Orderly) {c : CellId} (hc : w.HasCell c) {d : Deed η}
    (hpermits : w.Permits d) {stack : List (Work η)} (hd : fitting ⟨w, stack⟩ d) :
    ((w.after d).1.payload c).kind = (w.payload c).kind := by
  have hkept : (∀ c, d.Avoids c) → ((w.after d).1.payload c).kind = (w.payload c).kind :=
    fun havoids ↦ congrArg Payload.kind (kept_after ho hc hpermits (havoids c)).2
  cases d with
  | write c' p =>
    refine kind_edit (e := some (c', p)) (fun c p heq ↦ ?_) c
    cases heq
    exact (hd c' p rfl).kind
  | perform => rfl
  | _ => exact hkept fun _ ↦ trivial

/-- **Whatever is done, no cell changes its kind.** -/
theorem Run.kind (h : Run fitting a es b) (ho : a.world.Orderly) {c : CellId}
    (hc : a.world.HasCell c) : (b.world.payload c).kind = (a.world.payload c).kind := by
  induction h with
  | refl => rfl
  | tail run step ih =>
    refine Eq.trans ?_ ih
    cases step with
    | turn w x stack => exact w.kind_turn x c
    | deed w d stack hpermits hd =>
      exact kind_after (run.orderly ho) (run.hasCell ho hc) hpermits hd

end Activity

/-- The globals of a document are in use: under its keys, in published cells of the kinds that it
says. -/
structure Declares (d : Template.Document) (globals : ValueMap) (w : World η) : Prop where
  published : w.published = true
  globals : w.globals = globals
  kinds : w.globals.map (fun c ↦ (w.payload c).kind) = d.globals.map Payload.kind

/-- **A document in use goes on declaring the same globals.** -/
theorem Activity.Run.declares {d : Template.Document} {i : Interactions CellId CellId} {w : World η}
    {es : List Happening} {b : Activity η} (hi : World.Installed d i w)
    (h : Run fitting ⟨w, []⟩ es b) : Declares d w.globals b.world := by
  obtain ⟨hpublished, hglobals⟩ := h.globals hi.orderly hi.published
  refine ⟨hpublished, hglobals, ?_⟩
  have hdeclared : w.globals.map w.payload = d.globals := by
    rw [OrderedMap.map, OrderedMap.mk.injEq]
    exact hi.globals
  rw [hglobals, ← hdeclared, OrderedMap.map_map]
  exact OrderedMap.map_congr fun c hc ↦ h.kind hi.orderly (hi.global c hc)

end Engine

namespace Simulation

open Engine Engine.Activity World

namespace Stage

/-- Scripts put nothing into a cell but what fits. -/
theorem suits_fitting (s : Stage) : s.Suits fitting where
  create _ _ _ _ h := nomatch h
  write _ _ mode p _ hfold _ _ h := by
    cases h
    exact .fold mode p hfold
  perform _ _ _ _ _ _ _ h := nomatch h
  openSignal _ _ _ _ h := nomatch h
  advance _ _ _ _ h := nomatch h

/-- **All steps of a script together are a run.** -/
theorem becomes_afterAll {may : Activity Empty → Deed Empty → Prop} (hmay : ∀ s : Stage, s.Suits may)
    {s : Stage} (hs : s.Sound) (table : List String) (steps : List Step) :
    Becomes may s (s.afterAll table steps) := by
  induction steps generalizing s with
  | nil => exact .refl may s
  | cons step rest ih =>
    obtain ⟨es, hrun⟩ := becomes_play (hmay s) hs table step
    obtain ⟨es', hrun'⟩ := ih (((s.continues_play hs table step).sink []).sound hs)
    exact ⟨_, hrun.trans hrun'⟩

theorem afterAll_concat (s : Stage) (table : List String) (steps : List Step) (step : Step) :
    s.afterAll table (steps ++ [step]) =
      ((s.afterAll table steps).play table step).stage.drain.2 :=
  List.foldl_append

/-- What is reported of the globals is what they hold at a stage. -/
theorem globals_of_mem_reports {s : Stage} {table : List String} {steps : List Step} {r : Report}
    (h : r ∈ s.reports table steps) :
    ∃ n, r.globals = (s.afterAll table (steps.take n)).globals := by
  obtain ⟨n, hn⟩ := List.mem_iff_getElem?.1 h
  rw [getElem?_reports] at hn
  obtain ⟨step, hstep, rfl⟩ := Option.map_eq_some_iff.1 hn
  refine ⟨n + 1, ?_⟩
  rw [List.take_add_one, hstep]
  exact (congrArg globals (s.afterAll_concat table (steps.take n) step)).symm

end Stage

/-- **The schema of the globals is fixed.** Put a document to use, such as a template denotes, and let
anything be done to it, but that nothing is put into a cell from outside except by setting it, by
folding something into it, or by resetting it. Then at any time the globals are the same cells under
the same keys, in the same order, and each of them holds something of the kind that the document
says; of all cells there are, none changes its kind. Whoever adds a global is told that they are
frozen, and nothing changes. The same holds after any steps of a script, and of the globals in its
reports. -/
theorem schema_of_ofDocument {η : Type} {d : Template.Document} {i : Interactions CellId CellId}
    {w : World η} (hdocument : ofDocument d = (i, w)) :
    (∀ es b es' b', Run fitting ⟨w, []⟩ es b → Run fitting b es' b' →
      b'.world.globals = w.globals ∧
      b'.world.globals.map (fun c ↦ (b'.world.payload c).kind) = d.globals.map Payload.kind ∧
      (∀ c, b.world.HasCell c → (b'.world.payload c).kind = (b.world.payload c).kind) ∧
      ∀ key c, b'.world.addGlobal key c = .error (.frozenGlobals key) ∧
        b'.world.after (.addGlobal key c) = (b'.world, [])) ∧
    (∀ table steps,
      ((Stage.ofDocument d).afterAll table steps).world.globals =
          (Stage.ofDocument d).world.globals ∧
        ((Stage.ofDocument d).afterAll table steps).globals.map Payload.kind =
          d.globals.map Payload.kind ∧
        ∀ key c, ((Stage.ofDocument d).afterAll table steps).world.addGlobal key c =
          .error (.frozenGlobals key)) ∧
    ∀ script, ∀ r ∈ play d script, r.globals.map Payload.kind = d.globals.map Payload.kind := by
  have hi := installed_of_ofDocument hdocument
  have hstage : ∀ table steps, Declares d (Stage.ofDocument d).world.globals
      ((Stage.ofDocument d).afterAll table steps).world := by
    intro table steps
    obtain ⟨es, hrun⟩ :=
      Stage.becomes_afterAll Stage.suits_fitting (Stage.sound_ofDocument d) table steps
    exact hrun.declares (installed_ofDocument d)
  refine ⟨fun es b es' b' h h' ↦ ?_, fun table steps ↦ ?_, fun script r hr ↦ ?_⟩
  · have hdeclares := (h.trans h').declares hi
    refine ⟨hdeclares.globals, hdeclares.kinds, fun c hc ↦ h'.kind (h.orderly hi.orderly) hc,
      fun key c ↦ ?_⟩
    have hfrozen := addGlobal_of_published hdeclares.published key c
    refine ⟨hfrozen, ?_⟩
    rw [World.after, hfrozen]
  · obtain ⟨hpublished, hglobals, hkinds⟩ := hstage table steps
    refine ⟨hglobals, ?_, fun key c ↦ addGlobal_of_published hpublished key c⟩
    rw [Stage.globals, OrderedMap.map_map]
    exact hkinds
  · obtain ⟨n, hn⟩ := Stage.globals_of_mem_reports hr
    rw [hn, Stage.globals, OrderedMap.map_map]
    exact (hstage script.strings (script.steps.take n)).kinds

/-! ### A global that is set -/

/-- What the template denotes that copies a global. -/
def copied : Template.Document where
  globals := .ofList [("x", .string "on")]
  interactions := ⟨[⟨"a", "b", [.assign .set (.fromLocal "k") (.fromGlobal "x")]⟩], [], []⟩

/-- The global is set to another text, and the action fails. -/
def switchedOff : World Unit :=
  (turns 2 ⟨(turns 1 ⟨(copier.2.write 0 (.string "off")).2.1, (copier.2.write 0 (.string "off")).2.2⟩
    ).2.world, [.perform (copier.1.updates "a" "b") .empty]⟩).2.world

theorem run_switchedOff : ∃ es, Run fitting ⟨copier.2, []⟩ es ⟨switchedOff, []⟩ :=
  ⟨_, ((((Run.refl ⟨copier.2, []⟩).deed (.write 0 (.string "off")) trivial fun c p h ↦ by
    cases h
    exact .set rfl).turns 1).deed (.perform (copier.1.updates "a" "b") .empty) trivial
      nofun).turns 2⟩

theorem schema_of_ofDocument_copying :
    Template.Document.ofElement "t" copying = .ok copied ∧
      switchedOff.payload 0 = .string "off" ∧ switchedOff.globals = copier.2.globals ∧
      switchedOff.globals.map (fun c ↦ (switchedOff.payload c).kind) = .ofList [("x", .string)] ∧
      switchedOff.addGlobal "y" 0 = .error (.frozenGlobals "y") := by
  obtain ⟨es, hrun⟩ := run_switchedOff
  have hdocument : ofDocument copied = (copier.1, copier.2) := rfl
  obtain ⟨hschema, -⟩ := schema_of_ofDocument hdocument
  obtain ⟨hglobals, hkinds, -, hfrozen⟩ := hschema [] _ es _ (.refl _) hrun
  exact ⟨rfl, rfl, hglobals, hkinds, (hfrozen "y" 0).1⟩

end Simulation

end LiveTemplate
