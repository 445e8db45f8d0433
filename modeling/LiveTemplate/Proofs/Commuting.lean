import LiveTemplate.Proofs.Applying
import LiveTemplate.Proofs.Freshness

/-!
# Updates that commute

Updates write to the cells that their targets come upon, and to no others (`Plays.frame`). What they
do there depends only on the cells that their references come upon, at least if they succeed
(`Plays.of_agrees`): the text of a problem can quote all local values.

So if updates write to nothing that others refer to, they are no hindrance to them: the others still
succeed, and leave the same in their own targets (`Applied.after`). If that is so both ways, it makes
no difference which updates come first (`applied_commute`).
-/

namespace LiveTemplate.Engine

variable {η : Type}

namespace World

variable {w w' v : World η} {locals : ValueMap} {rs rs' : List (Reference CellId)}
  {Q : CellId → Prop} {c : CellId}

/-- References come upon a cell, by whatever name. -/
def Finds (w : World η) (locals : ValueMap) (rs : List (Reference CellId)) (c : CellId) : Prop :=
  ∃ r ∈ rs, w.resolve locals r = .ok (some c)

theorem Finds.mono (h : w.Finds locals rs c) (hle : rs ⊆ rs') : w.Finds locals rs' c := by
  obtain ⟨r, hr, hc⟩ := h
  exact ⟨r, hle hr, hc⟩

/-- The same globals are published in two worlds, so references come upon the same cells in both. -/
structure SameGlobals (w w' : World η) : Prop where
  published : w.published = true
  published' : w'.published = true
  globals : w'.globals = w.globals

namespace SameGlobals

theorem resolve (h : SameGlobals w w') (locals : ValueMap) (r : Reference CellId) :
    w'.resolve locals r = w.resolve locals r :=
  resolve_of_published h.published h.published' h.globals locals r

theorem finds (h : SameGlobals w w') : w'.Finds locals rs c ↔ w.Finds locals rs c := by
  simp only [Finds, h.resolve]

theorem trans {w'' : World η} (h : SameGlobals w w') (h' : SameGlobals w' w'') :
    SameGlobals w w'' :=
  ⟨h.published, h'.published', h'.globals.trans h.globals⟩

theorem symm (h : SameGlobals w w') : SameGlobals w' w :=
  ⟨h.published', h.published, h.globals.symm⟩

end SameGlobals

theorem sameGlobals_edit (hpublished : w.published = true) (e : Edit) :
    SameGlobals w (w.edit e).1 :=
  ⟨hpublished, (globals_edit w e).2.trans hpublished, (globals_edit w e).1⟩

/-! ### The frame of moves -/

variable {ms : List (Move CellId)} {o : Except Problem Unit} {cells : List CellId}

/-- **Moves leave all as it is** but the cells that their targets come upon. -/
theorem Plays.frame (h : Plays locals w ms o cells w') (hpublished : w.published = true) :
    SameGlobals w w' ∧ ∀ c, ¬w.Finds locals (ms.flatMap Move.targets) c →
      w'.payload c = w.payload c := by
  induction h with
  | done => exact ⟨⟨hpublished, hpublished, rfl⟩, fun _ _ ↦ rfl⟩
  | fail => exact ⟨⟨hpublished, hpublished, rfl⟩, fun _ _ ↦ rfl⟩
  | @carry w _ primitive e ms _ _ he _ ih =>
    have hedit := sameGlobals_edit hpublished e
    obtain ⟨hglobals, hkept⟩ := ih hedit.published'
    refine ⟨hedit.trans hglobals, fun c hc ↦ ?_⟩
    have hlater : ¬(w.edit e).1.Finds locals (ms.flatMap Move.targets) c := fun hfinds ↦
      hc ((hedit.finds.1 hfinds).mono (List.subset_append_right _ _))
    refine (hkept c hlater).trans (payload_edit_of_ne w ?_)
    rintro p rfl
    exact hc ⟨primitive.target, List.mem_cons_self, (editOf_eq_ok.1 he).some.1⟩
  | ask _ _ ih => exact ih hpublished

/-! ### The locality of moves -/

/-- Worlds with the same globals hold the same in some cells, which exist in both. -/
structure Agrees (Q : CellId → Prop) (w w' : World η) : Prop extends SameGlobals w w' where
  payload : ∀ c, Q c → w'.payload c = w.payload c
  hasCell : ∀ c, Q c → (w'.HasCell c ↔ w.HasCell c)

section Agrees

variable (h : Agrees Q w w')
include h

theorem Agrees.edit (e : Edit) : Agrees Q (w.edit e).1 (w'.edit e).1 where
  toSameGlobals := (sameGlobals_edit h.published e).symm.trans <|
    h.toSameGlobals.trans (sameGlobals_edit h.published' e)
  payload c hc := by
    obtain _ | ⟨c', p⟩ := e
    · exact h.payload c hc
    · rw [payload_edit, payload_edit]
      by_cases heq : c = c'
      · subst heq
        simp only [h.payload c hc, h.hasCell c hc]
      · rw [h.payload c hc, if_neg fun hp ↦ heq hp.1, if_neg fun hp ↦ heq hp.1]
  hasCell c hc := by rw [hasCell_edit, hasCell_edit, h.hasCell c hc]

/-- A primitive is carried out in the same way. -/
theorem editOf_of_agrees {primitive : Primitive CellId} {e : Edit}
    (hfinds : ∀ c, w.Finds locals primitive.references c → Q c)
    (he : w.editOf locals primitive = .ok e) : w'.editOf locals primitive = .ok e := by
  have hfound : ∀ r ∈ primitive.references, ∀ c, w.resolve locals r = .ok (some c) →
      w'.payload c = w.payload c := fun r hr c hc ↦ h.payload c (hfinds c ⟨r, hr, hc⟩)
  rw [editOf_eq_ok] at he ⊢
  cases he with
  | skip hsource hempty =>
    refine .skip (by rwa [h.resolve]) fun ha ↦ ?_
    obtain ⟨c, htarget, hzero⟩ := hempty ha
    refine ⟨c, by rwa [h.resolve], ?_⟩
    rwa [hfound _ List.mem_cons_self c htarget]
  | keep source htarget hzero =>
    refine .keep source (by rwa [h.resolve]) ?_
    rwa [hfound _ List.mem_cons_self _ htarget]
  | fold hsource htarget hfold hempty =>
    have hinto := hfound _ List.mem_cons_self _ htarget
    have hfrom := hfound _ (List.mem_cons_of_mem _ List.mem_cons_self) _ hsource
    refine .fold (by rwa [h.resolve]) (by rwa [h.resolve]) ?_ fun ha ↦ ?_
    · rwa [hinto, hfrom]
    · rw [hinto]
      exact hempty ha
  | clear htarget =>
    rw [← hfound _ List.mem_cons_self _ htarget]
    exact .clear (by rwa [h.resolve])

/-- A condition is answered in the same way. -/
theorem evaluate_of_agrees {condition : Predicate CellId} {answer : Bool}
    (hfinds : ∀ c, w.Finds locals condition.references c → Q c)
    (ha : (w.evaluate locals condition).1 = .ok answer) :
    (w'.evaluate locals condition).1 = .ok answer := by
  cases hbind : w.bind locals condition with
  | error p =>
    rw [evaluate_eq, hbind] at ha
    cases ha
  | ok f =>
    have hbind' := bind_of_published h.published h.published' h.globals hbind
    have hholds : f.terms.map (·.holds w'.payload) = f.terms.map (·.holds w.payload) :=
      Activity.map_holds_congr fun t ht c hc ↦ h.payload c (hfinds c (exists_of_mem_bind hbind ht hc))
    rw [evaluate_of_bind hbind, ← Formula.evalOver_map] at ha
    rw [evaluate_of_bind hbind', ← Formula.evalOver_map, hholds, ha]

end Agrees

/-- **What moves do that succeed depends only on the cells that they refer to.** -/
theorem Plays.of_agrees (h : Agrees Q w w') (hplays : Plays locals w ms (.ok ()) cells v)
    (hfinds : ∀ c, w.Finds locals (ms.flatMap Move.references) c → Q c) :
    ∃ v', Plays locals w' ms (.ok ()) cells v' ∧ Agrees Q v v' := by
  generalize hok : (Except.ok () : Except Problem Unit) = o at hplays
  induction hplays generalizing w' with
  | done => exact ⟨w', .done w', h⟩
  | fail => cases hok
  | @carry w _ primitive e ms _ _ he _ ih =>
    have hfirst : ∀ c, w.Finds locals primitive.references c → Q c := fun c hc ↦
      hfinds c (hc.mono (List.subset_append_left _ _))
    have hedit := sameGlobals_edit h.published e
    obtain ⟨v', hplays', hagrees⟩ := ih (h.edit e) (fun c hc ↦
      hfinds c ((hedit.finds.1 hc).mono (List.subset_append_right _ _))) hok
    have haltered : w'.altered e = w.altered e := altered_congr fun c p heq ↦ by
      subst heq
      refine h.payload c (hfirst c ⟨primitive.target, ?_, (editOf_eq_ok.1 he).some.1⟩)
      exact primitive.target_mem_references
    rw [← haltered]
    exact ⟨v', .carry (editOf_of_agrees h hfirst he) hplays', hagrees⟩
  | ask ha _ ih =>
    obtain ⟨v', hplays', hagrees⟩ := ih h
      (fun c hc ↦ hfinds c (hc.mono (List.subset_append_right _ _))) hok
    have ha' := evaluate_of_agrees h
      (fun c hc ↦ hfinds c (hc.mono (List.subset_append_left _ _))) ha
    exact ⟨v', .ask ha' hplays', hagrees⟩

/-- The cells that updates come upon exist. -/
theorem Furnished.hasCell {us : List (Update CellId)} (h : w.Furnished us locals)
    (hc : w.Finds locals (Update.allReferences us) c) : w.HasCell c := by
  obtain ⟨r, hr, hc⟩ := hc
  exact of_resolve (fun _ _ hkey ↦ h.globals _ (OrderedMap.mem_values_of_get? hkey)) h.locals
    (fun c hliteral ↦ (h.stay r hr c hliteral).1) hc

end World

namespace Activity

open World Update

variable {w w₁ w₂ w' : World η} {us vs : List (Update CellId)} {locals : ValueMap}
  {base : List (Work η)} {ms ms' ms'' : List (Moment η)} {o : Except Problem Unit} {c : CellId}

/-! ### Updates that are applied -/

/-- Updates that have ended have left the work below them. -/
theorem Applied.run (h : Applied w us locals base ms o w') :
    ∃ es, Run steady ⟨w, .perform us locals :: base⟩ es ⟨w', base⟩ := by
  obtain ⟨v, us', hhistory, -, hending⟩ := h
  have hturn := hhistory.run.turn
  rw [World.turn, hending] at hturn
  exact ⟨_, hturn⟩

theorem Applied.furnished (h : Applied w us locals base ms o w') (ho : w.Orderly)
    (hpublished : w.published = true) (hf : w.Furnished vs locals) : w'.Furnished vs locals := by
  obtain ⟨es, hrun⟩ := h.run
  have hglobals := (hrun.globals ho hpublished).2
  exact ⟨fun c hc ↦ hrun.hasCell ho (hf.locals c hc), fun c hc ↦ hrun.hasCell ho (hf.literals c hc),
    fun c hc ↦ hrun.hasCell ho (hf.globals c (hglobals ▸ hc))⟩

/-- **Updates leave all values as they are** but those that their targets come upon. -/
theorem Applied.frame (h : Applied w us locals base ms o w') (ho : w.Orderly)
    (hpublished : w.published = true) (hf : w.Furnished us locals) (hc : w.HasCell c)
    (hfree : ¬w.Finds locals (allTargets us) c) : w'.payload c = w.payload c := by
  obtain ⟨moves, v, hmakes, hplays, hpayload⟩ := h.exists_plays ho hpublished hf
  rw [hpayload c hc]
  exact (hplays.frame hpublished).2 c fun hfinds ↦
    hfree (hfinds.mono (touches_of_makesAll us hmakes).targets)

/-- Updates write to nothing that others refer to. -/
def Bypass (w : World η) (locals : ValueMap) (us vs : List (Update CellId)) : Prop :=
  ∀ c, w.Finds locals (allTargets us) c → ¬w.Finds locals (allReferences vs) c

/-- Updates bypass others if what their targets stand for is nothing that references of the others
stand for. -/
theorem bypass_of_resolve (h : ∀ r ∈ allTargets us, ∀ r' ∈ allReferences vs,
    (w.resolve locals r).toOption ≠ (w.resolve locals r').toOption) : Bypass w locals us vs := by
  rintro c ⟨r, hr, hc⟩ ⟨r', hr', hc'⟩
  exact h r hr r' hr' (by rw [hc, hc'])

section After

variable (hus : Applied w us locals base ms (.ok ()) w₁)
  (hvs : Applied w vs locals base ms' (.ok ()) w₂) (ho : w.Orderly)
  (hpublished : w.published = true) (hf : w.Furnished us locals) (hf' : w.Furnished vs locals)
  (hbypass : Bypass w locals us vs)
include hus hvs ho hpublished hf hf' hbypass

/-- **Updates do the same after others that bypass them**: they succeed, what they have written is the
same, and of all else what the others have left. -/
theorem Applied.after (h : Applied w₁ vs locals base ms'' o w') :
    o = .ok () ∧ ∀ c, (w.Finds locals (allTargets vs) c → w'.payload c = w₂.payload c) ∧
      (w.HasCell c → ¬w.Finds locals (allTargets vs) c → w'.payload c = w₁.payload c) := by
  obtain ⟨es, hrun⟩ := hus.run
  obtain ⟨hpublished₁, hglobals⟩ := hrun.globals ho hpublished
  have hagrees : Agrees (w.Finds locals (allReferences vs)) w w₁ :=
    { published := hpublished
      published' := hpublished₁
      globals := hglobals
      payload := fun c hc ↦ hus.frame ho hpublished hf (hf'.hasCell hc) fun hc' ↦ hbypass c hc' hc
      hasCell := fun c hc ↦ ⟨fun _ ↦ hf'.hasCell hc, fun hcell ↦ hrun.hasCell ho hcell⟩ }
  -- The moves that they make in the beginning, they also make after the others.
  obtain ⟨moves, v, hmakes, hplays, hpayload⟩ := hvs.exists_plays ho hpublished hf'
  obtain ⟨v', hplays', hagrees'⟩ := hplays.of_agrees hagrees fun c hc ↦
    hc.mono (touches_of_makesAll vs hmakes).references
  have ho₁ := hrun.orderly ho
  have hf₁ := hus.furnished ho hpublished hf'
  obtain ⟨moves', v'', hmakes', hplays'', hpayload'⟩ := h.exists_plays ho₁ hpublished₁ hf₁
  obtain ⟨rfl, -, rfl⟩ := hplays''.unique (parts_of_makesAll vs hmakes' hmakes) hplays'
  refine ⟨rfl, fun c ↦ ⟨fun hc ↦ ?_, fun hc hfree ↦ ?_⟩⟩
  · have hrefers := hc.mono (allTargets_subset vs)
    have hcell := hf'.hasCell hrefers
    rw [hpayload' c (hrun.hasCell ho hcell), hagrees'.payload c hrefers, hpayload c hcell]
  · exact h.frame ho₁ hpublished₁ hf₁ (hrun.hasCell ho hc) fun hfinds ↦
      hfree (hagrees.finds.1 hfinds)

end After

/-- Updates whose moves come to an outcome come to that outcome. -/
theorem outcome_of_plays {moves : List (Move CellId)} {cells : List CellId} {v : World η}
    (ho : w.Orderly) (hpublished : w.published = true) (hf : w.Furnished us locals)
    (hmakes : MakesAll us moves) (hplays : Plays locals w moves o cells v) :
    (w.apply us locals).outcome = o := by
  obtain ⟨ms, hms⟩ := exists_applied w us locals []
  obtain ⟨moves', v', hmakes', hplays', -⟩ := hms.exists_plays ho hpublished hf
  exact (hplays'.unique (parts_of_makesAll us hmakes' hmakes) hplays).1

/-- **Independent updates commute.** Let observers do anything but change values, and let the globals
be published. If no cell that targets of one list of updates come upon is one that any references of
the other come upon, and each of them succeeds alone, then each of them ends after the other, and
succeeds; and in whichever order they are applied, all values hold the same. Besides, updates that
are applied leave every value as it is that none of their targets comes upon. -/
theorem applied_commute (ho : w.Orderly) (hpublished : w.published = true)
    (hf : w.Furnished us locals) (hf' : w.Furnished vs locals) (base : List (Work η)) :
    (∀ ms w₁ ms' w₂, Bypass w locals us vs → Bypass w locals vs us →
      Applied w us locals base ms (.ok ()) w₁ → Applied w vs locals base ms' (.ok ()) w₂ →
        (∃ ms w₁₂, Applied w₁ vs locals base ms (.ok ()) w₁₂) ∧
        (∃ ms w₂₁, Applied w₂ us locals base ms (.ok ()) w₂₁) ∧
        ∀ ms o w₁₂ ms' o' w₂₁, Applied w₁ vs locals base ms o w₁₂ →
          Applied w₂ us locals base ms' o' w₂₁ →
            o = .ok () ∧ o' = .ok () ∧ ∀ c, w.HasCell c → w₁₂.payload c = w₂₁.payload c) ∧
      ∀ ms o w', Applied w us locals base ms o w' → ∀ c, w.HasCell c →
        ¬w.Finds locals (allTargets us) c → w'.payload c = w.payload c := by
  refine ⟨fun ms w₁ ms' w₂ hbypass hbypass' hus hvs ↦ ?_,
    fun ms o w' h c hc hfree ↦ h.frame ho hpublished hf hc hfree⟩
  refine ⟨?_, ?_, fun ms o w₁₂ ms' o' w₂₁ h h' ↦ ?_⟩
  · obtain ⟨ms, hms⟩ := exists_applied w₁ vs locals base
    have hok := (hus.after hvs ho hpublished hf hf' hbypass hms).1
    exact ⟨ms, _, hok ▸ hms⟩
  · obtain ⟨ms, hms⟩ := exists_applied w₂ us locals base
    have hok := (hvs.after hus ho hpublished hf' hf hbypass' hms).1
    exact ⟨ms, _, hok ▸ hms⟩
  · obtain ⟨hok, hafter⟩ := hus.after hvs ho hpublished hf hf' hbypass h
    obtain ⟨hok', hafter'⟩ := hvs.after hus ho hpublished hf' hf hbypass' h'
    refine ⟨hok, hok', fun c hc ↦ ?_⟩
    -- A cell is written by one of them at most.
    by_cases hv : w.Finds locals (allTargets vs) c
    · have hu : ¬w.Finds locals (allTargets us) c := fun hu ↦
        hbypass' c hv (hu.mono (allTargets_subset us))
      rw [(hafter c).1 hv, (hafter' c).2 hc hu]
    · by_cases hu : w.Finds locals (allTargets us) c
      · rw [(hafter c).2 hc hv, (hafter' c).1 hu]
      · rw [(hafter c).2 hc hv, (hafter' c).2 hc hu, hus.frame ho hpublished hf hc hu,
          hvs.frame ho hpublished hf' hc hv]

/-! ### Updates by other names -/

/-- The second cell of the tally is also a local value. -/
def chosen : ValueMap := (OrderedMap.empty : ValueMap).insert "chosen" 1

def restart : List (Update CellId) := [.clear [.fromGlobal "count"]]

/-- The local value is the literal by another name, so this brings it to zero. -/
def rechoose : List (Update CellId) :=
  [.choose (.term (.relation .equals (.literal 1) (.fromLocal "chosen")))
    [.assign .toggle (.fromLocal "chosen") (.literal 1)] [.clear [.literal 2]]]

theorem furnished_restart : tally.Furnished restart chosen := ⟨by decide, by decide, by decide⟩

theorem furnished_rechoose : tally.Furnished rechoose chosen := ⟨by decide, by decide, by decide⟩

theorem applied_commute_chosen :
    ((tally.apply restart chosen).world.apply rechoose chosen).outcome = .ok () ∧
      ((tally.apply rechoose chosen).world.apply restart chosen).outcome = .ok () ∧
      ∀ c, tally.HasCell c →
        ((tally.apply restart chosen).world.apply rechoose chosen).world.payload c =
          ((tally.apply rechoose chosen).world.apply restart chosen).world.payload c := by
  obtain ⟨hcommute, -⟩ := applied_commute orderly_tally rfl furnished_restart furnished_rechoose []
  obtain ⟨ms, hms⟩ := exists_applied tally restart chosen []
  obtain ⟨ms', hms'⟩ := exists_applied tally rechoose chosen []
  have hplays : Plays chosen tally [.carry (.clear (.fromGlobal "count"))] _ _ _ :=
    .carry (e := some (0, .int 0)) rfl (.done _)
  have hplays' : Plays chosen tally
      [.ask (.term (.relation .equals (.literal 1) (.fromLocal "chosen"))) true,
        .carry (.assign .toggle (.fromLocal "chosen") (.literal 1))] _ _ _ :=
    .ask rfl (.carry (e := some (1, .int 0)) rfl (.done _))
  rw [outcome_of_plays orderly_tally rfl furnished_restart ⟨[_], [], rfl, rfl, rfl⟩ hplays] at hms
  rw [outcome_of_plays orderly_tally rfl furnished_rechoose
    ⟨[_, _], [], rfl, ⟨true, [_], rfl, [_], [], rfl, rfl, rfl⟩, rfl⟩ hplays'] at hms'
  obtain ⟨ms₁₂, h₁₂⟩ := exists_applied (tally.apply restart chosen).world rechoose chosen []
  obtain ⟨ms₂₁, h₂₁⟩ := exists_applied (tally.apply rechoose chosen).world restart chosen []
  obtain ⟨-, -, hboth⟩ := hcommute ms _ ms' _ (bypass_of_resolve (by decide))
    (bypass_of_resolve (by decide)) hms hms'
  exact hboth _ _ _ _ _ _ h₁₂ h₂₁

end Activity

end LiveTemplate.Engine
