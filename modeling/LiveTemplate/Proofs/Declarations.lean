import LiveTemplate.Proofs.Acting
import LiveTemplate.Proofs.Installation
import LiveTemplate.Proofs.Repetition

/-!
# What actions do not rewrite

The literals of a document in use are held by cells like any others, so an action that has a literal
for a target rewrites the declaration that it stands in. All other literals stay as the template has
them, whatever is done, as long as nobody reaches them from outside (`declared_of_run`). So if no
action has a literal for a target, the declarations read as they did, they are documented by the same
text, and an event that finds the same does the same.
-/

namespace LiveTemplate

namespace Interactions

variable {α β γ δ : Type}

/-- The outline of the actions and reactions, given what the literals hold. -/
def outlineBindings (literal : α → Payload) (i : Interactions α γ) : Outline :=
  outline literal id ⟨i.actions, i.reactions, []⟩

/-- Declarations are documented as those that are read back from them. -/
theorem outlineBindings_of_mapLiterals {i : Interactions α γ} {j : Interactions Payload δ}
    {g : α → Payload} (hactions : i.actions.map (Action.mapLiterals g) = j.actions)
    (hreactions : i.reactions.map (Reaction.mapLiterals g) = j.reactions) :
    i.outlineBindings g = j.outlineBindings id := by
  rw [outlineBindings, outlineBindings, ← hactions, ← hreactions, outline, outline]
  simp only [List.map_map]
  refine congrArg (Outline.node "interactions") (congrArg (· ++ []) (congrArg₂ (· ++ ·) ?_ ?_))
  · refine List.map_congr_left fun a _ ↦ ?_
    have houtline := Update.outlineAll_mapAll g Payload.describe a.updates
    exact congrArg (Outline.node _) houtline.symm
  · refine List.map_congr_left fun r _ ↦ ?_
    have houtline := Formula.outline_map g Payload.describe r.predicate
    exact congrArg (fun o ↦ Outline.node _ [o]) houtline.symm

end Interactions

namespace Engine

open World Template

variable {η : Type}

namespace Activity

/-- No updates are run but those of actions, and nobody has a literal in hand: none is written to from
outside, and none is a local value. -/
def aloof (i : Interactions CellId CellId) : Activity η → Deed η → Prop := fun a d ↦
  acting i a d ∧ (∀ c p, d = .write c p → c ∉ i.literals) ∧
    ∀ us locals, d = .perform us locals → ∀ c ∈ locals.values, c ∉ i.literals

variable {d : Document} {i : Interactions CellId CellId} {w : World η} {es : List Happening}
  {b : Activity η}

theorem avoids_of_aloof {c : CellId} (hc : c ∈ i.literals) (htarget : .literal c ∉ i.targets)
    {a : Activity η} {d : Deed η} (h : aloof i a d) : d.Avoids c := by
  obtain ⟨hacting, hwrite, hlocals⟩ := h
  cases d with
  | write c' p => exact fun heq ↦ hwrite c' p rfl (heq ▸ hc)
  | perform us locals =>
    obtain ⟨target, kind, rfl⟩ := hacting us locals rfl
    exact ⟨fun hmem ↦ htarget (i.targets_updates target kind hmem),
      fun hmem ↦ hlocals _ locals rfl c hmem hc⟩
  | _ => trivial

/-- **A literal that is no target stays as the template has it.** -/
theorem payload_of_literal (hi : Installed d i w) (h : Run (aloof i) ⟨w, []⟩ es b) {c : CellId}
    (hc : c ∈ i.literals) (htarget : .literal c ∉ i.targets) :
    b.world.HasCell c ∧ b.world.payload c = w.payload c :=
  h.kept (fun _ _ ↦ avoids_of_aloof hc htarget) hi.orderly hi.published (hi.literal c hc)
    (hi.apart c hc) fun _ _ h ↦ absurd h List.not_mem_nil

/-- Two moments are the same for an event. There may be other cells in hand, but they hold the same as
those do, and so do the globals. -/
structure SameFor (i : Interactions CellId CellId) (locals : ValueMap) (g : CellId → CellId)
    (w w' : World η) : Prop where
  fixed : ∀ c ∈ i.literals ++ w.globals.values, g c = c
  injective : ∀ c ∈ i.literals ++ w.globals.values ++ locals.values,
    ∀ c' ∈ i.literals ++ w.globals.values ++ locals.values, g c = g c' → c = c'
  hasCell : ∀ c ∈ w.globals.values ++ locals.values, (w'.HasCell (g c) ↔ w.HasCell c)
  payload : ∀ c ∈ w.globals.values ++ locals.values, w'.payload (g c) = w.payload c

variable {es' : List Happening} {b' : Activity η} {locals : ValueMap} {g : CellId → CellId}

/-- If no action writes to a literal, two moments that are the same for an event are alike. -/
theorem SameFor.alike (hi : Installed d i w) (htargets : ∀ c, .literal c ∉ i.targets)
    (h : Run (aloof i) ⟨w, []⟩ es b) (h' : Run (aloof i) ⟨w, []⟩ es' b')
    (hsame : SameFor i locals g b.world b'.world) :
    Alike g (· ∈ i.literals ++ w.globals.values ++ locals.values) b.world b'.world := by
  obtain ⟨hpublished, hglobals⟩ := h.globals hi.orderly hi.published
  obtain ⟨hpublished', hglobals'⟩ := h'.globals hi.orderly hi.published
  obtain ⟨hfixed, hinjective, hcell, hpayload⟩ := hsame
  rw [hglobals] at hfixed hinjective hcell hpayload
  -- A cell is that of a literal, or one of which the moments are the same.
  have hcases : ∀ c ∈ i.literals ++ w.globals.values ++ locals.values,
      c ∈ i.literals ∨ c ∈ w.globals.values ++ locals.values := by
    intro c hc
    rw [List.append_assoc] at hc
    exact List.mem_append.1 hc
  refine ⟨fun c hc ↦ ?_, fun c hc ↦ ?_, fun c c' hc hc' ↦ hinjective c hc c' hc',
    hpublished'.trans hpublished.symm, fun key ↦ ?_, fun key c hkey ↦ ?_⟩
  · rcases hcases c hc with hc | hc
    · rw [hfixed c (List.mem_append_left _ hc), (payload_of_literal hi h' hc (htargets c)).2,
        (payload_of_literal hi h hc (htargets c)).2]
    · exact hpayload c hc
  · rcases hcases c hc with hc | hc
    · rw [hfixed c (List.mem_append_left _ hc)]
      exact iff_of_true (payload_of_literal hi h' hc (htargets c)).1
        (payload_of_literal hi h hc (htargets c)).1
    · exact hcell c hc
  · rw [hglobals', hglobals]
    cases hkey : w.globals.get? key with
    | none => rfl
    | some c =>
      have hc := OrderedMap.mem_values_of_get? hkey
      exact congrArg some (hfixed c (List.mem_append_right _ hc)).symm
  · rw [hglobals] at hkey
    have hc := OrderedMap.mem_values_of_get? hkey
    exact List.mem_append_left _ (List.mem_append_right _ hc)

/-- **An event that finds the same does the same**, if no action writes to a literal. -/
theorem SameFor.apply (hi : Installed d i w) (htargets : ∀ c, .literal c ∉ i.targets)
    (h : Run (aloof i) ⟨w, []⟩ es b) (h' : Run (aloof i) ⟨w, []⟩ es' b')
    (hsame : SameFor i locals g b.world b'.world) (target kind : String) :
    (b'.world.apply (i.updates target kind) (locals.map g)).outcome =
        (b.world.apply (i.updates target kind) locals).outcome ∧
      SameFor i locals g (b.world.apply (i.updates target kind) locals).world
        (b'.world.apply (i.updates target kind) (locals.map g)).world := by
  have halike := hsame.alike hi htargets h h'
  have ho := h.orderly hi.orderly
  obtain ⟨hpublished, hglobals⟩ := h.globals hi.orderly hi.published
  have hstay : Stay g (· ∈ i.literals ++ w.globals.values ++ locals.values)
      (Update.allReferences (i.updates target kind)) := by
    intro r hr c hc
    have hliteral : c ∈ i.literals := by
      rw [i.literals_eq]
      exact List.mem_flatMap.2 ⟨r, i.references_updates target kind hr, hc⟩
    have hmem := List.mem_append_left w.globals.values hliteral
    refine ⟨List.mem_append_left _ hmem, hsame.fixed c ?_⟩
    rwa [hglobals]
  obtain ⟨houtcome, halike'⟩ := apply_of_alike halike ho
    (fun c hc ↦ List.mem_append_right _ hc) hstay
  refine ⟨houtcome, ?_⟩
  obtain ⟨es'', hrun⟩ := run_apply anything b.world (i.updates target kind) locals [] trivial
  have hglobals' := (hrun.globals ho hpublished).2
  have hmem : ∀ c ∈ w.globals.values ++ locals.values,
      c ∈ i.literals ++ w.globals.values ++ locals.values := fun c hc ↦ by
    rw [List.append_assoc]
    exact List.mem_append_right _ hc
  constructor
  · rw [hglobals']
    exact hsame.fixed
  · rw [hglobals']
    exact hsame.injective
  · rw [hglobals', hglobals]
    exact fun c hc ↦ halike'.hasCell c (hmem c hc)
  · rw [hglobals', hglobals]
    exact fun c hc ↦ halike'.payload c (hmem c hc)

/-- **Actions rewrite only the literals that they write to.** Let anything be done to a document in
use, but that no updates are run except those of its actions, and that nobody has a literal in hand.
At any time every literal that is no target of an action holds what it held. So if no action has a
literal for a target, then the actions and reactions read as in the template, and so does the outline
that documents them; and an event that finds the same at two moments, of the same run or of different
ones, ends with the same outcome and leaves the same. -/
theorem declared_of_run (hdocument : ofDocument d = (i, w)) (h : Run (aloof i) ⟨w, []⟩ es b) :
    (∀ c ∈ i.literals, .literal c ∉ i.targets → b.world.payload c = w.payload c) ∧
    ((∀ c, .literal c ∉ i.targets) →
      i.actions.map (Action.mapLiterals b.world.payload) = d.interactions.actions ∧
      i.reactions.map (Reaction.mapLiterals b.world.payload) = d.interactions.reactions ∧
      i.outlineBindings b.world.payload = d.interactions.outlineBindings id ∧
      ∀ es' b', Run (aloof i) ⟨w, []⟩ es' b' → ∀ locals g, SameFor i locals g b.world b'.world →
        ∀ target kind,
          (b'.world.apply (i.updates target kind) (locals.map g)).outcome =
              (b.world.apply (i.updates target kind) locals).outcome ∧
            SameFor i locals g (b.world.apply (i.updates target kind) locals).world
              (b'.world.apply (i.updates target kind) (locals.map g)).world) := by
  have hi := installed_of_ofDocument hdocument
  refine ⟨fun c hc htarget ↦ (payload_of_literal hi h hc htarget).2, fun htargets ↦ ?_⟩
  have hliterals : i.literals.map b.world.payload = d.interactions.literals := by
    rw [← hi.literals]
    exact List.map_congr_left fun c hc ↦ (payload_of_literal hi h hc (htargets c)).2
  obtain ⟨hactions, hreactions⟩ := hi.reads b.world.payload hliterals
  exact ⟨hactions, hreactions, Interactions.outlineBindings_of_mapLiterals hactions hreactions,
    fun es' b' h' locals g hsame target kind ↦ hsame.apply hi htargets h h' target kind⟩

/-! ### Switching off and on -/

/-- A document of which one action switches a global off, and another switches it on. -/
def switching : Document where
  globals := .ofList [("x", .string "on")]
  interactions := {
    actions := [
      ⟨"x", "off", [.assign .set (.fromGlobal "x") (.literal (.string "off"))]⟩,
      ⟨"x", "on", [.assign .set (.fromGlobal "x") (.literal (.string "on"))]⟩]
    reactions := [
      ⟨"x", "lit", .term (.relation .equals (.fromGlobal "x") (.literal (.string "on")))⟩]
    watches := [] }

/-- That document in use. -/
def switcher : Interactions CellId CellId × World Unit := ofDocument switching

/-- An event at which it is switched. -/
def switch (kind : String) : Deed Unit := .perform (switcher.1.updates "x" kind) .empty

theorem aloof_switch (a : Activity Unit) (kind : String) : aloof switcher.1 a (switch kind) := by
  refine ⟨fun us locals heq ↦ ?_, fun c p heq ↦ ?_, fun us locals heq c hc ↦ ?_⟩
  · cases heq
    exact ⟨"x", kind, rfl⟩
  · cases heq
  · cases heq
    cases hc

/-- The world in which it has been switched off and on again. -/
def switched : World Unit :=
  ((turns 4 ⟨(turns 4 ⟨switcher.2, [.perform (switcher.1.updates "x" "off") .empty]⟩).2.world,
    [.perform (switcher.1.updates "x" "on") .empty]⟩).2).world

theorem run_switched : ∃ es, Run (aloof switcher.1) ⟨switcher.2, []⟩ es ⟨switched, []⟩ :=
  ⟨_, ((((Run.refl ⟨switcher.2, []⟩).deed (switch "off") trivial (aloof_switch _ _)).turns 4).deed
    (switch "on") trivial (aloof_switch _ _)).turns 4⟩

/-- The declarations are as they were, and the first event would do again what it did. -/
theorem declared_of_run_switched :
    switcher.1.actions.map (Action.mapLiterals switched.payload) = switching.interactions.actions ∧
      switcher.1.outlineBindings switched.payload = switching.interactions.outlineBindings id ∧
      (switched.apply (switcher.1.updates "x" "off") .empty).outcome =
        (switcher.2.apply (switcher.1.updates "x" "off") .empty).outcome := by
  obtain ⟨es, hrun⟩ := run_switched
  have htargets : ∀ c, .literal c ∉ switcher.1.targets := by
    intro c hc
    have htargets : switcher.1.targets = [.fromGlobal "x", .fromGlobal "x"] := rfl
    rw [htargets] at hc
    simp at hc
  have hsame : SameFor switcher.1 .empty id switcher.2 switched :=
    ⟨fun _ _ ↦ rfl, fun _ _ _ _ ↦ id, by decide, fun c hc ↦ by
      cases List.mem_singleton.1 hc
      rfl⟩
  have hdocument : ofDocument switching = (switcher.1, switcher.2) := rfl
  obtain ⟨-, hdeclared⟩ := declared_of_run hdocument hrun
  obtain ⟨-, hfirst⟩ := declared_of_run hdocument (Run.refl ⟨switcher.2, []⟩)
  obtain ⟨hactions, -, houtline, -⟩ := hdeclared htargets
  obtain ⟨-, -, -, hevent⟩ := hfirst htargets
  exact ⟨hactions, houtline, (hevent es _ hrun .empty id hsame "x" "off").1⟩

/-- An action that sets one literal to another, in use. -/
def rewriting : Interactions CellId CellId × World Unit :=
  ofDocument ⟨.empty,
    ⟨[⟨"a", "b", [.assign .set (.literal (.int 1)) (.literal (.int 2))]⟩], [], []⟩⟩

-- A literal that is a target is rewritten.
example :
    rewriting.1.actions.map (Action.mapLiterals
      (turns 4 ⟨rewriting.2, [.perform (rewriting.1.updates "a" "b") .empty]⟩).2.world.payload) =
    [⟨"a", "b", [.assign .set (.literal (.int 2)) (.literal (.int 2))]⟩] := rfl

end Activity

end Engine

end LiveTemplate
