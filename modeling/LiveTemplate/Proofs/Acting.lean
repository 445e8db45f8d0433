import LiveTemplate.Proofs.Completing
import LiveTemplate.Proofs.Seeing

/-!
# Running the updates of actions

A document is put to use, and no updates are run except those of its actions (`acting`). What is
still to be run is then a part of actions at any time (`Run.covers`). A cell that is no target of
theirs, that no map of local values and no global leads to, and that nobody writes to from outside,
goes on holding what it holds (`Run.kept`).
-/

namespace LiveTemplate

namespace Interactions

variable {α γ : Type}

/-- Updates refer to nothing and write to nothing that actions do not. -/
structure Covers (i : Interactions α γ) (us : List (Update α)) : Prop where
  references : Update.allReferences us ⊆ i.references
  targets : Update.allTargets us ⊆ i.targets

theorem covers_updates (i : Interactions α γ) (target kind : String) :
    i.Covers (i.updates target kind) :=
  ⟨i.references_updates target kind, i.targets_updates target kind⟩

end Interactions

namespace Engine

open World

variable {η : Type}

theorem covers_within {i : Interactions CellId CellId} {us us' : List (Update CellId)}
    (h : i.Covers us) (h' : Within us' us) : i.Covers us' :=
  ⟨List.Subset.trans h'.references h.references, List.Subset.trans h'.targets h.targets⟩

/-- A cell is not written to by updates, unless a global leads to it. -/
def Spared (c : CellId) (us : List (Update CellId)) (locals : ValueMap) : Prop :=
  .literal c ∉ Update.allTargets us ∧ c ∉ locals.values

/-- A deed does not write to a cell, unless a global leads to it. -/
def Deed.Avoids (c : CellId) : Deed η → Prop
  | .write c' _ => c' ≠ c
  | .perform us locals => Spared c us locals
  | _ => True

namespace Activity

variable {may : Activity η → Deed η → Prop} {a b : Activity η} {es : List Happening}
  {i : Interactions CellId CellId}

/-! ### What is still to be run -/

/-- **What holds of updates when they are begun, and of all parts of them, holds of what is still to
be run.** -/
theorem Run.performs {Q : List (Update CellId) → ValueMap → Prop}
    (hwithin : ∀ {us us' locals}, Q us locals → Within us' us → Q us' locals)
    (hmay : ∀ a us locals, may a (.perform us locals) → Q us locals) (h : Run may a es b)
    (ha : ∀ us locals, .perform us locals ∈ a.stack → Q us locals) :
    ∀ us locals, .perform us locals ∈ b.stack → Q us locals := by
  induction h with
  | refl => exact ha
  | tail run step ih =>
    intro us locals hmem
    cases step with
    | turn w x stack =>
      rcases List.mem_append.1 hmem with hmem | hmem
      · obtain ⟨us', rfl, hpart⟩ := performs_of_turn hmem
        exact hwithin (ih us' locals List.mem_cons_self) hpart
      · exact ih us locals (List.mem_cons_of_mem _ hmem)
    | deed w d stack hpermits hd =>
      rcases List.mem_append.1 hmem with hmem | hmem
      · rw [performs_of_after hmem] at hd
        exact hmay _ us locals hd
      · exact ih us locals hmem

/-- No updates are run but those of actions. -/
def acting (i : Interactions CellId CellId) : Activity η → Deed η → Prop := fun _ d ↦
  ∀ us locals, d = .perform us locals → ∃ target kind, us = i.updates target kind

/-- **What is still to be run is a part of actions**, at any time. -/
theorem Run.covers {w : World η} (h : Run (acting i) ⟨w, []⟩ es b)
    {us : List (Update CellId)} {locals : ValueMap} (hmem : .perform us locals ∈ b.stack) :
    i.Covers us := by
  refine h.performs (Q := fun us _ ↦ i.Covers us) covers_within (fun a us locals hmay ↦ ?_)
    (fun _ _ h ↦ absurd h List.not_mem_nil) us locals hmem
  obtain ⟨target, kind, rfl⟩ := hmay us locals rfl
  exact i.covers_updates target kind

/-! ### Cells out of reach -/

theorem kept_turn {w : World η} (ho : w.Orderly) {c : CellId} (hc : w.HasCell c)
    (hglobal : c ∉ w.globals.values) {x : Work η}
    (hx : ∀ us locals, x = .perform us locals → Spared c us locals) :
    (w.turn x).world.HasCell c ∧ (w.turn x).world.payload c = w.payload c := by
  by_cases hperform : ∃ us locals, x = .perform us locals
  · obtain ⟨us, locals, rfl⟩ := hperform
    obtain ⟨htarget, hlocal⟩ := hx us locals rfl
    have hperformed := w.performed_perform us locals
    rw [turn]
    generalize w.perform us locals = t at *
    cases hperformed with
    | done => exact ⟨hc, rfl⟩
    | failed h => exact (h.spares ho).payload c hc
    | on h => exact (h.spares ho).payload c hc
    | put hr hresolve =>
      rename_i c' p us' r _ _
      have hne : c ≠ c' := by
        refine of_resolve (P := (c ≠ ·)) ?_ ?_ ?_ hresolve
        · rintro key _ hget rfl
          exact hglobal (OrderedMap.mem_values_of_get? hget)
        · rintro _ hmem rfl
          exact hlocal hmem
        · rintro _ hmem rfl
          exact htarget (Reference.eq_literal_of_mem hmem ▸ hr)
      exact ⟨(hasCell_put w c' p c).2 hc, payload_put_of_ne w c' p hne⟩
  · have hvalues := values_turn w fun us locals heq ↦ hperform ⟨us, locals, heq⟩
    exact ⟨(hasCell_of_values hvalues c).2 hc, payload_of_values hvalues c⟩

theorem kept_after {w : World η} (ho : w.Orderly) {c : CellId} (hc : w.HasCell c) {d : Deed η}
    (hpermits : w.Permits d) (hd : d.Avoids c) :
    (w.after d).1.HasCell c ∧ (w.after d).1.payload c = w.payload c := by
  cases d with
  | create p => exact (spares_create ho.cells p).payload c hc
  | write c' p =>
    show (w.write c' p).2.1.HasCell c ∧ (w.write c' p).2.1.payload c = w.payload c
    have hne : c ≠ c' := Ne.symm hd
    cases heq : w.payload c' == p with
    | true =>
      rw [write_of_eq heq]
      exact ⟨hc, rfl⟩
    | false =>
      rw [write_of_ne heq]
      exact ⟨(hasCell_put w c' p c).2 hc, payload_put_of_ne w c' p hne⟩
  | observe c' role => exact (spares_observe hpermits w c').payload c hc
  | cancel sub => exact (spares_cancel hpermits).payload c hc
  | openSignal f =>
    have hvalues := values_openSignal w f
    exact ⟨(hasCell_of_values hvalues c).2 hc, payload_of_values hvalues c⟩
  | letGo s =>
    have hvalues := values_letGo w s
    exact ⟨(hasCell_of_values hvalues c).2 hc, payload_of_values hvalues c⟩
  | addGlobal key c' =>
    simp only [after]
    split
    · rename_i w' hadd
      exact (spares_addGlobal hadd).payload c hc
    · exact ⟨hc, rfl⟩
  | publish => exact (spares_publish w).payload c hc
  | await h => exact (spares_onPublish w h).payload c hc
  | _ => exact ⟨hc, rfl⟩

/-- **A cell out of reach goes on holding what it holds.** -/
theorem Run.kept {c : CellId} (hmay : ∀ a d, may a d → d.Avoids c) (h : Run may a es b)
    (ho : a.world.Orderly) (hpublished : a.world.published = true) (hc : a.world.HasCell c)
    (hglobal : c ∉ a.world.globals.values)
    (ha : ∀ us locals, .perform us locals ∈ a.stack → Spared c us locals) :
    b.world.HasCell c ∧ b.world.payload c = a.world.payload c := by
  induction h with
  | refl => exact ⟨hc, rfl⟩
  | tail run step ih =>
    obtain ⟨hcell, hpayload⟩ := ih
    obtain ⟨-, hglobals⟩ := run.globals ho hpublished
    cases step with
    | turn w x stack =>
      have hspared := run.performs (Q := Spared c)
        (fun hs hwithin ↦ ⟨fun hmem ↦ hs.1 (hwithin.targets hmem), hs.2⟩)
        (fun a us locals hd ↦ hmay a _ hd) ha
      have hkept := kept_turn (run.orderly ho) hcell (hglobals ▸ hglobal)
        fun us locals heq ↦ hspared us locals (heq ▸ List.mem_cons_self)
      exact ⟨hkept.1, hkept.2.trans hpayload⟩
    | deed w d stack hpermits hd =>
      have hkept := kept_after (run.orderly ho) hcell hpermits (hmay _ _ hd)
      exact ⟨hkept.1, hkept.2.trans hpayload⟩

end Activity

end Engine

end LiveTemplate
