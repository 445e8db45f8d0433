import LiveTemplate.Proofs.References
import LiveTemplate.Proofs.Values

/-!
# What updates do in one turn

One turn of a list of updates ends it, or leaves other updates in its place that refer to nothing
new, or puts a payload into the cell of a target besides (`Performed`). If the updates fail there is
a reference in them that stands for nothing, or payloads do not fit (`Failure`).
-/

namespace LiveTemplate

/-- A problem that comes of two steps comes of the first or of the second. -/
theorem Engine.World.exists_of_bind_eq_error {α β : Type} {first : Except Problem α}
    {second : α → Except Problem β} {e : Problem} (h : first >>= second = .error e) :
    first = .error e ∨ ∃ a, first = .ok a ∧ second a = .error e := by
  cases first with
  | error e' =>
    cases h
    exact .inl rfl
  | ok a => exact .inr ⟨a, rfl, h⟩

namespace Formula

open Engine.World (exists_of_bind_eq_error)

variable {τ υ : Type}

mutual

/-- A traversal that fails does so at a term. -/
theorem exists_of_traverse_eq_error {g : τ → Except Problem υ} {e : Problem} : ∀ {p : Formula τ},
    p.traverse g = .error e → ∃ t ∈ p.terms, g t = .error e
  | const _, h => by cases h
  | not p, h => by
    rcases exists_of_bind_eq_error h with h | ⟨_, -, h⟩
    · exact exists_of_traverse_eq_error (p := p) h
    · cases h
  | and ps, h => by
    rcases exists_of_bind_eq_error h with h | ⟨_, -, h⟩
    · exact exists_of_traverseAll_eq_error (l := ps) h
    · cases h
  | or ps, h => by
    rcases exists_of_bind_eq_error h with h | ⟨_, -, h⟩
    · exact exists_of_traverseAll_eq_error (l := ps) h
    · cases h
  | term t, h => by
    rcases exists_of_bind_eq_error h with h | ⟨_, -, h⟩
    · exact ⟨t, List.mem_singleton_self t, h⟩
    · cases h

theorem exists_of_traverseAll_eq_error {g : τ → Except Problem υ} {e : Problem} :
    ∀ {l : List (Formula τ)}, traverseAll g l = .error e → ∃ t ∈ allTerms l, g t = .error e
  | [], h => by cases h
  | p :: ps, h => by
    rcases exists_of_bind_eq_error h with h | ⟨_, -, h⟩
    · obtain ⟨t, ht, hg⟩ := exists_of_traverse_eq_error (p := p) h
      exact ⟨t, List.mem_append_left _ ht, hg⟩
    · rcases exists_of_bind_eq_error h with h | ⟨_, -, h⟩
      · obtain ⟨t, ht, hg⟩ := exists_of_traverseAll_eq_error (l := ps) h
        exact ⟨t, List.mem_append_right _ ht, hg⟩
      · cases h

end

end Formula

namespace Engine

variable {η : Type}

namespace World

/-- What is wrong if an operand, of those that a declaration refers to, is not found. -/
inductive Unfound (w : World η) (locals : ValueMap) (rs : List (Reference CellId)) : Problem → Prop
  /-- It is a global that there is not. -/
  | unknown {key : String} (hmem : .fromGlobal key ∈ rs) (hpublished : w.published = true)
      (hnone : w.globals.get? key = none) : Unfound w locals rs (.unknownGlobal key)
  /-- It stands for nothing. -/
  | operand {t : Term (Reference CellId)} {r : Reference CellId} (ht : t.operands ⊆ rs)
      (hr : r ∈ t.operands) (hnone : w.resolve locals r = .ok none) :
      Unfound w locals rs
        (.unresolvedOperand t.name (r.describe w.describe) (w.describeMap locals))

/-- What is wrong if updates fail. -/
inductive Failure (w : World η) (locals : ValueMap) (us : List (Update CellId)) : Problem → Prop
  /-- A global or an operand is not found. -/
  | unfound {p : Problem} (h : Unfound w locals (Update.allReferences us) p) : Failure w locals us p
  /-- A target stands for nothing. -/
  | target {name : String} {r : Reference CellId} (hmem : r ∈ Update.allTargets us)
      (hnone : w.resolve locals r = .ok none) :
      Failure w locals us (.unresolvedTarget name (r.describe w.describe))
  /-- What is found does not fit. -/
  | fold {a : Assignment} {into from_ : CellId}
      (h : Payload.fold a.mode (w.payload into) (w.payload from_) = none) :
      Failure w locals us (.cannotFold a.name (w.payload from_).kind (w.payload into).kind)

/-- Updates refer to nothing and write to nothing that others do not. -/
structure Within (us' us : List (Update CellId)) : Prop where
  references : Update.allReferences us' ⊆ Update.allReferences us
  targets : Update.allTargets us' ⊆ Update.allTargets us

theorem Within.trans {us us' us'' : List (Update CellId)} (h : Within us'' us')
    (h' : Within us' us) : Within us'' us :=
  ⟨List.Subset.trans h.references h'.references, List.Subset.trans h.targets h'.targets⟩

variable {w w' : World η} {locals : ValueMap} {us : List (Update CellId)} {p : Problem}

/-! ### What is not found -/

theorem eq_of_resolve_eq_error {r : Reference CellId} (h : w.resolve locals r = .error p) :
    ∃ key, r = .fromGlobal key ∧ w.published = true ∧ w.globals.get? key = none ∧
      p = .unknownGlobal key := by
  cases r with
  | literal c => cases h
  | fromLocal key => cases h
  | fromGlobal key =>
    have h : w.global? key = .error p := h
    unfold global? at h
    split at h
    · rename_i hpublished
      cases hget : w.globals.get? key with
      | some c =>
        rw [hget] at h
        cases h
      | none =>
        rw [hget] at h
        cases h
        exact ⟨key, rfl, hpublished, hget, rfl⟩
    · cases h

theorem unfound_of_resolve {r : Reference CellId} {rs : List (Reference CellId)} (hmem : r ∈ rs)
    (h : w.resolve locals r = .error p) : Unfound w locals rs p := by
  obtain ⟨key, rfl, hpublished, hnone, rfl⟩ := eq_of_resolve_eq_error h
  exact .unknown hmem hpublished hnone

theorem Unfound.mono {rs rs' : List (Reference CellId)} (h : Unfound w locals rs p)
    (hle : rs ⊆ rs') : Unfound w locals rs' p := by
  cases h with
  | unknown hmem hpublished hnone => exact .unknown (hle hmem) hpublished hnone
  | operand ht hr hnone => exact .operand (fun r h ↦ hle (ht h)) hr hnone

theorem Unfound.of_values {rs : List (Reference CellId)} (hvalues : w'.values = w.values)
    (h : Unfound w' locals rs p) : Unfound w locals rs p := by
  cases h with
  | unknown hmem hpublished hnone =>
    rw [published_of_values hvalues] at hpublished
    rw [globals_of_values hvalues] at hnone
    exact .unknown hmem hpublished hnone
  | operand ht hr hnone =>
    rw [resolve_of_values hvalues] at hnone
    rw [describe_of_values hvalues, describeMap_of_values hvalues]
    exact .operand ht hr hnone

theorem unfound_of_operand {t : Term (Reference CellId)} {r : Reference CellId}
    (hr : r ∈ t.operands) (h : w.operand locals t.name r = .error p) :
    Unfound w locals t.operands p := by
  unfold operand at h
  rcases exists_of_bind_eq_error h with h | ⟨found, hfound, h⟩
  · exact unfound_of_resolve hr h
  · cases found with
    | none =>
      cases h
      exact .operand (List.Subset.refl _) hr hfound
    | some c => cases h

/-- **A predicate is bound unless an operand is not found.** -/
theorem unfound_of_bind {q : Predicate CellId} (h : w.bind locals q = .error p) :
    Unfound w locals q.references p := by
  obtain ⟨t, ht, h⟩ := Formula.exists_of_traverse_eq_error h
  have hterm : Unfound w locals t.operands p := by
    cases t with
    | relation r left right =>
      rcases exists_of_bind_eq_error h with h | ⟨_, -, h⟩
      · exact unfound_of_operand List.mem_cons_self h
      · rcases exists_of_bind_eq_error h with h | ⟨_, -, h⟩
        · exact unfound_of_operand (List.mem_cons_of_mem _ List.mem_cons_self) h
        · cases h
    | changed a window =>
      rcases exists_of_bind_eq_error h with h | ⟨_, -, h⟩
      · exact unfound_of_operand List.mem_cons_self h
      · cases h
  exact hterm.mono fun r hr ↦ List.mem_flatMap.2 ⟨t, ht, hr⟩

/-- **A predicate is observed unless an operand is not found.** -/
theorem unfound_of_observePredicate {q : Predicate CellId}
    (h : w.observePredicate locals q = .error p) : Unfound w locals q.references p := by
  rw [observePredicate] at h
  cases hbind : w.bind locals q with
  | error e =>
    rw [hbind] at h
    cases h
    exact unfound_of_bind hbind
  | ok f =>
    rw [hbind] at h
    cases h

theorem unfound_of_evaluate {q : Predicate CellId} (h : (w.evaluate locals q).1 = .error p) :
    Unfound w locals q.references p := by
  unfold evaluate at h
  split at h
  · rename_i heq
    cases h
    exact unfound_of_observePredicate heq
  · cases h

/-! ### Choosing updates -/

/-- The worlds that come of a world when predicates are evaluated, one after the other. -/
inductive Evaluated (locals : ValueMap) (w : World η) : World η → Prop
  | refl : Evaluated locals w w
  | evaluate {w' : World η} (h : Evaluated locals w w') (p : Predicate CellId) :
      Evaluated locals w (w'.evaluate locals p).2

theorem Evaluated.spares (ho : w.Orderly) (h : Evaluated locals w w') : Spares w w' := by
  induction h with
  | refl => exact .refl w
  | evaluate _ p ih => exact ih.trans (spares_evaluate (ho.spares ih).signals locals p)

theorem Evaluated.values (h : Evaluated locals w w') : w'.values = w.values := by
  induction h with
  | refl => rfl
  | evaluate _ p ih => exact (values_evaluate _ locals p).trans ih

theorem evaluated_choice (w : World η) (locals : ValueMap) (condition : Predicate CellId)
    (updates otherwise : List (Update CellId)) :
    Evaluated locals w (w.choice locals condition updates otherwise).2 := by
  have hnext : Evaluated locals w _ := .evaluate .refl condition
  unfold choice
  split <;> rename_i heq <;> rwa [heq] at hnext

theorem unfound_of_choice {condition : Predicate CellId} {updates otherwise : List (Update CellId)}
    (h : (w.choice locals condition updates otherwise).1 = .error p) :
    Unfound w locals condition.references p := by
  unfold choice at h
  split at h
  · rename_i heval
    cases h
    exact unfound_of_evaluate (congrArg Prod.fst heval)
  · cases h
  · cases h

theorem Evaluated.chosenCase (h : Evaluated locals w w') (cases : List (Case CellId)) :
    Evaluated locals w (w'.chosenCase locals cases).2 := by
  induction cases generalizing w' with
  | nil => exact h
  | cons first rest ih =>
    obtain ⟨condition, updates⟩ := first
    have hnext := h.evaluate condition
    unfold World.chosenCase
    split <;> rename_i heq <;> rw [heq] at hnext
    · exact hnext
    · exact hnext
    · exact ih hnext

theorem unfound_of_chosenCase {cases : List (Case CellId)}
    (h : (w.chosenCase locals cases).1 = .error p) :
    Unfound w locals (Update.caseReferences cases) p := by
  induction cases generalizing w with
  | nil => cases h
  | cons first rest ih =>
    obtain ⟨condition, updates⟩ := first
    have hvalues := values_evaluate w locals condition
    unfold chosenCase at h
    split at h
    · rename_i heval
      cases h
      refine (unfound_of_evaluate (congrArg Prod.fst heval)).mono fun r hr ↦ ?_
      exact List.mem_append_left _ (List.mem_append_left _ hr)
    · cases h
    · rename_i heval
      rw [heval] at hvalues
      exact ((ih h).of_values hvalues).mono fun r hr ↦ List.mem_append_right _ hr

theorem within_of_chosenCase {cases : List (Case CellId)}
    (h : (w.chosenCase locals cases).1 = .ok us) :
    Update.allReferences us ⊆ Update.caseReferences cases ∧
      Update.allTargets us ⊆ Update.caseTargets cases := by
  induction cases generalizing w with
  | nil =>
    cases h
    exact ⟨List.Subset.refl _, List.Subset.refl _⟩
  | cons first rest ih =>
    obtain ⟨condition, updates⟩ := first
    unfold chosenCase at h
    split at h
    · cases h
    · cases h
      exact ⟨fun r hr ↦ List.mem_append_left _ (List.mem_append_right _ hr),
        fun r hr ↦ List.mem_append_left _ hr⟩
    · obtain ⟨hreferences, htargets⟩ := ih h
      exact ⟨fun r hr ↦ List.mem_append_right _ (hreferences hr),
        fun r hr ↦ List.mem_append_right _ (htargets hr)⟩

/-! ### Changing values -/

theorem resolve_of_target {name : String} {r : Reference CellId} {c : CellId}
    (h : w.target locals name r = .ok c) : w.resolve locals r = .ok (some c) := by
  unfold target at h
  obtain ⟨found, hfound, h⟩ := exists_of_bind_eq_ok h
  cases found with
  | none => cases h
  | some c' =>
    cases h
    exact hfound

theorem failure_of_target {name : String} {r : Reference CellId} (hmem : r ∈ Update.allTargets us)
    (h : w.target locals name r = .error p) : Failure w locals us p := by
  unfold target at h
  rcases exists_of_bind_eq_error h with h | ⟨found, hfound, h⟩
  · exact .unfound (unfound_of_resolve (Update.allTargets_subset us hmem) h)
  · cases found with
    | none =>
      cases h
      exact .target hmem hfound
    | some c => cases h

/-- A part of an update is done that changes at most the payload of its target. -/
inductive Assigned (w : World η) (locals : ValueMap) (target : Reference CellId) :
    World η → List (Work η) → Prop
  | same : Assigned w locals target w []
  | put {c : CellId} {p : Payload} (htarget : w.resolve locals target = .ok (some c))
      (hne : (w.payload c == p) = false) :
      Assigned w locals target (w.put c p) [.tellCell c none (w.observers c)]

theorem assigned_write {target : Reference CellId} {c : CellId}
    (htarget : w.resolve locals target = .ok (some c)) (p : Payload) :
    Assigned w locals target (w.write c p).2.1 (w.write c p).2.2 := by
  cases hne : w.payload c == p with
  | true =>
    rw [write_of_eq hne]
    exact .same
  | false =>
    rw [write_of_ne hne]
    exact .put htarget hne

theorem assigned_foldInto {name : String} {target source : Reference CellId}
    {mode : Payload.FoldMode} {works : List (Work η)}
    (h : w.foldInto locals name target source mode = .ok (w', works)) :
    Assigned w locals target w' works := by
  unfold foldInto at h
  obtain ⟨found, -, h⟩ := exists_of_bind_eq_ok h
  cases found with
  | none =>
    cases h
    exact .same
  | some from_ =>
    obtain ⟨into, hinto, h⟩ := exists_of_bind_eq_ok h
    cases hf : w.fold into from_ mode with
    | none =>
      rw [hf] at h
      cases h
    | some done =>
      rw [hf] at h
      cases h
      obtain ⟨p, -, hp⟩ := Option.map_eq_some_iff.1 hf
      have hassigned := assigned_write (resolve_of_target hinto) p
      rwa [hp] at hassigned

theorem failure_of_foldInto {a : Assignment} {target source : Reference CellId}
    (htarget : target ∈ Update.allTargets us) (hsource : source ∈ Update.allReferences us)
    (h : w.foldInto locals a.name target source a.mode = .error p) : Failure w locals us p := by
  unfold foldInto at h
  rcases exists_of_bind_eq_error h with h | ⟨found, -, h⟩
  · exact .unfound (unfound_of_resolve hsource h)
  · cases found with
    | none => cases h
    | some from_ =>
      rcases exists_of_bind_eq_error h with h | ⟨into, -, h⟩
      · exact failure_of_target htarget h
      · cases hf : w.fold into from_ a.mode with
        | none =>
          rw [hf] at h
          cases h
          exact .fold (Option.map_eq_none_iff.1 hf)
        | some done =>
          rw [hf] at h
          cases h

theorem assigned_assignReference {a : Assignment} {target source : Reference CellId}
    {works : List (Work η)} (h : w.assignReference locals a target source = .ok (w', works)) :
    Assigned w locals target w' works := by
  unfold assignReference at h
  split at h
  · obtain ⟨into, -, h⟩ := exists_of_bind_eq_ok h
    split at h
    · exact assigned_foldInto h
    · cases h
      exact .same
  · exact assigned_foldInto h

theorem failure_of_assignReference {a : Assignment} {target source : Reference CellId}
    (htarget : target ∈ Update.allTargets us) (hsource : source ∈ Update.allReferences us)
    (h : w.assignReference locals a target source = .error p) : Failure w locals us p := by
  unfold assignReference at h
  split at h
  · rcases exists_of_bind_eq_error h with h | ⟨into, -, h⟩
    · exact failure_of_target htarget h
    · split at h
      · exact failure_of_foldInto htarget hsource h
      · cases h
  · exact failure_of_foldInto htarget hsource h

theorem assigned_clearReference {target : Reference CellId} {works : List (Work η)}
    (h : w.clearReference locals target = .ok (w', works)) : Assigned w locals target w' works := by
  unfold clearReference at h
  obtain ⟨into, hinto, h⟩ := exists_of_bind_eq_ok h
  have hassigned := assigned_write (resolve_of_target hinto) (w.payload into).zero
  have heq : (w.write into (w.payload into).zero).2 = (w', works) := Except.ok.inj h
  rwa [heq] at hassigned

theorem failure_of_clearReference {target : Reference CellId}
    (htarget : target ∈ Update.allTargets us) (h : w.clearReference locals target = .error p) :
    Failure w locals us p := by
  unfold clearReference at h
  rcases exists_of_bind_eq_error h with h | ⟨into, -, h⟩
  · exact failure_of_target htarget h
  · cases h

/-! ### Turns -/

/-- Parts of an update may take its place. -/
theorem within_append {u : Update CellId} {us' : List (Update CellId)}
    (hreferences : Update.allReferences us' ⊆ u.references)
    (htargets : Update.allTargets us' ⊆ u.targets) (rest : List (Update CellId)) :
    Within (us' ++ rest) (u :: rest) where
  references := by
    rw [Update.allReferences_append, Update.allReferences]
    exact List.append_subset.2 ⟨List.subset_append_of_subset_left _ hreferences,
      List.subset_append_right _ _⟩
  targets := by
    rw [Update.allTargets_append, Update.allTargets]
    exact List.append_subset.2 ⟨List.subset_append_of_subset_left _ htargets,
      List.subset_append_right _ _⟩

/-- What updates do in one turn. -/
inductive Performed (w : World η) (locals : ValueMap) (us : List (Update CellId)) : Turn η → Prop
  /-- There are none. -/
  | done (h : us = []) : Performed w locals us (.ending w (.ok ()))
  /-- They fail, and have done nothing. -/
  | failed {w' : World η} {p : Problem} (h : Evaluated locals w w') (hp : Failure w locals us p) :
      Performed w locals us (.ending w' (.error p))
  /-- They go on, and have done nothing. -/
  | on {w' : World η} {us' : List (Update CellId)} (h : Evaluated locals w w')
      (hwithin : Within us' us) :
      Performed w locals us (.goOn w' [.perform us' locals])
  /-- They go on, after a payload has been put into the cell of a target. -/
  | put {c : CellId} {p : Payload} {us' : List (Update CellId)} {r : Reference CellId}
      (hr : r ∈ Update.allTargets us) (hc : w.resolve locals r = .ok (some c))
      (hne : (w.payload c == p) = false) (hwithin : Within us' us) :
      Performed w locals us
        (.goOn (w.put c p) [.tellCell c none (w.observers c), .perform us' locals])

theorem performed_primitive {done : Except Problem (World η × List (Work η))}
    {target : Reference CellId} (htarget : target ∈ Update.allTargets us)
    (hdone : ∀ w' works, done = .ok (w', works) → Assigned w locals target w' works)
    (hfail : ∀ p, done = .error p → Failure w locals us p) {rest : List (Update CellId)}
    (hwithin : Within rest us) : Performed w locals us (w.primitive done rest locals) := by
  unfold primitive
  split
  · exact .failed .refl (hfail _ rfl)
  · rename_i w' works
    have hassigned := hdone w' works rfl
    cases hassigned with
    | same => exact .on .refl hwithin
    | put hc hne => exact .put htarget hc hne hwithin

theorem performed_branch {chosen : Except Problem (List (Update CellId)) × World η}
    (hchosen : Evaluated locals w chosen.2)
    (hfail : ∀ p, chosen.1 = .error p → Failure w locals us p) {rest : List (Update CellId)}
    (hwithin : ∀ us', chosen.1 = .ok us' → Within (us' ++ rest) us) :
    Performed w locals us (branch chosen rest locals) := by
  unfold branch
  split
  · exact .failed hchosen (hfail _ rfl)
  · exact .on hchosen (hwithin _ rfl)

/-- **What updates can do in one turn.** -/
theorem performed_perform (w : World η) (us : List (Update CellId)) (locals : ValueMap) :
    Performed w locals us (w.perform us locals) := by
  unfold perform
  split
  · exact .done rfl
  · rename_i a target source rest
    exact performed_primitive (List.mem_cons_self ..) (fun _ _ h ↦ assigned_assignReference h)
      (fun _ h ↦ failure_of_assignReference (List.mem_cons_self ..)
        (List.mem_cons_of_mem _ (List.mem_cons_self ..)) h)
      ⟨List.subset_append_right _ _, List.subset_append_right _ _⟩
  · exact .on .refl ⟨List.subset_append_right _ _, List.subset_append_right _ _⟩
  · rename_i target others rest
    exact performed_primitive (List.mem_cons_self ..) (fun _ _ h ↦ assigned_clearReference h)
      (fun _ h ↦ failure_of_clearReference (List.mem_cons_self ..) h)
      ⟨List.subset_cons_self _ _, List.subset_cons_self _ _⟩
  · rename_i updates rest
    exact .on .refl (within_append (List.Subset.refl _) (List.Subset.refl _) rest)
  · rename_i condition updates rest
    refine performed_branch (w.evaluated_choice _ _ _ _)
      (fun p h ↦ .unfound ((unfound_of_choice h).mono fun r hr ↦ ?_)) fun us' h ↦ ?_
    · exact List.mem_append_left _ (List.mem_append_left _ hr)
    · rcases eq_or_eq_of_choice h with rfl | rfl
      · exact within_append (List.subset_append_right _ _) (List.Subset.refl _) rest
      · exact within_append (List.nil_subset _) (List.nil_subset _) rest
  · rename_i condition updates otherwise rest
    refine performed_branch (w.evaluated_choice _ _ _ _)
      (fun p h ↦ .unfound ((unfound_of_choice h).mono fun r hr ↦ ?_)) fun us' h ↦ ?_
    · exact List.mem_append_left _ (List.mem_append_left _ (List.mem_append_left _ hr))
    · rcases eq_or_eq_of_choice h with rfl | rfl
      · refine within_append (fun r hr ↦ ?_) (List.subset_append_left _ _) rest
        exact List.mem_append_left _ (List.mem_append_right _ hr)
      · exact within_append (List.subset_append_right _ _) (List.subset_append_right _ _) rest
  · rename_i cases rest
    refine performed_branch (.chosenCase .refl _)
      (fun p h ↦ .unfound ((unfound_of_chosenCase h).mono (List.subset_append_left _ _)))
      fun us' h ↦ ?_
    obtain ⟨hreferences, htargets⟩ := within_of_chosenCase h
    exact within_append hreferences htargets rest

end World

end Engine

end LiveTemplate
