import LiveTemplate.Engine.Installation
import LiveTemplate.Proofs.Frame
import LiveTemplate.Proofs.References

/-!
# Declarations put to use

To put a declaration to use makes a new cell for every literal, one after the other from left to
right, and does nothing else (`Installs`). So what is put to use has cells of its own, numbered in
order, and reads back as the declaration as long as they hold what they were made with
(`installed_ofDocument`).
-/

namespace LiveTemplate.Engine

open Template

variable {η : Type}

namespace World

variable {w : World η}

/-! ### New cells -/

/-- New cells for some payloads. -/
def createMany (w : World η) (ps : List Payload) : World η := ps.foldl (fun w p ↦ (w.create p).2) w

theorem createMany_append (w : World η) (ps qs : List Payload) :
    w.createMany (ps ++ qs) = (w.createMany ps).createMany qs := List.foldl_append

theorem next_createMany (w : World η) (ps : List Payload) :
    (w.createMany ps).cells.next = w.cells.next + ps.length := by
  induction ps generalizing w with
  | nil => rfl
  | cons p ps ih =>
    show ((w.create p).2.createMany ps).cells.next = _
    rw [ih, List.length_cons, Nat.add_left_comm, Nat.add_comm ps.length]
    rfl

theorem spares_createMany (hw : w.cells.Tight) (ps : List Payload) :
    Spares w (w.createMany ps) := by
  induction ps generalizing w with
  | nil => exact .refl w
  | cons p ps ih =>
    have hfirst := spares_create hw p
    exact hfirst.trans (ih (hfirst.tight hw))

theorem payload_create (w : World η) (p : Payload) :
    (w.create p).2.HasCell w.cells.next ∧ (w.create p).2.payload w.cells.next = p := by
  have hget : (w.create p).2.cells.get? w.cells.next = some ⟨p, []⟩ :=
    (Registry.get?_add _ _ _).trans (if_pos rfl)
  rw [HasCell, payload, hget]
  exact ⟨rfl, rfl⟩

/-- **New cells hold what they were made with**, in order. -/
theorem payload_createMany (hw : w.cells.Tight) (ps : List Payload) :
    (∀ c ∈ List.range' w.cells.next ps.length, (w.createMany ps).HasCell c) ∧
      (List.range' w.cells.next ps.length).map (w.createMany ps).payload = ps := by
  induction ps generalizing w with
  | nil => exact ⟨fun _ h ↦ absurd h List.not_mem_nil, rfl⟩
  | cons p ps ih =>
    have htight := (spares_create hw p).tight hw
    obtain ⟨hcells, hpayloads⟩ := ih htight
    obtain ⟨hcell, hpayload⟩ := payload_create w p
    obtain ⟨hcell', hpayload'⟩ := (spares_createMany htight ps).payload _ hcell
    rw [List.length_cons, List.range'_succ]
    refine ⟨fun c hc ↦ ?_, ?_⟩
    · rcases List.mem_cons.1 hc with rfl | hc
      · exact hcell'
      · exact hcells c hc
    · rw [List.map_cons]
      exact congrArg₂ _ (hpayload'.trans hpayload) hpayloads

/-- To make cells changes nothing but cells. -/
theorem createMany_eq (w : World η) (ps : List Payload) :
    w.createMany ps = { w with cells := (w.createMany ps).cells } := by
  induction ps generalizing w with
  | nil => rfl
  | cons p ps ih => exact ih (w.create p).2

theorem createAll_eq (w : World η) (l : List (String × Payload)) :
    w.createAll l =
      ((l.map Prod.fst).zip (List.range' w.cells.next l.length), w.createMany (l.map Prod.snd)) := by
  induction l generalizing w with
  | nil => rfl
  | cons e l ih =>
    show ((e.1, w.cells.next) :: ((w.create e.2).2.createAll l).1,
      ((w.create e.2).2.createAll l).2) = _
    rw [ih]
    rfl

/-- New cells for the entries of a list are a map that holds what the list says, and are cells that
there were not before. -/
theorem map_createAll (hw : w.cells.Tight) (l : List (String × Payload)) :
    (OrderedMap.ofList (w.createAll l).1).map (w.createAll l).2.payload = .ofList l ∧
      ∀ c ∈ (OrderedMap.ofList (w.createAll l).1).values,
        (w.createAll l).2.HasCell c ∧ ¬w.HasCell c := by
  obtain ⟨hcells, hpayloads⟩ := payload_createMany hw (l.map Prod.snd)
  rw [List.length_map] at hcells hpayloads
  rw [createAll_eq]
  constructor
  · have hzip := congrArg (List.zip (l.map Prod.fst)) hpayloads
    rw [List.zip_map_right, ← List.zip_of_prod rfl rfl] at hzip
    rw [OrderedMap.map_ofList]
    exact congrArg OrderedMap.ofList hzip
  · intro c hc
    obtain ⟨e, he, rfl⟩ := List.mem_map.1 hc
    have hmem := (List.of_mem_zip (OrderedMap.mem_of_mem_ofList he)).2
    refine ⟨hcells _ hmem, fun hold ↦ ?_⟩
    obtain ⟨cell, hcell⟩ := Option.isSome_iff_exists.1 hold
    exact absurd (hw _ _ hcell) (Nat.not_lt.2 (List.mem_range'_1.1 hmem).1)

/-! ### Putting literals into cells -/

/-- Putting something to use makes a cell for each of its literals. What comes of it is read back by
asking for what these cells hold. -/
structure Installs {τ σ : Type} (m : StateM (World η) σ) (t : τ) (ps : List Payload)
    (cells : σ → List CellId) (read : (CellId → Payload) → σ → τ) : Prop where
  world : ∀ w, (m w).2 = w.createMany ps
  cells : ∀ w, cells (m w).1 = List.range' w.cells.next ps.length
  read : ∀ w f, (List.range' w.cells.next ps.length).map f = ps → read f (m w).1 = t

section Installs

variable {τ τ₁ τ₂ τ₃ σ σ₁ σ₂ σ₃ : Type} {t₁ : τ₁} {t₂ : τ₂} {t₃ : τ₃} {ps₁ ps₂ ps₃ : List Payload}
  {cells : σ → List CellId} {cells₁ : σ₁ → List CellId} {cells₂ : σ₂ → List CellId}
  {cells₃ : σ₃ → List CellId} {read : (CellId → Payload) → σ → τ}
  {read₁ : (CellId → Payload) → σ₁ → τ₁} {read₂ : (CellId → Payload) → σ₂ → τ₂}
  {read₃ : (CellId → Payload) → σ₃ → τ₃} {m₁ : StateM (World η) σ₁} {m₂ : StateM (World η) σ₂}
  {m₃ : StateM (World η) σ₃}

theorem installs_pure {a : σ} {t : τ} (hcells : cells a = []) (hread : ∀ f, read f a = t) :
    Installs (η := η) (pure a) t [] cells read :=
  ⟨fun _ ↦ rfl, fun _ ↦ hcells, fun _ f _ ↦ hread f⟩

theorem Installs.map (h : Installs m₁ t₁ ps₁ cells₁ read₁) {c : σ₁ → σ} {t : τ}
    (hcells : ∀ a, cells (c a) = cells₁ a) (hread : ∀ f a, read₁ f a = t₁ → read f (c a) = t) :
    Installs (do let a ← m₁; pure (c a)) t ps₁ cells read :=
  ⟨fun w ↦ h.world w, fun w ↦ (hcells _).trans (h.cells w),
    fun w f hf ↦ hread f _ (h.read w f hf)⟩

/-- Two things are put to use one after the other. -/
theorem Installs.map₂ (h₁ : Installs m₁ t₁ ps₁ cells₁ read₁) (h₂ : Installs m₂ t₂ ps₂ cells₂ read₂)
    {c : σ₁ → σ₂ → σ} {t : τ} (hcells : ∀ a b, cells (c a b) = cells₁ a ++ cells₂ b)
    (hread : ∀ f a b, read₁ f a = t₁ → read₂ f b = t₂ → read f (c a b) = t) :
    Installs (do let a ← m₁; let b ← m₂; pure (c a b)) t (ps₁ ++ ps₂) cells read := by
  have hnext : ∀ w, (m₁ w).2.cells.next = w.cells.next + ps₁.length := fun w ↦ by
    rw [h₁.world w, next_createMany]
  have hrange : ∀ w : World η, List.range' w.cells.next (ps₁ ++ ps₂).length =
      List.range' w.cells.next ps₁.length ++ List.range' (m₁ w).2.cells.next ps₂.length := by
    intro w
    rw [hnext, List.length_append, ← List.range'_append_1]
  refine ⟨fun w ↦ ?_, fun w ↦ ?_, fun w f hf ↦ ?_⟩
  · show (m₂ (m₁ w).2).2 = _
    rw [h₂.world, h₁.world, createMany_append]
  · show cells (c (m₁ w).1 (m₂ (m₁ w).2).1) = _
    rw [hcells, h₁.cells, h₂.cells, hrange]
  · rw [hrange, List.map_append] at hf
    obtain ⟨hf₁, hf₂⟩ := List.append_inj hf (by simp)
    exact hread f _ _ (h₁.read w f hf₁) (h₂.read _ f hf₂)

/-- Three things are put to use one after the other. -/
theorem Installs.map₃ (h₁ : Installs m₁ t₁ ps₁ cells₁ read₁) (h₂ : Installs m₂ t₂ ps₂ cells₂ read₂)
    (h₃ : Installs m₃ t₃ ps₃ cells₃ read₃) {c : σ₁ → σ₂ → σ₃ → σ} {t : τ}
    (hcells : ∀ a b d, cells (c a b d) = cells₁ a ++ cells₂ b ++ cells₃ d)
    (hread : ∀ f a b d, read₁ f a = t₁ → read₂ f b = t₂ → read₃ f d = t₃ → read f (c a b d) = t) :
    Installs (do let a ← m₁; let b ← m₂; let d ← m₃; pure (c a b d)) t (ps₁ ++ ps₂ ++ ps₃) cells
      read := by
  have hpair : Installs (do let a ← m₁; let b ← m₂; pure (a, b)) (t₁, t₂) (ps₁ ++ ps₂)
      (fun ab ↦ cells₁ ab.1 ++ cells₂ ab.2) (fun f ab ↦ (read₁ f ab.1, read₂ f ab.2)) :=
    h₁.map₂ h₂ (fun _ _ ↦ rfl) fun f a b ha hb ↦ by rw [ha, hb]
  refine hpair.map₂ (c := fun ab d ↦ c ab.1 ab.2 d) h₃ (fun ab d ↦ hcells _ _ _)
    fun f ab d hab hd ↦ ?_
  exact hread f _ _ _ (congrArg Prod.fst hab) (congrArg Prod.snd hab) hd

/-- A list is put to use item by item. -/
theorem installs_mapM {α : Type} {g : α → StateM (World η) σ} {xs : List α} {t : α → τ}
    {ps : α → List Payload} (h : ∀ x ∈ xs, Installs (g x) (t x) (ps x) cells read) :
    Installs (xs.mapM g) (xs.map t) (xs.flatMap ps) (fun ys ↦ ys.flatMap cells)
      (fun f ys ↦ ys.map (read f)) := by
  induction xs with
  | nil => exact installs_pure rfl fun _ ↦ rfl
  | cons x xs ih =>
    rw [List.mapM_cons]
    refine (h x List.mem_cons_self).map₂ (ih fun y hy ↦ h y (List.mem_cons_of_mem _ hy))
      (fun _ _ ↦ rfl) fun f a b ha hb ↦ ?_
    rw [List.map_cons, List.map_cons, ha, hb]

end Installs

/-! ### Predicates and updates -/

theorem installs_reference (r : Reference Payload) :
    Installs (installReference (η := η) r) r r.literals Reference.literals Reference.map := by
  cases r with
  | literal p =>
    refine ⟨fun _ ↦ rfl, fun _ ↦ rfl, fun w f hf ↦ ?_⟩
    have hp : f w.cells.next = p := (List.cons.inj hf).1
    exact congrArg Reference.literal hp
  | fromLocal key => exact installs_pure rfl fun _ ↦ rfl
  | fromGlobal key => exact installs_pure rfl fun _ ↦ rfl

theorem installs_term (t : Term (Reference Payload)) :
    Installs (t.traverse (installReference (η := η))) t (t.operands.flatMap Reference.literals)
      (fun t ↦ t.operands.flatMap Reference.literals) (fun f ↦ Term.map (Reference.map f)) := by
  cases t with
  | relation r left right =>
    have hliterals : (Term.relation r left right).operands.flatMap Reference.literals =
        left.literals ++ right.literals := by simp [Term.operands]
    rw [hliterals]
    exact (installs_reference left).map₂ (installs_reference right)
      (fun a b ↦ by simp [Term.operands]) fun f a b ha hb ↦ by rw [Term.map, ha, hb]
  | changed a window =>
    have hliterals : (Term.changed a window).operands.flatMap Reference.literals = a.literals := by
      simp [Term.operands]
    rw [hliterals]
    exact (installs_reference a).map (fun a ↦ by simp [Term.operands]) fun f a ha ↦ by
      rw [Term.map, ha]

section Formula

variable {τ σ : Type} {g : τ → StateM (World η) σ} {ps : τ → List Payload} {cells : σ → List CellId}
  {read : (CellId → Payload) → σ → τ}

mutual

theorem installs_formula (h : ∀ t, Installs (g t) t (ps t) cells read) : ∀ p : Formula τ,
    Installs (p.traverse g) p (p.terms.flatMap ps) (fun f ↦ f.terms.flatMap cells)
      (fun f ↦ Formula.map (read f))
  | .const b => installs_pure rfl fun _ ↦ rfl
  | .not p => (installs_formula h p).map (fun _ ↦ rfl) fun f a ha ↦ by rw [Formula.map, ha]
  | .and ps => (installs_formulas h ps).map (fun _ ↦ rfl) fun f a ha ↦ by rw [Formula.map, ha]
  | .or ps => (installs_formulas h ps).map (fun _ ↦ rfl) fun f a ha ↦ by rw [Formula.map, ha]
  | .term t => by
    have hterm : (Formula.term t).terms.flatMap ps = ps t := by simp [Formula.terms]
    rw [hterm]
    exact (h t).map (fun a ↦ by simp [Formula.terms]) fun f a ha ↦ by rw [Formula.map, ha]

theorem installs_formulas (h : ∀ t, Installs (g t) t (ps t) cells read) : ∀ qs : List (Formula τ),
    Installs (Formula.traverseAll g qs) qs ((Formula.allTerms qs).flatMap ps)
      (fun fs ↦ (Formula.allTerms fs).flatMap cells) (fun f ↦ Formula.mapAll (read f))
  | [] => installs_pure rfl fun _ ↦ rfl
  | q :: qs => by
    rw [Formula.allTerms, List.flatMap_append]
    exact (installs_formula h q).map₂ (installs_formulas h qs)
      (fun a b ↦ by rw [Formula.allTerms, List.flatMap_append])
      fun f a b ha hb ↦ by rw [Formula.mapAll, ha, hb]

end

end Formula

theorem installs_predicate (p : Predicate Payload) :
    Installs (installPredicate (η := η) p) p p.literals Predicate.literals Predicate.mapLiterals :=
  installs_formula installs_term p

mutual

theorem installs_update : ∀ u : Update Payload,
    Installs (u.traverse (newCell (η := η))) u u.literals Update.literals Update.mapLiterals
  | .assign a target source =>
    (installs_reference target).map₂ (installs_reference source) (fun _ _ ↦ rfl)
      fun f t s ht hs ↦ by rw [Update.mapLiterals, ht, hs]
  | .clear targets =>
    (installs_mapM fun r _ ↦ installs_reference r).map (fun _ ↦ rfl) fun f ts hts ↦ by
      rw [Update.mapLiterals, hts, List.map_id']
  | .sequence us => (installs_updates us).map (fun _ ↦ rfl) fun f a ha ↦ by
    rw [Update.mapLiterals, ha]
  | .when p us => (installs_predicate p).map₂ (installs_updates us) (fun _ _ ↦ rfl)
    fun f q vs hq hvs ↦ by rw [Update.mapLiterals, hq, hvs]
  | .choose p us vs =>
    (installs_predicate p).map₃ (installs_updates us) (installs_updates vs) (fun _ _ _ ↦ rfl)
      fun f q us' vs' hq hus hvs ↦ by rw [Update.mapLiterals, hq, hus, hvs]
  | .switch cs => (installs_cases cs).map (fun _ ↦ rfl) fun f a ha ↦ by rw [Update.mapLiterals, ha]

theorem installs_updates : ∀ us : List (Update Payload),
    Installs (installUpdates (η := η) us) us (Update.allLiterals us) Update.allLiterals
      Update.mapAll
  | [] => installs_pure rfl fun _ ↦ rfl
  | u :: us => (installs_update u).map₂ (installs_updates us) (fun _ _ ↦ rfl)
    fun f v vs hv hvs ↦ by rw [Update.mapAll, hv, hvs]

theorem installs_cases : ∀ cs : List (Case Payload),
    Installs (Update.traverseCases (newCell (η := η)) cs) cs (Update.caseLiterals cs)
      Update.caseLiterals Update.mapCases
  | [] => installs_pure rfl fun _ ↦ rfl
  | .mk p us :: cs =>
    (installs_predicate p).map₃ (installs_updates us) (installs_cases cs) (fun _ _ _ ↦ rfl)
      fun f q us' cs' hq hus hcs ↦ by rw [Update.mapCases, hq, hus, hcs]

end

/-! ### Interactions -/

theorem installs_action (a : Action Payload) :
    Installs (installAction (η := η) a) a (Update.allLiterals a.updates)
      (fun a ↦ Update.allLiterals a.updates) Action.mapLiterals :=
  (installs_updates a.updates).map (fun _ ↦ rfl) fun f us hus ↦ by rw [Action.mapLiterals, hus]

theorem installs_reaction (r : Reaction Payload) :
    Installs (installReaction (η := η) r) r r.predicate.literals (fun r ↦ r.predicate.literals)
      Reaction.mapLiterals :=
  (installs_predicate r.predicate).map (fun _ ↦ rfl) fun f p hp ↦ by rw [Reaction.mapLiterals, hp]

/-- A computation that makes new cells and does nothing else. -/
def Creates {σ : Type} (m : StateM (World η) σ) : Prop := ∀ w, ∃ ps, (m w).2 = w.createMany ps

theorem creates_bind {σ τ : Type} {m : StateM (World η) σ} {k : σ → StateM (World η) τ}
    (hm : Creates m) (hk : ∀ a, Creates (k a)) : Creates (m >>= k) := fun w ↦ by
  obtain ⟨ps, hps⟩ := hm w
  obtain ⟨qs, hqs⟩ := hk (m w).1 (m w).2
  exact ⟨ps ++ qs, by rw [createMany_append, ← hps, ← hqs]; rfl⟩

theorem creates_pure {σ : Type} (a : σ) : Creates (η := η) (pure a) := fun _ ↦ ⟨[], rfl⟩

theorem creates_mapM {α σ : Type} {g : α → StateM (World η) σ} (h : ∀ x, Creates (g x))
    (xs : List α) : Creates (xs.mapM g) := by
  induction xs with
  | nil => exact creates_pure _
  | cons x xs ih =>
    rw [List.mapM_cons]
    exact creates_bind (h x) fun _ ↦ creates_bind ih fun _ ↦ creates_pure _

theorem creates_installWatch {β : Type} {cell : β → StateM (World η) CellId}
    (hcell : ∀ b, Creates (cell b)) (watch : Watch β) : Creates (installWatch cell watch) :=
  creates_bind
    (creates_mapM (fun e : String × β ↦ creates_bind (hcell e.2) fun _ ↦ creates_pure _) _)
    fun _ ↦ creates_pure _

theorem creates_watchedCell (globals : ValueMap) (watched : Watched) :
    Creates (watchedCell (η := η) globals watched) := by
  cases watched with
  | own p => exact fun w ↦ ⟨[p], rfl⟩
  | shared key =>
    unfold watchedCell
    dsimp only
    split
    · exact creates_pure _
    · exact fun w ↦ ⟨[.empty], rfl⟩

/-- **Interactions are put to use** by making cells for their literals, and more for what they
watch. -/
theorem install_eq {β : Type} {cell : β → StateM (World η) CellId} (hcell : ∀ b, Creates (cell b))
    (i : Interactions Payload β) (w : World η) :
    (∃ ps, (install cell i w).2 = w.createMany (i.literals ++ ps)) ∧
      (install cell i w).1.literals = List.range' w.cells.next i.literals.length ∧
      ∀ f, (List.range' w.cells.next i.literals.length).map f = i.literals →
        (install cell i w).1.actions.map (Action.mapLiterals f) = i.actions ∧
          (install cell i w).1.reactions.map (Reaction.mapLiterals f) = i.reactions := by
  have hboth : Installs (do
        let as ← i.actions.mapM (installAction (η := η))
        let rs ← i.reactions.mapM installReaction
        pure (as, rs))
      (i.actions, i.reactions) i.literals
      (fun ar ↦ ar.1.flatMap (fun a ↦ Update.allLiterals a.updates) ++
        ar.2.flatMap fun r ↦ r.predicate.literals)
      (fun f ar ↦ (ar.1.map (Action.mapLiterals f), ar.2.map (Reaction.mapLiterals f))) := by
    have hactions : Installs (i.actions.mapM (installAction (η := η))) (i.actions.map id) _ _ _ :=
      installs_mapM fun a _ ↦ installs_action a
    have hreactions : Installs (i.reactions.mapM (installReaction (η := η))) (i.reactions.map id)
        _ _ _ := installs_mapM fun r _ ↦ installs_reaction r
    exact hactions.map₂ hreactions (fun _ _ ↦ rfl) fun f as rs has hrs ↦ by
      rw [has, hrs, List.map_id, List.map_id]
  obtain ⟨ps, hps⟩ := creates_mapM (creates_installWatch hcell) i.watches (w.createMany i.literals)
  refine ⟨⟨ps, ?_⟩, hboth.cells w, fun f hf ↦ Prod.mk.inj (hboth.read w f hf)⟩
  rw [createMany_append, ← hps, ← hboth.world w]
  rfl

/-- A document is in use: the world is in order and quiet, the global state is published and holds
what the document says, and the literals of actions and reactions are in cells of their own, which
hold what the document says. -/
structure Installed (d : Document) (i : Interactions CellId CellId) (w : World η) : Prop where
  orderly : w.Orderly
  signals : w.signals = .empty
  clock : w.clock = .start
  published : w.published = true
  globals : w.globals.entries.map (fun e ↦ (e.1, w.payload e.2)) = d.globals.entries
  global : ∀ c ∈ w.globals.values, w.HasCell c
  literals : (i.literals).map w.payload = d.interactions.literals
  literal : ∀ c ∈ i.literals, w.HasCell c
  nodup : i.literals.Nodup
  apart : ∀ c ∈ i.literals, c ∉ w.globals.values
  reads : ∀ f, i.literals.map f = d.interactions.literals →
    i.actions.map (Action.mapLiterals f) = d.interactions.actions ∧
      i.reactions.map (Reaction.mapLiterals f) = d.interactions.reactions

/-- The world that holds the globals of a document, and nothing else. -/
def ofGlobals (d : Document) : World η :=
  let (entries, w) := start.createAll d.globals.entries
  { w with globals := .ofList entries, published := true }

theorem ofDocument_eq (d : Document) :
    ofDocument (η := η) d =
      install (watchedCell (ofGlobals (η := η) d).globals) d.interactions (ofGlobals d) := rfl

theorem ofGlobals_eq (d : Document) :
    ofGlobals (η := η) d =
      { start.createMany (d.globals.entries.map Prod.snd) with
        globals := (ofGlobals (η := η) d).globals
        published := true } := by
  rw [ofGlobals, createAll_eq]

theorem entries_ofGlobals (d : Document) :
    (ofGlobals (η := η) d).globals.entries =
      d.globals.keys.zip (List.range' 0 d.globals.entries.length) := by
  have hlength : d.globals.keys.length ≤ (List.range' 0 d.globals.entries.length).length := by
    simp [OrderedMap.keys]
  rw [ofGlobals, createAll_eq]
  refine OrderedMap.entries_ofList ?_
  show ((d.globals.keys.zip (List.range' 0 d.globals.entries.length)).map Prod.fst).Nodup
  rw [List.map_fst_zip hlength]
  exact d.globals.nodup

theorem values_ofGlobals (d : Document) :
    (ofGlobals (η := η) d).globals.values = List.range' 0 d.globals.entries.length := by
  have hlength : (List.range' 0 d.globals.entries.length).length ≤ d.globals.keys.length := by
    simp [OrderedMap.keys]
  rw [OrderedMap.values, entries_ofGlobals, List.map_snd_zip hlength]

theorem spares_ofGlobals (d : Document) : Spares (start : World η) (ofGlobals d) := by
  have hcreated := spares_createMany (w := (start : World η)) Registry.tight_empty
    (d.globals.entries.map Prod.snd)
  rw [ofGlobals_eq]
  refine hcreated.trans ⟨.of_eq rfl, .of_eq rfl, .of_eq rfl fun _ ↦ id, Nat.le_refl _, fun h ↦ ?_⟩
  rw [createMany_eq] at h
  cases h

/-- The cells of the globals hold what the document says. -/
theorem payload_ofGlobals (d : Document) :
    (∀ c ∈ (ofGlobals (η := η) d).globals.values, (ofGlobals (η := η) d).HasCell c) ∧
      (ofGlobals (η := η) d).globals.entries.map
        (fun e ↦ (e.1, (ofGlobals (η := η) d).payload e.2)) = d.globals.entries := by
  obtain ⟨hcells, hpayloads⟩ := payload_createMany (w := (start : World η)) Registry.tight_empty
    (d.globals.entries.map Prod.snd)
  have hcells' : (ofGlobals (η := η) d).cells =
      (start.createMany (d.globals.entries.map Prod.snd)).cells := by rw [ofGlobals_eq]
  rw [List.length_map] at hcells hpayloads
  refine ⟨fun c hc ↦ ?_, ?_⟩
  · rw [values_ofGlobals] at hc
    rw [HasCell, hcells']
    exact hcells c hc
  · have hpayload : (ofGlobals (η := η) d).payload =
        (start.createMany (d.globals.entries.map Prod.snd)).payload :=
      funext fun c ↦ payload_of_cells hcells' c
    rw [entries_ofGlobals, hpayload]
    have hzip := congrArg (List.zip d.globals.keys) hpayloads
    rw [List.zip_map_right] at hzip
    exact hzip.trans (List.zip_of_prod rfl rfl).symm

/-- **To put a document to use.** -/
theorem installed_ofDocument (d : Document) :
    Installed d (ofDocument (η := η) d).1 (ofDocument (η := η) d).2 := by
  have hglobal := payload_ofGlobals (η := η) d
  have hspares := spares_ofGlobals (η := η) d
  have hvalues := values_ofGlobals (η := η) d
  have hpublished : (ofGlobals (η := η) d).published = true := by rw [ofGlobals_eq]
  have hquiet : (ofGlobals (η := η) d).signals = .empty ∧
      (ofGlobals (η := η) d).clock = .start := by
    rw [ofGlobals_eq, createMany_eq]
    exact ⟨rfl, rfl⟩
  have hnext : (ofGlobals (η := η) d).cells.next = d.globals.entries.length := by
    rw [ofGlobals_eq, next_createMany, List.length_map]
    exact Nat.zero_add _
  rw [ofDocument_eq]
  obtain ⟨⟨ps, hworld⟩, hliterals, hreads⟩ :=
    install_eq (creates_watchedCell (ofGlobals (η := η) d).globals) d.interactions (ofGlobals d)
  generalize ofGlobals (η := η) d = w at *
  have ho : w.Orderly := orderly_start.spares hspares
  have hspares' := spares_createMany ho.cells (d.interactions.literals ++ ps)
  obtain ⟨hcells, hpayloads⟩ := payload_createMany ho.cells (d.interactions.literals ++ ps)
  have hsplit := List.range'_append_1 (s := w.cells.next) (m := d.interactions.literals.length)
    (n := ps.length)
  rw [← List.length_append] at hsplit
  rw [← hsplit, List.map_append] at hpayloads
  have hpayloads := (List.append_inj hpayloads (by simp)).1
  rw [hworld]
  have hkept : ∀ c ∈ w.globals.values, (w.createMany (d.interactions.literals ++ ps)).HasCell c ∧
      (w.createMany (d.interactions.literals ++ ps)).payload c = w.payload c :=
    fun c hc ↦ hspares'.payload c (hglobal.1 c hc)
  have hglobals : (w.createMany (d.interactions.literals ++ ps)).globals = w.globals := by
    rw [createMany_eq]
  refine ⟨ho.spares hspares', ?_, ?_, ?_, ?_, fun c hc ↦ ?_, ?_, fun c hc ↦ ?_, ?_, fun c hc ↦ ?_,
    fun f hf ↦ hreads f (hliterals ▸ hf)⟩
  · rw [createMany_eq]
    exact hquiet.1
  · rw [createMany_eq]
    exact hquiet.2
  · rw [createMany_eq]
    exact hpublished
  · rw [hglobals, ← hglobal.2]
    refine List.map_congr_left fun e he ↦ ?_
    rw [(hkept e.2 (List.mem_map_of_mem he)).2]
  · rw [hglobals] at hc
    exact (hkept c hc).1
  · rw [hliterals]
    exact hpayloads
  · rw [hliterals] at hc
    exact hcells c (hsplit ▸ List.mem_append_left _ hc)
  · rw [hliterals]
    exact List.nodup_range'
  · rw [hliterals, List.mem_range'_1] at hc
    rw [hglobals, hvalues, List.mem_range'_1]
    omega

theorem installed_of_ofDocument {d : Document} {i : Interactions CellId CellId} {w : World η}
    (h : ofDocument d = (i, w)) : Installed d i w := by
  have hinstalled := installed_ofDocument (η := η) d
  rwa [h] at hinstalled

end World

end LiveTemplate.Engine
