import LiveTemplate.Proofs.Ringing
import LiveTemplate.Proofs.Updates

/-!
# Publication

Until the global state is published it takes keys, answers nobody, and keeps a list of those who
wait for it. To publish it is to take that list and to begin to call who is on it; from then on it
takes no more keys, and who wants to be called is called at once, perhaps while others on the list
have still to be called.

The main statement is that whatever the callers do, and those who are called, everybody is called
once, and is told of the same keys (`Publishes`). What carries it is that of all work only that of
calling those who waited is about publication, and it does nothing else (`hears_turn`); so those who
have been called, those who are to be called and those who wait are together all who have asked to
be called, at every moment (`accounts`).
-/

namespace LiveTemplate.Engine

open World

variable {η : Type}

/-- What a world knows of publication: the globals, whether they are published, and who waits. -/
structure Publicity (η : Type) where
  globals : ValueMap
  published : Bool
  hooks : List η

/-- Who is to be called, of those who have asked to be called after publication. -/
def Work.hooks : Work η → List η
  | .tellPublished rest => rest
  | _ => []

/-- Who is called, if he is told of publication. -/
def Call.hears : Call η → Option η
  | ⟨h, .published _⟩ => some h
  | _ => none

/-- Whether a deed is about publication. -/
def Deed.publicizes : Deed η → Prop
  | .addGlobal _ _ | .publish | .await _ => True
  | _ => False

namespace World

variable {w w' : World η} {locals : ValueMap}

/-- What a world knows of publication. -/
def publicity (w : World η) : Publicity η := ⟨w.globals, w.published, w.hooks⟩

/-! ### Work that has nothing to do with publication -/

theorem publicity_observeTerms (w : World η) (s : SignalId) (place : Nat)
    (terms : List (Term CellId)) : (w.observeTerms s place terms).publicity = w.publicity := by
  have hoperands : ∀ (operands : List CellId) (w : World η) (place : Nat),
      (operands.foldl (fun w c ↦ (w.observe c (.term s place)).2) w).publicity = w.publicity := by
    intro operands
    induction operands with
    | nil => exact fun _ _ ↦ rfl
    | cons c rest ih => exact fun w place ↦ ih _ place
  induction terms generalizing w place with
  | nil => rfl
  | cons t rest ih => exact (ih _ _).trans (hoperands t.operands w place)

theorem publicity_openSignal (w : World η) (f : Formula (Term CellId)) :
    (w.openSignal f).2.publicity = w.publicity := publicity_observeTerms _ _ _ _

theorem publicity_letGo (w : World η) (s : SignalId) : (w.letGo s).publicity = w.publicity := by
  unfold letGo dispose
  split
  · rfl
  · split
    · split <;> rfl
    · rfl

theorem publicity_evaluate (w : World η) (locals : ValueMap) (p : Predicate CellId) :
    (w.evaluate locals p).2.publicity = w.publicity := by
  rw [evaluate, observePredicate]
  cases w.bind locals p with
  | error e => rfl
  | ok f => exact (publicity_letGo _ _).trans (publicity_openSignal w f)

theorem Evaluated.publicity (h : Evaluated locals w w') : w'.publicity = w.publicity := by
  induction h with
  | refl => rfl
  | evaluate _ p ih => exact (publicity_evaluate _ locals p).trans ih

theorem publicity_setTerm (w : World η) (s : SignalId) (place : Nat) (f : LiveTerm → LiveTerm) :
    (w.setTerm s place f).1.publicity = w.publicity ∧
      (w.setTerm s place f).2.flatMap Work.hooks = [] := by
  unfold setTerm
  split
  · exact ⟨rfl, rfl⟩
  · dsimp only
    split <;> exact ⟨rfl, rfl⟩

theorem publicity_refresh (w : World η) (s : SignalId) (place : Nat) :
    (w.refresh s place).1.publicity = w.publicity ∧
      (w.refresh s place).2.flatMap Work.hooks = [] := by
  have hchanged : ∀ clock : Clock (Task η), _ := fun clock ↦
    publicity_setTerm { w with clock } s place fun t ↦ { t with truth := true, timer := none }
  unfold refresh
  split
  · exact ⟨rfl, rfl⟩
  · split
    · exact publicity_setTerm w s place _
    · dsimp only
      split <;> refine ⟨(hchanged _).1, ?_⟩ <;> rw [List.flatMap_append, (hchanged _).2] <;> rfl

theorem publicity_settle (w : World η) (s : SignalId) (place : Nat) :
    (w.settle s place).1.publicity = w.publicity ∧
      (w.settle s place).2.flatMap Work.hooks = [] := by
  unfold settle
  split
  · split
    · exact publicity_setTerm w s place _
    · exact publicity_setTerm _ s place _
  · exact ⟨rfl, rfl⟩

theorem publicity_perform (w : World η) (us : List (Update CellId)) (locals : ValueMap) :
    (w.perform us locals).world.publicity = w.publicity ∧
      (w.perform us locals).next.flatMap Work.hooks = [] ∧ (w.perform us locals).call = none := by
  have hperformed := performed_perform w us locals
  generalize w.perform us locals = t at *
  cases hperformed with
  | done => exact ⟨rfl, rfl, rfl⟩
  | failed h => exact ⟨h.publicity, rfl, rfl⟩
  | on h => exact ⟨h.publicity, rfl, rfl⟩
  | put => exact ⟨rfl, rfl, rfl⟩

/-! ### Work and deeds that do -/

/-- **Of all work only that of calling those who waited is about publication**, and it does nothing
else. -/
theorem publicity_turn (w : World η) (x : Work η) :
    (w.turn x).world.publicity = w.publicity ∧
      (w.turn x).next.flatMap Work.hooks = x.hooks.tail ∧
      (w.turn x).call.bind Call.hears = x.hooks.head? := by
  cases x with
  | tellCell c current rest =>
    cases rest with
    | nil => exact ⟨rfl, rfl, rfl⟩
    | cons o rest =>
      simp only [turn]
      split
      · split
        · exact ⟨rfl, rfl, rfl⟩
        · exact ⟨rfl, rfl, rfl⟩
        · obtain ⟨hworld, hworks⟩ := publicity_refresh w _ _
          exact ⟨hworld, by rw [Turn.goOn, List.flatMap_append, hworks]; rfl, rfl⟩
      · exact ⟨rfl, rfl, rfl⟩
  | tellSignal s truth rest =>
    cases rest with
    | nil => exact ⟨rfl, rfl, rfl⟩
    | cons e rest =>
      simp only [turn]
      split <;> exact ⟨rfl, rfl, rfl⟩
  | tellProblem p rest =>
    cases rest with
    | nil => exact ⟨rfl, rfl, rfl⟩
    | cons e rest =>
      simp only [turn]
      split <;> exact ⟨rfl, rfl, rfl⟩
  | tellPublished rest =>
    cases rest with
    | nil => exact ⟨rfl, rfl, rfl⟩
    | cons h rest => exact ⟨rfl, List.append_nil rest, rfl⟩
  | settle s place =>
    obtain ⟨hworld, hworks⟩ := publicity_settle w s place
    exact ⟨hworld, hworks, rfl⟩
  | letGo s => exact ⟨publicity_letGo w s, rfl, rfl⟩
  | advance target =>
    simp only [turn]
    split
    · exact ⟨rfl, rfl, rfl⟩
    · rename_i timer clock _
      split
      · exact ⟨rfl, rfl, rfl⟩
      · obtain ⟨hworld, hworks⟩ := publicity_setTerm { w with clock } _ _ _
        exact ⟨hworld, by rw [Turn.goOn, List.flatMap_append]; exact congrArg (· ++ _) hworks, rfl⟩
  | perform us locals =>
    obtain ⟨hworld, hnext, hcall⟩ := publicity_perform w us locals
    exact ⟨hworld, hnext, by rw [turn, hcall]; rfl⟩

/-- Other deeds have nothing to do with publication. -/
theorem publicity_after (w : World η) {d : Deed η} (hd : ¬d.publicizes) :
    (w.after d).1.publicity = w.publicity ∧ (w.after d).2.flatMap Work.hooks = [] := by
  cases d with
  | write c p =>
    simp only [after, write]
    split <;> exact ⟨rfl, rfl⟩
  | cancel sub => cases sub <;> exact ⟨rfl, rfl⟩
  | openSignal f => exact ⟨publicity_openSignal w f, rfl⟩
  | letGo s => exact ⟨publicity_letGo w s, rfl⟩
  | addGlobal key c => exact absurd trivial hd
  | publish => exact absurd trivial hd
  | await h => exact absurd trivial hd
  | _ => exact ⟨rfl, rfl⟩

/-- A global is added under a new key before publication. -/
theorem eq_of_addGlobal {key : String} {c : CellId} (h : w.addGlobal key c = .ok w') :
    w.published = false ∧ key ∉ w.globals.keys ∧
      w' = { w with globals := w.globals.insert key c } := by
  unfold addGlobal at h
  split at h
  · cases h
  · rename_i hpublished
    split at h
    · cases h
    · rename_i hhas
      cases h
      exact ⟨eq_false_of_ne_true hpublished, fun hkey ↦ hhas (OrderedMap.mem_keys_iff.1 hkey), rfl⟩

end World

namespace Activity

/-- Who is to be called, of those who have asked to be called after publication. -/
def pending (a : Activity η) : List η := a.stack.flatMap Work.hooks

namespace Moment

/-- Who is told of publication at a moment. -/
def hears (m : Moment η) : Option η := m.call.bind Call.hears

/-- Who asks at a moment to be called after publication. -/
def registers : Moment η → Option η
  | deed _ (.await h) _ => some h
  | _ => none

/-- The global that is added at a moment, if it is accepted. -/
def inserts : Moment η → Option (String × CellId)
  | deed w (.addGlobal key c) _ => (w.addGlobal key c).toOption.map fun _ ↦ (key, c)
  | _ => none

/-- Whether someone publishes at a moment. -/
def isPublication : Moment η → Bool
  | deed _ .publish _ => true
  | _ => false

/-- What a moment has to do with publication. -/
structure Publicizes (m : Moment η) : Prop where
  published : m.after.world.published = (m.before.world.published || m.isPublication)
  calls : (m.hears.toList ++ (m.after.pending ++ m.after.world.hooks)).Perm
    (m.before.pending ++ m.before.world.hooks ++ m.registers.toList)
  keys : m.after.world.globals.entries = m.before.world.globals.entries ++ m.inserts.toList
  waiting : m.after.world.published = false → m.before.world.published = false ∧
    (m.before.pending = [] → m.after.pending = []) ∧
    m.after.world.hooks = m.before.world.hooks ++ m.registers.toList
  emptied : (m.before.world.published = true → m.before.world.hooks = []) →
    m.after.world.published = true → m.after.world.hooks = []

variable {m : Moment η} {w : World η} {stack : List (Work η)}

/-- At most somebody is called who was to be called. -/
theorem publicizes_of_quiet (hpublicity : m.after.world.publicity = m.before.world.publicity)
    (hpending : m.hears.toList ++ m.after.pending = m.before.pending)
    (hregisters : m.registers = none) (hinserts : m.inserts = none)
    (hagain : m.isPublication = true → m.before.world.published = true) : m.Publicizes := by
  have hglobals : m.after.world.globals = m.before.world.globals :=
    congrArg Publicity.globals hpublicity
  have hpublished : m.after.world.published = m.before.world.published :=
    congrArg Publicity.published hpublicity
  have hhooks : m.after.world.hooks = m.before.world.hooks := congrArg Publicity.hooks hpublicity
  refine ⟨?_, .of_eq ?_, ?_, fun hun ↦ ⟨hpublished ▸ hun, fun hnil ↦ ?_, ?_⟩, fun hover hp ↦ ?_⟩
  · rw [hpublished]
    cases hp : m.isPublication with
    | false => exact (Bool.or_false _).symm
    | true => rw [hagain hp, Bool.true_or]
  · rw [hregisters, hhooks, ← List.append_assoc, hpending]
    exact (List.append_nil _).symm
  · rw [hinserts, hglobals]
    exact (List.append_nil _).symm
  · exact (List.append_eq_nil_iff.1 (hpending.trans hnil)).2
  · rw [hregisters, hhooks]
    exact (List.append_nil _).symm
  · rw [hhooks]
    exact hover (hpublished ▸ hp)

theorem publicizes_turn (w : World η) (x : Work η) (stack : List (Work η)) :
    (turn w x stack).Publicizes := by
  obtain ⟨hworld, hnext, hcall⟩ := publicity_turn w x
  refine publicizes_of_quiet hworld ?_ rfl rfl fun hp ↦ absurd hp Bool.false_ne_true
  show ((w.turn x).call.bind Call.hears).toList ++ ((w.turn x).next ++ stack).flatMap Work.hooks =
    (x :: stack).flatMap Work.hooks
  rw [hcall, List.flatMap_append, hnext, List.flatMap_cons, ← List.append_assoc]
  cases x.hooks <;> rfl

theorem publicizes_addGlobal (w : World η) (key : String) (c : CellId) (stack : List (Work η)) :
    (deed w (.addGlobal key c) stack).Publicizes := by
  have hafter : (deed w (.addGlobal key c) stack).after =
      ⟨(w.addGlobal key c).toOption.getD w, stack⟩ := by
    simp only [after, World.after]
    split <;> rename_i heq <;> rw [heq] <;> rfl
  have hinserts : (deed w (.addGlobal key c) stack).inserts =
      (w.addGlobal key c).toOption.map fun _ ↦ (key, c) := rfl
  cases hadd : w.addGlobal key c with
  | error e =>
    rw [hadd] at hafter hinserts
    have hagain : (deed w (.addGlobal key c) stack).isPublication = true → w.published = true :=
      fun hp ↦ absurd hp Bool.false_ne_true
    refine publicizes_of_quiet ?_ ?_ rfl hinserts hagain <;> rw [hafter] <;> rfl
  | ok w' =>
    rw [hadd] at hafter hinserts
    obtain ⟨hpublished, hnew, rfl⟩ := eq_of_addGlobal hadd
    refine ⟨?_, ?_, ?_, ?_, ?_⟩ <;> rw [hafter]
    · exact (Bool.or_false _).symm
    · exact .of_eq (List.append_nil _).symm
    · rw [hinserts]
      exact OrderedMap.setEntry_of_not_mem c hnew
    · exact fun hun ↦ ⟨hun, id, (List.append_nil _).symm⟩
    · exact id

theorem publicizes_publish (w : World η) (stack : List (Work η)) :
    (deed w .publish stack).Publicizes := by
  cases hpublished : w.published with
  | true =>
    have hafter : (deed w .publish stack).after = ⟨w, stack⟩ := by
      rw [after, World.after, World.publish, if_pos hpublished]
      rfl
    refine publicizes_of_quiet ?_ ?_ rfl rfl (fun _ ↦ hpublished) <;> rw [hafter] <;> rfl
  | false =>
    have hafter : (deed w .publish stack).after =
        ⟨{ w with published := true, hooks := [] }, .tellPublished w.hooks :: stack⟩ := by
      rw [after, World.after, World.publish, if_neg (by simp [hpublished])]
      rfl
    refine ⟨?_, ?_, ?_, ?_, ?_⟩ <;> rw [hafter]
    · exact (Bool.or_true _).symm
    · show (w.hooks ++ stack.flatMap Work.hooks ++ []).Perm
        (stack.flatMap Work.hooks ++ w.hooks ++ [])
      rw [List.append_nil, List.append_nil]
      exact List.perm_append_comm
    · exact (List.append_nil _).symm
    · exact fun hun ↦ absurd hun.symm Bool.false_ne_true
    · exact fun _ _ ↦ rfl

theorem publicizes_await (w : World η) (h : η) (stack : List (Work η)) :
    (deed w (.await h) stack).Publicizes := by
  cases hpublished : w.published with
  | true =>
    have hafter : (deed w (.await h) stack).after = ⟨w, .tellPublished [h] :: stack⟩ := by
      rw [after, World.after, World.onPublish, if_pos hpublished]
      rfl
    refine ⟨?_, ?_, ?_, ?_, ?_⟩ <;> rw [hafter]
    · exact (Bool.or_false _).symm
    · show ([h] ++ (stack.flatMap Work.hooks ++ w.hooks)).Perm
        (stack.flatMap Work.hooks ++ w.hooks ++ [h])
      exact List.perm_append_comm
    · exact (List.append_nil _).symm
    · exact fun hun ↦ absurd (hun.symm.trans hpublished) Bool.false_ne_true
    · exact id
  | false =>
    have hafter : (deed w (.await h) stack).after =
        ⟨{ w with hooks := w.hooks ++ [h] }, stack⟩ := by
      rw [after, World.after, World.onPublish, if_neg (by simp [hpublished])]
      rfl
    refine ⟨?_, ?_, ?_, ?_, ?_⟩ <;> rw [hafter]
    · exact (Bool.or_false _).symm
    · show (stack.flatMap Work.hooks ++ (w.hooks ++ [h])).Perm
        (stack.flatMap Work.hooks ++ w.hooks ++ [h])
      rw [List.append_assoc]
    · exact (List.append_nil _).symm
    · exact fun hun ↦ ⟨hun, id, rfl⟩
    · exact fun _ hp ↦ absurd (hpublished.symm.trans hp) Bool.false_ne_true

/-- **What any moment has to do with publication.** -/
theorem publicizes (m : Moment η) : m.Publicizes := by
  cases m with
  | turn w x stack => exact publicizes_turn w x stack
  | deed w d stack =>
    by_cases hd : d.publicizes
    · cases d with
      | addGlobal key c => exact publicizes_addGlobal w key c stack
      | publish => exact publicizes_publish w stack
      | await h => exact publicizes_await w h stack
      | _ => exact hd.elim
    · obtain ⟨hworld, hworks⟩ := publicity_after w hd
      have hpending : ((w.after d).2 ++ stack).flatMap Work.hooks = stack.flatMap Work.hooks := by
        rw [List.flatMap_append, hworks, List.nil_append]
      have hnone : (deed w d stack).registers = none ∧ (deed w d stack).inserts = none ∧
          (deed w d stack).isPublication = false := by
        cases d with
        | addGlobal key c => exact absurd trivial hd
        | publish => exact absurd trivial hd
        | await h => exact absurd trivial hd
        | _ => exact ⟨rfl, rfl, rfl⟩
      obtain ⟨hregisters, hinserts, hnot⟩ := hnone
      exact publicizes_of_quiet hworld hpending hregisters hinserts fun hp ↦
        absurd (hnot.symm.trans hp) Bool.false_ne_true

/-- Who is told of publication is the first of those who are to be called. -/
theorem eq_turn_of_hears {h : η} (hm : m.hears = some h) :
    ∃ w rest stack, m = turn w (.tellPublished (h :: rest)) stack := by
  cases m with
  | turn w x stack =>
    have hfirst : x.hooks.head? = some h := (publicity_turn w x).2.2.symm.trans hm
    cases x with
    | tellPublished rest =>
      obtain ⟨rest', hrest⟩ := List.head?_eq_some_iff.1 hfirst
      exact ⟨w, rest', stack, by rw [← hrest, Work.hooks]⟩
    | _ => cases hfirst
  | deed w d stack => cases hm

/-- Those who are to be called go on to be called, the first first. -/
theorem exists_of_tellPublished {hooks : List η} (h : .tellPublished hooks ∈ m.before.stack) :
    ∃ called rest, hooks = called ++ rest ∧ called.Sublist m.hears.toList ∧
      (rest = [] ∨ .tellPublished rest ∈ m.after.stack) := by
  have hkept : .tellPublished hooks ∈ m.after.stack → ∃ called rest, hooks = called ++ rest ∧
      called.Sublist m.hears.toList ∧ (rest = [] ∨ .tellPublished rest ∈ m.after.stack) :=
    fun h ↦ ⟨[], hooks, rfl, List.nil_sublist _, .inr h⟩
  cases m with
  | deed w d stack => exact hkept (List.mem_append_right _ h)
  | turn w x stack =>
    rcases List.mem_cons.1 h with rfl | h
    · cases hooks with
      | nil => exact ⟨[], [], rfl, List.nil_sublist _, .inl rfl⟩
      | cons first rest =>
        exact ⟨[first], rest, rfl, List.Sublist.refl _, .inr List.mem_cons_self⟩
    · exact hkept (List.mem_append_right _ h)

theorem eq_deed_of_isPublication (hm : m.isPublication = true) :
    ∃ w stack, m = deed w .publish stack := by
  cases m with
  | turn w x stack => cases hm
  | deed w d stack =>
    cases d with
    | publish => exact ⟨w, stack, rfl⟩
    | _ => cases hm

/-- At publication those who wait are to be called. -/
theorem tellPublished_mem (hbefore : m.before.world.published = false)
    (hafter : m.after.world.published = true) :
    .tellPublished m.before.world.hooks ∈ m.after.stack := by
  have hpublication : m.isPublication = true := by
    rw [m.publicizes.published, hbefore, Bool.false_or] at hafter
    exact hafter
  obtain ⟨w, stack, rfl⟩ := m.eq_deed_of_isPublication hpublication
  have hunpublished : w.published = false := hbefore
  show _ ∈ w.publish.2 ++ stack
  rw [World.publish, if_neg (by simp [hunpublished])]
  exact List.mem_cons_self

end Moment

variable {may : Activity η → Deed η → Prop} {a b : Activity η} {m : Moment η}
  {ms : List (Moment η)}

/-! ### The accounts of publication -/

/-- The accounts of publication, after some moments. -/
structure Announced (ms : List (Moment η)) (a : Activity η) : Prop where
  published : a.world.published = ms.any Moment.isPublication
  /-- Those who have been called, those who are to be called and those who wait are all who have
  asked. -/
  accounted : (ms.filterMap Moment.hears ++ (a.pending ++ a.world.hooks)).Perm
    (ms.filterMap Moment.registers)
  keys : a.world.globals.entries = ms.filterMap Moment.inserts
  /-- Before publication all wait, in the order in which they have asked. -/
  waiting : a.world.published = false →
    a.pending = [] ∧ a.world.hooks = ms.filterMap Moment.registers
  /-- After publication nobody waits. -/
  emptied : a.world.published = true → a.world.hooks = []

theorem announced_start : Announced [] (⟨World.start, []⟩ : Activity η) where
  published := rfl
  accounted := .nil
  keys := rfl
  waiting := fun _ ↦ ⟨rfl, rfl⟩
  emptied := nofun

/-- **The accounts are kept up at every moment.** -/
theorem Announced.concat (h : Announced ms m.before) : Announced (ms ++ [m]) m.after := by
  have hm := m.publicizes
  refine ⟨?_, ?_, ?_, fun hun ↦ ?_, hm.emptied h.emptied⟩
  · rw [hm.published, h.published, List.any_append]
    exact congrArg _ (Bool.or_false _).symm
  · rw [filterMap_concat, filterMap_concat, List.append_assoc]
    refine (hm.calls.append_left _).trans ?_
    rw [← List.append_assoc]
    exact h.accounted.append_right _
  · rw [filterMap_concat, hm.keys, h.keys]
  · obtain ⟨hbefore, hpending, hhooks⟩ := hm.waiting hun
    obtain ⟨hnil, hwaiting⟩ := h.waiting hbefore
    rw [filterMap_concat, hhooks, hwaiting]
    exact ⟨hpending hnil, rfl⟩

namespace History

theorem announced (h : History may ⟨World.start, []⟩ ms b) : Announced ms b :=
  h.keeps (P := Announced) (fun _ _ ha ↦ ha.concat) orderly_start announced_start

/-- **Those who are to be called are called in order**, those who come in between aside. -/
theorem exists_of_tellPublished (h : History may a ms b) {hooks : List η}
    (hmem : .tellPublished hooks ∈ a.stack) :
    ∃ called rest, hooks = called ++ rest ∧ called.Sublist (ms.filterMap Moment.hears) ∧
      (rest = [] ∨ .tellPublished rest ∈ b.stack) := by
  induction h with
  | refl => exact ⟨[], hooks, rfl, List.nil_sublist _, .inr hmem⟩
  | tail m h _ ih =>
    obtain ⟨called, rest, rfl, hcalled, hrest⟩ := ih
    rw [filterMap_concat]
    rcases hrest with rfl | hrest
    · exact ⟨called, [], rfl, hcalled.trans (List.sublist_append_left _ _), .inl rfl⟩
    · obtain ⟨more, rest, rfl, hmore, hrest⟩ := m.exists_of_tellPublished hrest
      exact ⟨called ++ more, rest, (List.append_assoc _ _ _).symm, hcalled.append hmore, hrest⟩

end History

end Activity

/-- What a world answers to who asks for globals: nothing before they are published, and then their
cells, and problems for other keys. -/
structure World.Answers (globals : ValueMap) (w : World η) : Prop where
  before : w.published = false → ∀ key, w.global? key = .ok none
  after : w.published = true → w.globals = globals ∧
    ∀ key, (key ∈ globals.keys → ∃ c, globals.get? key = some c ∧ w.global? key = .ok (some c)) ∧
      (key ∉ globals.keys → w.global? key = .error (.unknownGlobal key))

theorem World.answers {w : World η} {globals : ValueMap}
    (h : w.published = true → w.globals = globals) : w.Answers globals where
  before := fun hpublished key ↦ if_neg (by simp [hpublished])
  after := by
    intro hpublished
    refine ⟨h hpublished, fun key ↦ ?_⟩
    rw [global?, if_pos hpublished, h hpublished, OrderedMap.mem_keys_iff]
    cases globals.get? key with
    | none => exact ⟨fun hsome ↦ absurd hsome Bool.false_ne_true, fun _ ↦ rfl⟩
    | some c => exact ⟨fun _ ↦ ⟨c, rfl, rfl⟩, fun hnone ↦ absurd rfl hnone⟩

namespace Activity

/-- What the callers of a global state can rely on, who asked at some moments to be called after
publication. -/
structure Publishes (ms : List (Moment η)) (b : Activity η) : Prop where
  /-- The state is published from the first time on that someone publishes it. -/
  published : b.world.published = true ↔ ∃ m ∈ ms, m.isPublication = true
  /-- Those who have asked to be called have been called, are being called, or wait, each once. -/
  once : (ms.filterMap Moment.hears ++ (b.pending ++ b.world.hooks)).Perm
    (ms.filterMap Moment.registers)
  /-- When all is done after publication, all have been called. -/
  all : b.world.published = true → b.stack = [] →
    (ms.filterMap Moment.hears).Perm (ms.filterMap Moment.registers)
  /-- Who is called is called after publication, and is told of the keys that there are for good. -/
  told : ∀ m ∈ ms, ∀ h, m.hears = some h → m.before.world.published = true ∧
    m.before.world.globals = b.world.globals ∧ m.call = some ⟨h, .published b.world.globals.size⟩
  /-- Those who asked before publication are called in that order. -/
  inOrder : ∀ earlier m later, ms = earlier ++ m :: later →
    m.before.world.published = false → m.after.world.published = true →
      ∃ called rest, earlier.filterMap Moment.registers = called ++ rest ∧
        called.Sublist (later.filterMap Moment.hears) ∧
        (rest = [] ∨ .tellPublished rest ∈ b.stack)
  /-- The keys are those that were accepted, in that order. -/
  keys : b.world.globals.entries = ms.filterMap Moment.inserts
  answers : b.world.Answers b.world.globals ∧ ∀ m ∈ ms, m.before.world.Answers b.world.globals

variable {may : Activity η → Deed η → Prop} {b : Activity η} {ms : List (Moment η)}

namespace History

/-- What is published stays as it is. -/
theorem globals_eq (h : History may ⟨World.start, []⟩ ms b) {m : Moment η} (hm : m ∈ ms)
    (hpublished : m.before.world.published = true) :
    b.world.published = true ∧ b.world.globals = m.before.world.globals := by
  obtain ⟨earlier, later, rfl⟩ := List.append_of_mem hm
  obtain ⟨hearlier, hallowed, hlater⟩ := h.at_moment
  exact (cons hallowed hlater).run.globals (hearlier.run.orderly orderly_start) hpublished

theorem inOrder (h : History may ⟨World.start, []⟩ ms b) {earlier later : List (Moment η)}
    {m : Moment η} (hms : ms = earlier ++ m :: later) (hbefore : m.before.world.published = false)
    (hafter : m.after.world.published = true) :
    ∃ called rest, earlier.filterMap Moment.registers = called ++ rest ∧
      called.Sublist (later.filterMap Moment.hears) ∧
      (rest = [] ∨ .tellPublished rest ∈ b.stack) := by
  subst hms
  obtain ⟨hearlier, -, hlater⟩ := h.at_moment
  obtain ⟨-, hhooks⟩ := hearlier.announced.waiting hbefore
  rw [← hhooks]
  exact hlater.exists_of_tellPublished (m.tellPublished_mem hbefore hafter)

/-- Nobody is called before publication. -/
theorem published_of_hears (h : History may ⟨World.start, []⟩ ms b) {m : Moment η} (hm : m ∈ ms)
    {called : η} (hcalled : m.hears = some called) : m.before.world.published = true := by
  obtain ⟨earlier, later, rfl⟩ := List.append_of_mem hm
  obtain ⟨hearlier, -, -⟩ := h.at_moment
  obtain ⟨w, rest, stack, rfl⟩ := m.eq_turn_of_hears hcalled
  refine eq_true_of_ne_false fun hunpublished ↦ ?_
  exact List.cons_ne_nil _ _ (hearlier.announced.waiting hunpublished).1

/-- **Publication is exact.** Let anything at all be done from the beginning on: by callers, and by
whoever is called in the middle of other calls. -/
theorem publishes (h : History may ⟨World.start, []⟩ ms b) : Publishes ms b := by
  have haccounts := h.announced
  refine ⟨?_, haccounts.accounted, fun hpublished hrest ↦ ?_, fun m hm called hcalled ↦ ?_,
    fun _ _ _ ↦ h.inOrder, haccounts.keys, ?_, fun m hm ↦ ?_⟩
  · rw [haccounts.published, List.any_eq_true]
  · have haccounted := haccounts.accounted
    rw [pending, hrest, haccounts.emptied hpublished] at haccounted
    simpa using haccounted
  · have hpublished := h.published_of_hears hm hcalled
    obtain ⟨-, hglobals⟩ := h.globals_eq hm hpublished
    obtain ⟨w, rest, stack, rfl⟩ := m.eq_turn_of_hears hcalled
    exact ⟨hpublished, hglobals.symm, by rw [hglobals]; rfl⟩
  · exact World.answers fun _ ↦ rfl
  · exact World.answers fun hpublished ↦ (h.globals_eq hm hpublished).2.symm

end History

/-- Someone waits before and after a global is added, someone else asks once he is called, and again
it is published and another global is added, in vain. -/
def interjecting : List (Option (Deed Nat)) :=
  [some (.create .empty), some (.await 0), some (.addGlobal "a" 0), some (.await 1), some .publish,
    none, some (.await 2), some .publish, some (.addGlobal "b" 0), none, none, none, none]

/-- All three are called, the one who came in between before the one who had waited. -/
theorem publishes_interjecting :
    (follow interjecting ⟨World.start, []⟩).1.filterMap Moment.hears = [0, 2, 1] ∧
      Publishes (follow interjecting ⟨World.start, []⟩).1
        (follow interjecting ⟨World.start, []⟩).2 := by
  have h : History anything ⟨World.start, []⟩ (follow interjecting ⟨World.start, []⟩).1
      (follow interjecting ⟨World.start, []⟩).2 := History.ofPlan interjecting _ (by decide)
  exact ⟨by decide, h.publishes⟩

end Activity

end LiveTemplate.Engine
