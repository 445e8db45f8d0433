import LiveTemplate.Session.State

/-!
# What commands look for

A command names the values and maps that it is about. To find them a session makes new cells at most
(`Extends`), and this is so whether or not it finds them all: what is done before something turns
out to be missing stays done, so that a session goes on from the cells that it has made until then.
-/

namespace LiveTemplate.Session

open Engine

variable {s s' s'' : Session}

/-- What holds of each of two steps holds of both together, also if the first one fails. -/
theorem Act.rel_bind {α β : Type} {R : Session → Session → Prop}
    (htrans : ∀ {s s' s''}, R s s' → R s' s'' → R s s'') {x : Act α} {f : α → Act β}
    (hx : R s (x s).2) (hf : ∀ a s', R s' (f a s').2) :
    R s ((x >>= f) s).2 := by
  rcases h : x s with ⟨_ | a, s₁⟩
  · rw [h] at hx
    rwa [Act.bind_of_error h]
  · rw [h] at hx
    rw [Act.bind_of_ok h]
    exact htrans hx (hf a s₁)

theorem Act.log_bind {α β : Type} {x : Act α} {f : α → Act β}
    (hx : (x s).2.log = s.log) (hf : ∀ a s', (f a s').2.log = s'.log) :
    ((x >>= f) s).2.log = s.log :=
  Act.rel_bind (R := fun s s' ↦ s'.log = s.log) (fun h h' ↦ h'.trans h) hx hf

/-- All that a session has is as it was, but for new cells. -/
structure Extends (s s' : Session) : Prop where
  kept : s' = { s with world := { s.world with cells := s'.world.cells } }
  next : s.world.cells.next ≤ s'.world.cells.next
  cells : ∀ c < s.world.cells.next, s'.world.cells.get? c = s.world.cells.get? c

theorem Extends.refl (s : Session) : s.Extends s := ⟨rfl, Nat.le_refl _, fun _ _ ↦ rfl⟩

theorem Extends.trans (h : s.Extends s') (h' : s'.Extends s'') : s.Extends s'' where
  kept := by rw [h'.kept, h.kept]
  next := Nat.le_trans h.next h'.next
  cells := fun c hc ↦ (h'.cells c (Nat.lt_of_lt_of_le hc h.next)).trans (h.cells c hc)

theorem Extends.log (h : s.Extends s') : s'.log = s.log := by rw [h.kept]

theorem present_snd {α : Type} (found : Option α) (s : Session) : (present found s).2 = s := by
  cases found <;> rfl

theorem extends_create (p : Payload) (s : Session) :
    s.Extends { s with world := (s.world.create p).2 } where
  kept := rfl
  next := Nat.le_succ _
  cells := fun _ hc ↦ (Registry.get?_add _ _ _).trans (if_neg (Nat.ne_of_gt hc))

/-- **To find a value at most makes a cell.** -/
theorem extends_operand (of : Operand) (s : Session) : s.Extends (operand of s).2 := by
  cases of with
  | fresh p => exact extends_create p s
  | global key =>
    rw [show (operand (.global key) s).2 = s from present_snd _ s]
    exact .refl s
  | named name =>
    rw [show (operand (.named name) s).2 = s from present_snd _ s]
    exact .refl s
  | entry map key =>
    refine Act.rel_bind (x := present (s.maps.get? map)) .trans ?_ fun m s' ↦ ?_
    · rw [present_snd]
      exact .refl s
    · rw [present_snd]
      exact .refl s'

theorem extends_mapM {β γ : Type} {f : β → Act γ}
    (hf : ∀ (b : β) (s : Session), s.Extends (f b s).2) (l : List β) (s : Session) :
    s.Extends (l.mapM f s).2 := by
  induction l generalizing s with
  | nil => exact .refl s
  | cons b l ih =>
    rw [List.mapM_cons]
    refine Act.rel_bind .trans (hf b s) fun c s' ↦ ?_
    exact Act.rel_bind .trans (ih s') fun cs s'' ↦ .refl s''

/-- **To find a map at most makes cells.** -/
theorem extends_mapOperand (of : MapOperand) (s : Session) : s.Extends (mapOperand of s).2 := by
  cases of with
  | named name =>
    rw [show (mapOperand (.named name) s).2 = s from present_snd _ s]
    exact .refl s
  | entries l =>
    refine Act.rel_bind .trans (extends_mapM (fun e s ↦ ?_) l s) fun es s' ↦ .refl s'
    exact Act.rel_bind (f := fun c ↦ pure (e.1, c)) .trans (extends_operand e.2 s) fun c s' ↦
      .refl s'

theorem extends_of_mapOperand {of : MapOperand} {locals : ValueMap}
    (h : mapOperand of s = (.ok locals, s')) : s.Extends s' := by
  have hextends := extends_mapOperand of s
  rwa [h] at hextends

/-! ### Interactions and teardowns -/

theorem declared_of_some {i : Interactions CellId CellId} (h : s.interactions = some i) :
    declared s = (.ok i, s) := by
  show present s.interactions s = _
  rw [h]
  rfl

theorem namedTeardown_of_some {name : String} {t : Teardown}
    (h : s.teardowns.get? name = some t) : namedTeardown name s = (.ok t, s) := by
  show present (s.teardowns.get? name) s = _
  rw [h]
  rfl

theorem namedTeardown_of_none {name : String} (h : s.teardowns.get? name = none) :
    namedTeardown name s = (.error .missing, s) := by
  show present (s.teardowns.get? name) s = _
  rw [h]
  rfl

theorem handOver_of_some {name : String} {t : Teardown} (h : s.teardowns.get? name = some t)
    (subs : List Subscription) : handOver name subs s =
      (.ok (), { s with
        teardowns := s.teardowns.insert name (t.hold subs s.world).1
        world := (t.hold subs s.world).2 }) :=
  Act.bind_of_ok (namedTeardown_of_some h)

/-- A teardown that is expected is there, or there is a reply that it is missing. -/
theorem expectTeardown_eq (teardown : Option String) (s : Session) :
    expectTeardown teardown s =
      (if ∀ t ∈ teardown, (s.teardowns.get? t).isSome then .ok () else .error .missing, s) := by
  cases teardown with
  | none => rfl
  | some name =>
    cases hfound : s.teardowns.get? name with
    | none =>
      rw [if_neg fun h ↦ Bool.false_ne_true (by simpa [hfound] using h name rfl)]
      exact Act.bind_of_error (namedTeardown_of_none hfound)
    | some t =>
      rw [if_pos fun t ht ↦ by rw [← Option.mem_some.1 ht, hfound]; rfl]
      exact Act.bind_of_ok (namedTeardown_of_some hfound)

end LiveTemplate.Session
