import LiveTemplate.Proofs.Freshness
import LiveTemplate.Proofs.Hearing

/-!
# How a put spreads through a signal

When a payload is put into a cell, the terms of a signal that read it are looked at one by one, from
left to right, and the signal may turn at each of them. If no handler changes payloads meanwhile, a
subscriber hears exactly how the formula changes along the way from what its terms were to what they
are (`heard_of_write`): it hears of every change on that way, not only of the last. If no two terms
read the cell there is only one step on the way, and so at most one call.
-/

namespace LiveTemplate

/-- The truths that a sequence takes on as it changes, up to an index. -/
def changes (b : Nat → Bool) : Nat → List Bool
  | 0 => []
  | n + 1 => changes b n ++ if b (n + 1) = b n then [] else [b (n + 1)]

section Changes

variable {b : Nat → Bool}

/-- Where a sequence stands still there is no change. -/
theorem changes_of_still {k n : Nat} (hle : k ≤ n) (h : ∀ i, k ≤ i → i < n → b (i + 1) = b i) :
    changes b n = changes b k ∧ b n = b k := by
  induction hle with
  | refl => exact ⟨rfl, rfl⟩
  | @step n hle ih =>
    obtain ⟨hchanges, heq⟩ := ih fun i hi hlt ↦ h i hi (Nat.lt_succ_of_lt hlt)
    have hstill := h n hle (Nat.lt_succ_self n)
    rw [changes, if_pos hstill, List.append_nil]
    exact ⟨hchanges, hstill.trans heq⟩

/-- A sequence that can change in one place only has one change, or none. -/
theorem changes_of_once {n : Nat}
    (h : ∀ i j, i < n → j < n → b (i + 1) ≠ b i → b (j + 1) ≠ b j → i = j) :
    changes b n = if b n = b 0 then [] else [b n] := by
  induction n with
  | zero => simp [changes]
  | succ n ih =>
    have hchanges := ih fun i j hi hj ↦ h i j (Nat.lt_succ_of_lt hi) (Nat.lt_succ_of_lt hj)
    rw [changes]
    by_cases hstill : b (n + 1) = b n
    · rw [if_pos hstill, List.append_nil, hchanges, hstill]
    · -- The sequence stood still until now.
      have hbefore : changes b n = changes b 0 ∧ b n = b 0 :=
        changes_of_still (Nat.zero_le n) fun i _ hi ↦ by
          by_contra hne
          exact Nat.ne_of_lt hi
            (h i n (Nat.lt_succ_of_lt hi) (Nat.lt_succ_self n) hne hstill)
      rw [if_neg hstill, hbefore.1, ← hbefore.2, if_neg hstill]
      rfl

end Changes

namespace Formula

variable {τ : Type}

/-- The truth of a formula when its first terms, as many as given, are as they are after a change,
and the others as they were before. -/
def stage (f : Formula τ) (before after : List Bool) (k : Nat) : Bool :=
  f.evalOver (after.take k ++ before.drop k)

/-- Of two lists that agree at a place it is all one from which that place is taken. -/
theorem take_succ_append_drop {before after : List Bool} {k : Nat} (h : after[k]? = before[k]?) :
    after.take (k + 1) ++ before.drop (k + 1) = after.take k ++ before.drop k := by
  cases hk : before[k]? with
  | none =>
    have hbefore : before.length ≤ k := List.getElem?_eq_none_iff.1 hk
    have hafter : after.length ≤ k := List.getElem?_eq_none_iff.1 (h.trans hk)
    rw [List.take_of_length_le hafter, List.take_of_length_le (by omega),
      List.drop_of_length_le hbefore, List.drop_of_length_le (by omega)]
  | some x =>
    obtain ⟨hlt, rfl⟩ := List.getElem?_eq_some_iff.1 hk
    rw [List.take_add_one, h.trans hk, List.drop_eq_getElem_cons hlt, List.append_assoc]
    rfl

/-- To put in what another list has at a place is to go on to the next. -/
theorem set_take_append_drop {before after : List Bool} {k : Nat} {x : Bool}
    (hafter : after[k]? = some x) (hlt : k < before.length) :
    (after.take k ++ before.drop k).set k x = after.take (k + 1) ++ before.drop (k + 1) := by
  have hlen : (after.take k).length = k := by
    obtain ⟨hk, -⟩ := List.getElem?_eq_some_iff.1 hafter
    rw [List.length_take, Nat.min_eq_left (Nat.le_of_lt hk)]
  rw [List.set_append_right _ _ (Nat.le_of_eq hlen), hlen, Nat.sub_self,
    List.drop_eq_getElem_cons hlt, List.set_cons_zero, List.take_add_one, hafter, List.append_assoc]
  rfl

/-- A term that does not change leaves the formula as it is. -/
theorem stage_succ_of_eq {f : Formula τ} {before after : List Bool} {k : Nat}
    (h : after[k]? = before[k]?) : f.stage before after (k + 1) = f.stage before after k := by
  rw [stage, stage, take_succ_append_drop h]

/-- At the last stage all terms are as they are after the change. -/
theorem stage_length (f : Formula τ) {before after : List Bool} (v : τ → Bool)
    (hbefore : before.length = f.terms.length) (hafter : after = f.terms.map v) :
    f.stage before after f.terms.length = f.eval v := by
  rw [stage, List.drop_of_length_le (by omega), List.append_nil, hafter,
    List.take_of_length_le (by simp), evalOver_map]

end Formula

namespace Engine

variable {η : Type}

open World

/-! ### What is still to be looked at -/

/-- The places of a signal that a piece of work still looks at. -/
def Work.places (s : SignalId) : Work η → List Nat
  | .tellCell _ _ rest => rest.filterMap (·.place? s)
  | _ => []

/-- The places of a signal that are still to be looked at. -/
def toLook (s : SignalId) (stack : List (Work η)) : List Nat := stack.flatMap (Work.places s)

/-- Whether a piece of work neither changes payloads nor has observers of a cell left to tell. -/
def Work.aside : Work η → Prop
  | .tellCell _ _ rest => rest = []
  | _ => True

/-- Whether a piece of work runs updates. -/
def Work.performs : Work η → Prop
  | .perform _ _ => True
  | _ => False

section ToLook

variable {s : SignalId}

theorem toLook_append (xs ys : List (Work η)) :
    toLook s (xs ++ ys) = toLook s xs ++ toLook s ys := List.flatMap_append

theorem toLook_cons (x : Work η) (xs : List (Work η)) :
    toLook s (x :: xs) = x.places s ++ toLook s xs := List.flatMap_cons

theorem toLook_nil : toLook s ([] : List (Work η)) = [] := rfl

theorem toLook_of_aside {xs : List (Work η)} (h : ∀ x ∈ xs, x.aside) : toLook s xs = [] := by
  refine List.flatMap_eq_nil_iff.2 fun x hx ↦ ?_
  have haside := h x hx
  cases x with
  | tellCell c current rest =>
    have hnil : rest = [] := haside
    rw [hnil]
    rfl
  | _ => rfl

theorem aside_of_idle {x : Work η} (h : x.idle) : x.aside := by
  cases x with
  | tellCell c current rest => exact h
  | _ => trivial

theorem aside_of_tidings {sig : Signal η} {circuit : Circuit} :
    ∀ x ∈ tidings s sig circuit, x.aside ∧ ¬x.performs := by
  intro x hx
  unfold tidings at hx
  split at hx
  · cases hx
  · simp only [List.mem_cons, List.not_mem_nil, or_false] at hx
    rcases hx with rfl | rfl
    · exact ⟨trivial, id⟩
    · exact ⟨trivial, id⟩

end ToLook

namespace Activity

/-- Handlers that do not change payloads. -/
def nobodyMutates : Activity η → Deed η → Prop := fun _ d ↦ ¬d.mutates

variable {a b : Activity η} {es es' : List Happening}

/-! ### Only the first put is under way -/

/-- No updates are run, and the observers of a cell are told only at the bottom of the stack. -/
structure Calm (stack : List (Work η)) : Prop where
  still : ∀ x ∈ stack, ¬x.performs
  grounded : Grounded Work.aside stack

/-- What a change of a leaf leaves to be done, besides telling that the signal turned: of observers
of a cell only some that were to be told already. -/
theorem left_of_amendment {w : World η} {s : SignalId} {place : Nat} {live : LiveTerm}
    {begun left : List (Work η)} {g : LiveTerm → LiveTerm} {k : Clock (Task η)}
    {news : List Happening} (how : Amendment w s place live begun g k left news) :
    (∀ x ∈ left, x.aside ∧ ¬x.performs) ∨
      ∃ c current o rest held, begun = [.tellCell c current (o :: rest)] ∧ o.role = .term s place ∧
        left = held ++ [.tellCell c (some o) rest] ∧ ∀ x ∈ held, x.aside ∧ ¬x.performs := by
  cases how with
  | look _ hrole =>
    exact .inr ⟨_, _, _, _, [], rfl, hrole, rfl, fun _ hx ↦ absurd hx List.not_mem_nil⟩
  | restart held _ hrole hheld =>
    refine .inr ⟨_, _, _, _, .settle s place :: held, rfl, hrole, rfl, fun x hx ↦ ?_⟩
    rcases List.mem_cons.1 hx with rfl | hx
    · exact ⟨trivial, id⟩
    · rw [hheld x hx]
      exact ⟨trivial, id⟩
  | flash => exact .inl fun _ hx ↦ absurd hx List.not_mem_nil
  | arm => exact .inl fun _ hx ↦ absurd hx List.not_mem_nil
  | expire =>
    refine .inl fun x hx ↦ ?_
    rw [List.mem_singleton.1 hx]
    exact ⟨trivial, id⟩

/-- Work put aside may come and go. -/
theorem Calm.of_aside (begun left : List (Work η)) {stack : List (Work η)}
    (hcalm : Calm (begun ++ stack)) (hleft : ∀ x ∈ left, x.aside ∧ ¬x.performs) :
    Calm (left ++ stack) where
  still := fun x hx ↦ by
    rcases List.mem_append.1 hx with hx | hx
    · exact (hleft x hx).2
    · exact hcalm.still x (List.mem_append_right _ hx)
  grounded := hcalm.grounded.of_append.append fun x hx ↦ (hleft x hx).1

/-- Who tells the observers of a cell may go on to the next. -/
theorem Calm.of_next {c : CellId} {current : Option (Observer η)} {o : Observer η}
    {rest : List (Observer η)} {held stack : List (Work η)}
    (hcalm : Calm (.tellCell c current (o :: rest) :: stack))
    (hheld : ∀ x ∈ held, x.aside ∧ ¬x.performs) :
    Calm (held ++ (.tellCell c (some o) rest :: stack)) := by
  have hnil : stack = [] := hcalm.grounded.eq_nil (List.cons_ne_nil o rest)
  subst hnil
  refine ⟨fun x hx ↦ ?_, (grounded_singleton _ _).append fun x hx ↦ (hheld x hx).1⟩
  rcases List.mem_append.1 hx with hx | hx
  · exact (hheld x hx).2
  · rw [List.mem_singleton.1 hx]
    exact id

/-- **It stays calm** as long as nobody changes payloads. -/
theorem calm_change (hcalm : Calm a.stack) (h : Change nobodyMutates a es b) : Calm b.stack := by
  have hone : ∀ {x : Work η}, x.aside ∧ ¬x.performs → ∀ y ∈ [x], y.aside ∧ ¬y.performs :=
    fun hx y hy ↦ by rwa [List.mem_singleton.1 hy]
  have hnone : ∀ y ∈ ([] : List (Work η)), y.aside ∧ ¬y.performs := fun _ hy ↦
    absurd hy List.not_mem_nil
  cases h with
  | spare begun left hspares hbegun hleft =>
    refine Calm.of_aside begun left hcalm fun x hx ↦ ?_
    rcases hleft with hleft | ⟨us, us', locals, rfl, -⟩
    · refine ⟨aside_of_idle (hleft x hx).1, fun hperforms ↦ (hleft x hx).2 ?_⟩
      cases x <;> trivial
    · exact absurd trivial (hcalm.still (.perform us locals) List.mem_cons_self)
  | perform hmay => exact absurd trivial hmay
  | advance => exact Calm.of_aside [] _ hcalm (hone (x := .advance _) ⟨trivial, id⟩)
  | put begun left hne hby =>
    rcases hby with ⟨-, -, hmay⟩ | ⟨us, us', locals, rfl, -⟩
    · exact absurd trivial hmay
    · exact absurd trivial (hcalm.still (.perform us locals) List.mem_cons_self)
  | openSignal => exact hcalm
  | subscribe => exact hcalm
  | pass => exact hcalm.of_next hnone
  | tell => exact Calm.of_aside [_] _ hcalm (hone (x := .tellSignal _ _ _) ⟨trivial, id⟩)
  | @amend w w' s' place sig live begun left stack g k news hsig hlive how hamends =>
    rcases left_of_amendment how with hleft | ⟨c, current, o, rest, held, rfl, -, rfl, hheld⟩
    · rw [← List.append_assoc]
      refine Calm.of_aside begun _ hcalm fun x hx ↦ ?_
      rcases List.mem_append.1 hx with hx | hx
      · exact aside_of_tidings x hx
      · exact hleft x hx
    · rw [List.append_assoc, ← List.append_assoc]
      refine hcalm.of_next fun x hx ↦ ?_
      rcases List.mem_append.1 hx with hx | hx
      · exact aside_of_tidings x hx
      · exact hheld x hx
  | lapse => exact Calm.of_aside [_] [] hcalm hnone
  | ring => exact Calm.of_aside [_] [_] hcalm (hone (x := .advance _) ⟨trivial, id⟩)
  | arrive => exact Calm.of_aside [_] [] hcalm hnone

/-- Nobody changes payloads while it is calm. -/
theorem payload_of_calm (hcalm : Calm a.stack) (h : Change nobodyMutates a es b) {c : CellId}
    (hc : a.world.HasCell c) : b.world.payload c = a.world.payload c := by
  cases h with
  | spare _ _ hspares => exact (hspares.payload c hc).2
  | put begun left hne hby =>
    rcases hby with ⟨-, -, hmay⟩ | ⟨us, us', locals, rfl, -⟩
    · exact absurd trivial hmay
    · exact absurd trivial (hcalm.still (.perform us locals) List.mem_cons_self)
  | openSignal => exact (attaches_openSignal _ _).payload c
  | amend _ _ _ hamends => exact payload_of_cells hamends.cells c
  | _ => rfl

/-- What a change comes to for a signal without changed terms, as long as it is calm: nothing, or a
look at the next of its terms. -/
inductive Spreading (s : SignalId) (a : Activity η) (es : List Happening) (b : Activity η) : Prop
  | apart (hlook : toLook s b.stack = toLook s a.stack) (hturned : turnings s es = [])
      (hsignal : ∀ sig', b.world.signals.get? s = some sig' →
        ∃ sig, a.world.signals.get? s = some sig ∧ sig'.circuit = sig.circuit)
  | look {sig : Signal η} {place : Nat} {live : LiveTerm} (hsig : a.world.signals.get? s = some sig)
      (hlive : sig.circuit.leaf? place = some live)
      (hlook : toLook s a.stack = place :: toLook s b.stack)
      (hturned : es = turning s sig
        (sig.circuit.amend (fun t ↦ { t with truth := live.term.holds a.world.payload }) place))
      (hsignal : ∀ sig', b.world.signals.get? s = some sig' → sig'.circuit =
        sig.circuit.amend (fun t ↦ { t with truth := live.term.holds a.world.payload }) place)
      (howed : ∀ t, owed s t a.stack = [])

/-- An observer that looks for another signal has no place in this one. -/
theorem place?_eq_none {s s' : SignalId} {o : Observer η} {place : Nat}
    (hrole : o.role = .term s' place) (hne : s' ≠ s) : o.place? s = none := by
  simp [Observer.place?, hrole, hne]

/-- A leaf of a signal without changed terms is looked at, and nothing else is under way. -/
theorem spreading_of_look {w w' : World η} {s : SignalId} {place : Nat} {sig : Signal η}
    {live : LiveTerm} {begun left stack : List (Work η)} {g : LiveTerm → LiveTerm}
    {k : Clock (Task η)} {news : List Happening} (hsig : w.signals.get? s = some sig)
    (hlive : sig.circuit.leaf? place = some live) (hrelation : live.term.isRelation = true)
    (how : Amendment w s place live begun g k left news) (hamends : Amends s place g k w w')
    (hcalm : Calm (begun ++ stack)) :
    Spreading s ⟨w, begun ++ stack⟩ (news ++ turning s sig (sig.circuit.amend g place))
      ⟨w', tidings s sig (sig.circuit.amend g place) ++ (left ++ stack)⟩ := by
  cases how with
  | @look c current o rest r l r' hterm hrole =>
    have hnil : stack = [] := hcalm.grounded.eq_nil (List.cons_ne_nil o rest)
    have hholds : live.term.holds w.payload = r.holds (w.payload l) (w.payload r') := by
      rw [hterm]
      rfl
    have htidings : toLook s (tidings s sig (sig.circuit.amend
        (fun t ↦ { t with truth := r.holds (w.payload l) (w.payload r') }) place)) = [] :=
      toLook_of_aside fun x hx ↦ (aside_of_tidings x hx).1
    refine .look hsig hlive ?_ ?_ (fun sig' hsig' ↦ ?_) fun t ↦ ?_
    · simp only [toLook_append, htidings, hnil, toLook_nil, toLook_cons, Work.places]
      rw [List.filterMap_cons_some (Observer.place?_eq_some.2 hrole)]
      simp
    · rw [hholds]
      rfl
    · rw [hholds]
      rcases hamends.cases hsig hsig' with ⟨-, hcircuit, -⟩ | ⟨hne, -⟩
      · exact hcircuit
      · exact absurd rfl hne
    · rw [hnil]
      rfl
  | restart _ hterm => rw [hterm] at hrelation; cases hrelation
  | flash hterm => rw [hterm] at hrelation; cases hrelation
  | arm hterm => rw [hterm] at hrelation; cases hrelation
  | expire hterm => rw [hterm] at hrelation; cases hrelation

/-- A change of a leaf of one signal is nothing to another. -/
theorem spreading_of_other {w w' : World η} {s s' : SignalId} {place : Nat} {sig : Signal η}
    {live : LiveTerm} {begun left stack : List (Work η)} {g : LiveTerm → LiveTerm}
    {k : Clock (Task η)} {news : List Happening} (hne : s' ≠ s)
    (how : Amendment w s' place live begun g k left news) (hamends : Amends s' place g k w w') :
    Spreading s ⟨w, begun ++ stack⟩ (news ++ turning s' sig (sig.circuit.amend g place))
      ⟨w', tidings s' sig (sig.circuit.amend g place) ++ (left ++ stack)⟩ := by
  have htidings : toLook s (tidings s' sig (sig.circuit.amend g place)) = [] :=
    toLook_of_aside fun x hx ↦ (aside_of_tidings x hx).1
  have hturning : turnings s (turning s' sig (sig.circuit.amend g place)) = [] := by
    unfold turning
    split <;> simp [turnings, hne]
  have hnews := (eq_nil_of_concerning (owed_of_amendment (s := s) (t := 0) how).2.2).2
  have hlook : toLook s left = toLook s begun := by
    cases how with
    | look _ hrole =>
      simp [toLook_cons, toLook_nil, Work.places,
        List.filterMap_cons_none (place?_eq_none hrole hne)]
    | restart held _ hrole hheld =>
      have hheld' : toLook s held = [] := toLook_of_aside fun x hx ↦ by
        rw [hheld x hx]
        trivial
      simp [toLook_cons, toLook_append, toLook_nil, Work.places, hheld',
        List.filterMap_cons_none (place?_eq_none hrole hne)]
    | _ => rfl
  refine .apart ?_ ?_ fun sig' hsig' ↦ ⟨sig', hamends.others s hne.symm ▸ hsig', rfl⟩
  · simp only [toLook_append, htidings, hlook, List.nil_append]
  · rw [turnings_append, hnews, hturning]
    rfl

theorem spreading_of_change {s : SignalId} {f : Formula (Term CellId)} (ho : a.world.Orderly)
    (hatt : Attended a) (hstands : StandsFor f s a) (hf : f.Timeless) (hlives : b.world.Lives s)
    (hcalm : Calm a.stack) (h : Change nobodyMutates a es b) : Spreading s a es b := by
  have hsame : ∀ {w : World η} (sig'), w.signals.get? s = some sig' →
      ∃ sig, w.signals.get? s = some sig ∧ sig'.circuit = sig.circuit := fun sig' hsig' ↦
    ⟨sig', hsig', rfl⟩
  cases h with
  | spare begun left hspares hbegun hleft =>
    refine .apart ?_ rfl fun sig' hsig' ↦ ?_
    · rw [toLook_append, toLook_append, toLook_of_aside fun x hx ↦ aside_of_idle (hbegun x hx),
        toLook_of_aside fun x hx ↦ aside_of_idle (idle_of_left hleft x hx)]
    · obtain ⟨sig, hsig, hcircuit, -⟩ := hspares.signal s sig' hsig'
      exact ⟨sig, hsig, hcircuit⟩
  | perform hmay => exact absurd trivial hmay
  | advance => exact .apart rfl rfl hsame
  | put begun left hne hby =>
    rcases hby with ⟨-, -, hmay⟩ | ⟨us, us', locals, rfl, -⟩
    · exact absurd trivial hmay
    · exact absurd trivial (hcalm.still (.perform us locals) List.mem_cons_self)
  | openSignal =>
    refine .apart rfl rfl fun sig' hsig' ↦ ?_
    rw [get?_openSignal, if_neg (Nat.ne_of_gt hstands.given)] at hsig'
    exact ⟨sig', hsig', rfl⟩
  | subscribe => exact .apart rfl rfl fun _ hsig' ↦ circuit_of_subscribe hsig'
  | @pass w c current o others stack hpass =>
    refine .apart ?_ rfl hsame
    -- The observers that look for this signal are still there, so they are not passed over.
    have hnone : o.place? s = none := by
      cases hplace : o.place? s with
      | none => rfl
      | some place =>
        have hrole := Observer.place?_eq_some.1 hplace
        have hmem := (hatt.told c current (o :: others) List.mem_cons_self o List.mem_cons_self s
          place hrole).2 hlives
        obtain ⟨sig, hsig⟩ := Option.isSome_iff_exists.1 hlives
        obtain ⟨live, hlive⟩ := ho.exists_leaf hsig hmem hrole
        have hterm := term?_eq_some.2 ⟨sig, hsig, hlive⟩
        rw [hpass s place hrole hmem] at hterm
        cases hterm
    simp [toLook_cons, Work.places, List.filterMap_cons_none hnone]
  | tell =>
    refine .apart rfl ?_ hsame
    split <;> rfl
  | @amend w w' s' place sig live begun left stack g k news hsig hlive how hamends =>
    by_cases hs : s' = s
    · subst hs
      have hmem : live.term ∈ f.terms := by
        rw [← (hstands.keeps sig hsig).terms_eq]
        exact List.mem_map_of_mem (List.mem_of_getElem? hlive)
      exact spreading_of_look hsig hlive (hf live.term hmem) how hamends hcalm
    · exact spreading_of_other hs how hamends
  | lapse => exact .apart rfl rfl hsame
  | ring => exact .apart rfl rfl hsame
  | arrive => exact .apart rfl rfl hsame

/-! ### How far a put has spread -/

/-- How far a put has spread through a circuit: the first leaves remember what holds after it, the
others what held before, the signal has turned accordingly, and of what is still to be looked at
nothing lies further back than the leaf looked at last. -/
structure Spread (f : Formula (Term CellId)) (before after : List Bool) (s : SignalId)
    (es : List Happening) (places : List Nat) (circuit : Circuit) (k : Nat) : Prop where
  leaves : circuit.leaves.map LiveTerm.truth = after.take k ++ before.drop k
  sorted : places.Pairwise (· ≤ ·)
  ahead : ∀ i ∈ places, k ≤ i + 1
  done : ∀ i, k ≤ i → i ∉ places → after[i]? = before[i]?
  turned : turnings s es = changes (f.stage before after) k

section Spread

variable {f : Formula (Term CellId)} {before after : List Bool} {s : SignalId} {places : List Nat}
  {circuit circuit' : Circuit} {k : Nat}

/-- Terms that are not to be looked at can be counted as looked at. -/
theorem Spread.skip (h : Spread f before after s es places circuit k) {j : Nat} (hle : k ≤ j)
    (hplaces : ∀ i ∈ places, j ≤ i) : Spread f before after s es places circuit j := by
  have hstill : ∀ i, k ≤ i → i < j → after[i]? = before[i]? := fun i hi hlt ↦
    h.done i hi fun hmem ↦ absurd (hplaces i hmem) (Nat.not_le.2 hlt)
  refine ⟨?_, h.sorted, fun i hi ↦ Nat.le_succ_of_le (hplaces i hi),
    fun i hi ↦ h.done i (Nat.le_trans hle hi), ?_⟩
  · rw [h.leaves]
    induction hle with
    | refl => rfl
    | @step j hle ih =>
      rw [ih (fun i hi ↦ Nat.le_of_succ_le (hplaces i hi))
        fun i hi hlt ↦ hstill i hi (Nat.lt_succ_of_lt hlt)]
      exact (Formula.take_succ_append_drop (hstill j hle (Nat.lt_succ_self j))).symm
  · rw [h.turned]
    exact (changes_of_still hle fun i hi hlt ↦
      Formula.stage_succ_of_eq (hstill i hi hlt)).1.symm

/-- The signal turns if the formula changes from one stage to the next. -/
theorem turnings_turning {sig : Signal η} (hkeeps : Circuit.Keeps f sig.circuit)
    (hkeeps' : Circuit.Keeps f circuit') :
    turnings s (turning s sig circuit') =
      if f.evalOver (circuit'.leaves.map LiveTerm.truth) =
        f.evalOver (sig.circuit.leaves.map LiveTerm.truth) then []
      else [f.evalOver (circuit'.leaves.map LiveTerm.truth)] := by
  have htruth : sig.truth = f.evalOver (sig.circuit.leaves.map LiveTerm.truth) := by
    have h := hkeeps.truth_eq_evalOver []
    rwa [List.append_nil] at h
  have htruth' : circuit'.truth = f.evalOver (circuit'.leaves.map LiveTerm.truth) := by
    have h := hkeeps'.truth_eq_evalOver []
    rwa [List.append_nil] at h
  rw [turning, htruth, htruth']
  split <;> simp [turnings]

/-- **A look takes a put one step further.** -/
theorem Spread.look {place : Nat} {x : Bool} {sig : Signal η}
    (h : Spread f before after s es (place :: places) sig.circuit k)
    (hkeeps : Circuit.Keeps f sig.circuit) (hx : after[place]? = some x)
    (hlength : before.length = after.length)
    (hcircuit : circuit' = sig.circuit.amend (fun t ↦ { t with truth := x }) place) :
    ∃ k', Spread f before after s (es ++ turning s sig circuit') places circuit' k' := by
  have hkeeps' : Circuit.Keeps f circuit' :=
    hcircuit ▸ hkeeps.amend (g := fun t ↦ { t with truth := x }) (fun _ ↦ rfl) place
  have hsorted := List.pairwise_cons.1 h.sorted
  have hlt : place < before.length := by
    rw [hlength]
    exact (List.getElem?_eq_some_iff.1 hx).1
  have htruths : circuit'.leaves.map LiveTerm.truth =
      (sig.circuit.leaves.map LiveTerm.truth).set place x := by
    rw [hcircuit, Circuit.truths_amend]
  rcases Nat.lt_or_ge place k with hlook | hlook
  · -- The term reads the cell twice, and has been looked at already.
    have hsame : circuit'.leaves.map LiveTerm.truth = sig.circuit.leaves.map LiveTerm.truth := by
      have hget : (after.take k ++ before.drop k)[place]? = some x := by
        obtain ⟨hlt', -⟩ := List.getElem?_eq_some_iff.1 hx
        rw [List.getElem?_append_left (by rw [List.length_take]; omega),
          List.getElem?_take_of_lt hlook]
        exact hx
      obtain ⟨hlt', hget'⟩ := List.getElem?_eq_some_iff.1 hget
      rw [htruths, h.leaves, ← hget', List.set_getElem_self]
    refine ⟨k, hsame.trans h.leaves, hsorted.2, fun i hi ↦ h.ahead i (List.mem_cons_of_mem _ hi),
      fun i hi hmem ↦ h.done i hi fun hmem' ↦ ?_, ?_⟩
    · rcases List.mem_cons.1 hmem' with rfl | hmem'
      · exact absurd hlook (Nat.not_lt.2 hi)
      · exact hmem hmem'
    · rw [turnings_append, turnings_turning hkeeps hkeeps', hsame, if_pos rfl, List.append_nil]
      exact h.turned
  · have hskip := h.skip hlook fun i hi ↦ by
      rcases List.mem_cons.1 hi with rfl | hi
      · exact Nat.le_refl _
      · exact hsorted.1 i hi
    have hleaves : circuit'.leaves.map LiveTerm.truth =
        after.take (place + 1) ++ before.drop (place + 1) := by
      rw [htruths, hskip.leaves, Formula.set_take_append_drop hx hlt]
    refine ⟨place + 1, hleaves, hsorted.2, fun i hi ↦ Nat.succ_le_succ (hsorted.1 i hi),
      fun i hi hmem ↦ hskip.done i (Nat.le_of_succ_le hi) fun hmem' ↦ ?_, ?_⟩
    · rcases List.mem_cons.1 hmem' with rfl | hmem'
      · exact absurd hi (Nat.not_succ_le_self _)
      · exact hmem hmem'
    · rw [turnings_append, turnings_turning hkeeps hkeeps', hleaves, hskip.leaves, hskip.turned]
      rfl

end Spread

/-! ### Runs after a put -/

/-- What there is to say of a signal and a subscriber in every state after a put. -/
structure Propagating (f : Formula (Term CellId)) (s : SignalId) (t : Ticket)
    (before after : List Bool) (es : List Happening) (a : Activity η) : Prop where
  calm : Calm a.stack
  attended : Attended a
  stands : StandsFor f s a
  now : a.world.Lives s → f.terms.map (·.holds a.world.payload) = after
  spread : ∀ sig, a.world.signals.get? s = some sig →
    ∃ k, Spread f before after s es (toLook s a.stack) sig.circuit k
  given : t < a.world.nextTicket
  told : a.world.subscribes s t = true → heard s t es ++ owed s t a.stack = turnings s es

section Propagating

variable {f : Formula (Term CellId)} {s : SignalId} {t : Ticket} {before after : List Bool}

theorem lives_of_subscribes {w : World η} (h : w.subscribes s t = true) : w.Lives s := by
  obtain ⟨sig, hsig, -⟩ := subscribes_iff.1 h
  exact Option.isSome_iff_exists.2 ⟨sig, hsig⟩

/-- The leaves of a signal stand in the places of the terms of its formula. -/
theorem getElem?_terms (hstands : StandsFor f s a) {sig : Signal η}
    (hsig : a.world.signals.get? s = some sig) (place : Nat) :
    f.terms[place]? = (sig.circuit.leaf? place).map LiveTerm.term := by
  rw [← (hstands.keeps sig hsig).terms_eq, List.getElem?_map]
  rfl

/-- The operands of the terms of a signal exist. -/
theorem hasCell_of_mem_terms (ho : a.world.Orderly) (hstands : StandsFor f s a)
    (hlives : a.world.Lives s) {u : Term CellId} (hu : u ∈ f.terms) {c : CellId}
    (hc : c ∈ u.operands) : a.world.HasCell c := by
  obtain ⟨sig, hsig⟩ := Option.isSome_iff_exists.1 hlives
  obtain ⟨place, hplace⟩ := List.mem_iff_getElem?.1 hu
  rw [getElem?_terms hstands hsig] at hplace
  obtain ⟨live, hlive, rfl⟩ := Option.map_eq_some_iff.1 hplace
  exact ho.hasCell hsig hlive hc

theorem propagating_change (hf : f.Timeless) (hlength : before.length = f.terms.length)
    (ho : a.world.Orderly) (ha : Propagating f s t before after es a)
    (h : Change nobodyMutates a es' b) : Propagating f s t before after (es ++ es') b where
  calm := calm_change ha.calm h
  attended := attended_change ho ha.attended h
  stands := standsFor_change ha.stands h
  now := fun hlives ↦ by
    obtain ⟨sig', hsig'⟩ := Option.isSome_iff_exists.1 hlives
    obtain ⟨sig, hsig, -⟩ := signal_of_change h ha.stands.given hsig'
    have hlives' : a.world.Lives s := Option.isSome_iff_exists.2 ⟨sig, hsig⟩
    rw [← ha.now hlives']
    exact map_holds_congr fun u hu c hc ↦
      payload_of_calm ha.calm h (hasCell_of_mem_terms ho ha.stands hlives' hu hc)
  spread := fun sig' hsig' ↦ by
    have hlives : b.world.Lives s := Option.isSome_iff_exists.2 ⟨sig', hsig'⟩
    cases spreading_of_change ho ha.attended ha.stands hf hlives ha.calm h with
    | apart hlook hturned hsignal =>
      obtain ⟨sig, hsig, hcircuit⟩ := hsignal sig' hsig'
      obtain ⟨k, hk⟩ := ha.spread sig hsig
      refine ⟨k, hcircuit ▸ hk.leaves, hlook ▸ hk.sorted, hlook ▸ hk.ahead, hlook ▸ hk.done, ?_⟩
      rw [turnings_append, hturned, List.append_nil]
      exact hk.turned
    | @look sig place live hsig hlive hlook hturned hsignal howed =>
      obtain ⟨k, hk⟩ := ha.spread sig hsig
      rw [hlook] at hk
      have hlives' : a.world.Lives s := Option.isSome_iff_exists.2 ⟨sig, hsig⟩
      have hx : after[place]? = some (live.term.holds a.world.payload) := by
        rw [← ha.now hlives', List.getElem?_map, getElem?_terms ha.stands hsig, hlive]
        rfl
      have hlength' : before.length = after.length := by
        rw [hlength, ← ha.now hlives', List.length_map]
      obtain ⟨k', hk'⟩ := hk.look (ha.stands.keeps sig hsig) hx hlength' (hsignal sig' hsig')
      rw [hturned, ← hsignal sig' hsig']
      exact ⟨k', hk'⟩
  given := Nat.lt_of_lt_of_le ha.given (tickets_of_change h)
  told := fun hsub ↦ by
    have hlives := lives_of_subscribes hsub
    -- The signal turns only when nothing else is under way.
    have hquiet : turnings s es' = [] ∨ owed s t a.stack = [] := by
      cases spreading_of_change ho ha.attended ha.stands hf hlives ha.calm h with
      | apart _ hturned => exact .inl hturned
      | look _ _ _ _ _ howed => exact .inr (howed t)
    have htold := ha.told (subscribes_of_change h ha.given hsub)
    rw [heard_append, turnings_append, List.append_assoc,
      heard_append_owed ho h ha.given hsub hquiet, ← List.append_assoc, htold]

/-- The places at which a cell is read come in order. -/
theorem sorted_reading (c : CellId) (place : Nat) (ts : List (Term CellId)) :
    (reading c place ts).Pairwise (· ≤ ·) := by
  induction ts generalizing place with
  | nil => exact .nil
  | cons u rest ih =>
    rw [reading, List.pairwise_append]
    refine ⟨?_, ih (place + 1), fun i hi j hj ↦ ?_⟩
    · rw [List.pairwise_map]
      exact List.pairwise_of_forall fun _ _ ↦ Nat.le_refl place
    · obtain ⟨-, -, rfl⟩ := List.mem_map.1 hi
      exact Nat.le_of_succ_le (mem_reading.1 hj).1

/-- A term that does not read the cell is as it was. -/
theorem getElem?_holds_put (w : World η) (c : CellId) (p : Payload) {i : Nat}
    (hi : i ∉ reading c 0 f.terms) :
    (f.terms.map (·.holds (w.put c p).payload))[i]? = (f.terms.map (·.holds w.payload))[i]? := by
  rw [List.getElem?_map, List.getElem?_map]
  cases hu : f.terms[i]? with
  | none => rfl
  | some u =>
    have hholds : [u].map (·.holds (w.put c p).payload) = [u].map (·.holds w.payload) := by
      refine map_holds_congr fun u' hu' c' hc' ↦ payload_put_of_ne w c p fun heq ↦ hi ?_
      rw [List.mem_singleton.1 hu'] at hc'
      exact mem_reading.2 ⟨Nat.zero_le i, u, hu, heq ▸ hc'⟩
    exact congrArg some (List.head_eq_of_cons_eq hholds)

/-- Right after a put at rest nothing of it has spread yet. -/
theorem propagating_write {w : World η} (ho : w.Orderly) (hfresh : Fresh ⟨w, []⟩)
    (hstands : StandsFor f s ⟨w, []⟩) (hf : f.Timeless) (hsub : w.subscribes s t = true)
    (c : CellId) (p : Payload) :
    Propagating f s t (f.terms.map (·.holds w.payload))
      (f.terms.map (·.holds (w.write c p).2.1.payload)) []
      ⟨(w.write c p).2.1, (w.write c p).2.2⟩ := by
  have hquiet : ∀ c current rest, .tellCell c current rest ∉ (⟨w, []⟩ : Activity η).stack :=
    fun _ _ _ ↦ List.not_mem_nil
  obtain ⟨sig, hsig, hmem⟩ := subscribes_iff.1 hsub
  have hgiven : t < w.nextTicket := by
    obtain ⟨e, he, rfl⟩ := List.mem_map.1 hmem
    exact (ho.tickets s sig hsig).2 e he
  have htruths : ∀ sig, w.signals.get? s = some sig →
      sig.circuit.leaves.map LiveTerm.truth = f.terms.map (·.holds w.payload) := fun _ hsig ↦
    truths_of_quiet hfresh hquiet hstands hf hsig
  cases hne : w.payload c == p with
  | true =>
    rw [write_of_eq hne]
    refine ⟨⟨fun _ hx ↦ absurd hx List.not_mem_nil, trivial⟩, attended_nil w, hstands,
      fun _ ↦ rfl, fun sig hsig ↦ ⟨0, ?_, .nil,
        fun _ hi ↦ absurd hi List.not_mem_nil, fun _ _ _ ↦ rfl, rfl⟩, hgiven, fun _ ↦ rfl⟩
    exact htruths sig hsig
  | false =>
    rw [write_of_ne hne]
    have hplaces : ∀ sig, w.signals.get? s = some sig →
        toLook s [.tellCell c none (w.observers c)] = reading c 0 f.terms := fun sig hsig ↦ by
      rw [toLook_cons, toLook_nil, List.append_nil, Work.places, ho.placed s sig hsig,
        (hstands.keeps sig hsig).terms_eq]
    have hput : Change anything ⟨w, []⟩ _ ⟨w.put c p, [.tellCell c none (w.observers c)]⟩ :=
      .put [] [] hne (.inl ⟨rfl, rfl, trivial⟩)
    refine ⟨⟨fun x hx ↦ ?_, grounded_singleton _ _⟩, attended_change ho (attended_nil w) hput,
      ⟨hstands.given, hstands.keeps⟩, fun _ ↦ rfl, fun sig hsig ↦ ⟨0, htruths sig hsig, ?_, ?_, ?_,
      rfl⟩, hgiven, fun _ ↦ rfl⟩
    · rw [List.mem_singleton.1 hx]
      exact id
    · rw [hplaces sig hsig]
      exact sorted_reading c 0 f.terms
    · exact fun i _ ↦ Nat.zero_le _
    · rw [hplaces sig hsig]
      exact fun i _ hi ↦ getElem?_holds_put w c p hi

/-- If at most one element of a list is of a kind, those of that kind are in the same place. -/
theorem eq_of_countP_le_one {α : Type} {q : α → Bool} {l : List α} (h : l.countP q ≤ 1) {i j : Nat}
    {x y : α} (hi : l[i]? = some x) (hj : l[j]? = some y) (hx : q x = true) (hy : q y = true) :
    i = j := by
  induction l generalizing i j with
  | nil => cases hi
  | cons z rest ih =>
    -- Behind one of the kind there is no other.
    have hnone : q z = true → ∀ (n : Nat) u, rest[n]? = some u → q u = true → False := by
      intro hz n u hu hq
      rw [List.countP_cons_of_pos hz] at h
      have hzero : rest.countP q = 0 := by omega
      exact List.countP_eq_zero.1 hzero u (List.mem_of_getElem? hu) hq
    have hrest : rest.countP q ≤ 1 := by
      rw [List.countP_cons] at h
      omega
    cases i with
    | zero =>
      cases j with
      | zero => rfl
      | succ j =>
        cases hi
        exact (hnone hx j y hj hy).elim
    | succ i =>
      cases j with
      | zero =>
        cases hj
        exact (hnone hy i x hi hx).elim
      | succ j => exact congrArg Nat.succ (ih hrest hi hj)

/-- When everything has been looked at, the signal has turned as its formula changed on the way. -/
theorem Spread.turnings_eq {circuit : Circuit} {k : Nat}
    (h : Spread f before after s es [] circuit k) (hbefore : before.length = f.terms.length)
    (hafter : after.length = f.terms.length) :
    turnings s es = changes (f.stage before after) f.terms.length := by
  rw [h.turned]
  rcases Nat.le_total k f.terms.length with hle | hle
  · exact (changes_of_still hle fun i hi _ ↦
      Formula.stage_succ_of_eq (h.done i hi List.not_mem_nil)).1.symm
  · refine (changes_of_still hle fun i hi _ ↦ Formula.stage_succ_of_eq ?_).1
    rw [List.getElem?_eq_none (by omega), List.getElem?_eq_none (by omega)]

/-- A term that does not read the cell is as it was, whether the payload differs or not. -/
theorem getElem?_holds_write (w : World η) (c : CellId) (p : Payload) {i : Nat}
    (hi : i ∉ reading c 0 f.terms) :
    (f.terms.map (·.holds (w.write c p).2.1.payload))[i]? =
      (f.terms.map (·.holds w.payload))[i]? := by
  cases hne : w.payload c == p with
  | true => rw [write_of_eq hne]
  | false =>
    rw [write_of_ne hne]
    exact getElem?_holds_put w c p hi

/-- If at most one term reads the cell, the formula changes at that term or not at all. -/
theorem changes_of_countP {c : CellId}
    (honce : f.terms.countP (fun u ↦ decide (c ∈ u.operands)) ≤ 1)
    (hsame : ∀ i, i ∉ reading c 0 f.terms → after[i]? = before[i]?) :
    changes (f.stage before after) f.terms.length =
      if f.stage before after f.terms.length = f.stage before after 0 then []
      else [f.stage before after f.terms.length] := by
  have hreads : ∀ i, f.stage before after (i + 1) ≠ f.stage before after i →
      ∃ u, f.terms[i]? = some u ∧ c ∈ u.operands := by
    intro i hne
    by_contra hnone
    refine hne (Formula.stage_succ_of_eq (hsame i fun hmem ↦ hnone ?_))
    obtain ⟨-, u, hu, hc⟩ := mem_reading.1 hmem
    exact ⟨u, hu, hc⟩
  refine changes_of_once fun i j _ _ hi hj ↦ ?_
  obtain ⟨u, hu, hcu⟩ := hreads i hi
  obtain ⟨v, hv, hcv⟩ := hreads j hj
  exact eq_of_countP_le_one honce hu hv (decide_eq_true hcu) (decide_eq_true hcv)

/-- A subscriber of a signal that is at rest hears of every change on the way of a put. -/
theorem heard_of_propagating {w w' : World η} {c : CellId} {p : Payload} (ho : w.Orderly)
    (hfresh : Fresh ⟨w, []⟩) (hstands : StandsFor f s ⟨w, []⟩) (hf : f.Timeless)
    (hrun : Run nobodyMutates ⟨(w.write c p).2.1, (w.write c p).2.2⟩ es ⟨w', []⟩)
    (hsub : w.subscribes s t = true) (hsub' : w'.subscribes s t = true) :
    f.terms.map (·.holds w'.payload) = f.terms.map (·.holds (w.write c p).2.1.payload) ∧
      heard s t es = changes (f.stage (f.terms.map (·.holds w.payload))
        (f.terms.map (·.holds w'.payload))) f.terms.length := by
  have hstart := propagating_write ho hfresh hstands hf hsub c p
  have horderly : (w.write c p).2.1.Orderly := by
    cases hne : w.payload c == p with
    | true =>
      rw [write_of_eq hne]
      exact ho
    | false =>
      rw [write_of_ne hne]
      exact ho.put c p
  have hend := hrun.keepsLog (P := Propagating f s t (f.terms.map (·.holds w.payload))
    (f.terms.map (·.holds (w.write c p).2.1.payload)))
    (fun ho ha hchange ↦ propagating_change hf (List.length_map _) ho ha hchange) horderly hstart
  have hnow := hend.now (lives_of_subscribes hsub')
  obtain ⟨sig, hsig, -⟩ := subscribes_iff.1 hsub'
  obtain ⟨k, hk⟩ := hend.spread sig hsig
  have htold := hend.told hsub'
  refine ⟨hnow, ?_⟩
  rw [hnow, ← hk.turnings_eq (List.length_map _) (List.length_map _), ← htold]
  exact (List.append_nil _).symm

end Propagating

/-- **A subscriber hears of every change on the way of a put.** Let a predicate without changed
terms be observed at any point of any run. When at rest a payload is put into a cell, and handlers
do not change payloads until all are at rest again, a subscriber that is there throughout is told
exactly the truths that the formula takes on as its terms, from left to right, go from what they
were to what they are. If at most one term reads the cell, that is one call if the formula has
changed, and none if it has not. -/
theorem heard_of_write {w₀ w₁ w w' : World η} {stack₀ : List (Work η)}
    {es₀ es₁ : List Happening} {locals : ValueMap} {p : Predicate CellId}
    {f : Formula (Term CellId)} {s : SignalId} {t : Ticket} {c : CellId} {q : Payload}
    (hrun : Run anything ⟨.start, []⟩ es₀ ⟨w₀, stack₀⟩) (hp : Formula.Timeless p)
    (hbind : w₀.bind locals p = .ok f)
    (hoperands : ∀ u ∈ f.terms, ∀ c ∈ u.operands, w₀.HasCell c)
    (hobserve : w₀.observePredicate locals p = .ok (s, w₁))
    (hrun₁ : Run anything ⟨w₁, stack₀⟩ es₁ ⟨w, []⟩)
    (hrun₂ : Run nobodyMutates ⟨(w.write c q).2.1, (w.write c q).2.2⟩ es ⟨w', []⟩)
    (hsub : w.subscribes s t = true) (hsub' : w'.subscribes s t = true) :
    heard s t es = changes (f.stage (f.terms.map (·.holds w.payload))
      (f.terms.map (·.holds w'.payload))) f.terms.length ∧
    (f.terms.countP (fun u ↦ decide (c ∈ u.operands)) ≤ 1 →
      heard s t es = if f.eval (·.holds w'.payload) = f.eval (·.holds w.payload) then []
        else [f.eval (·.holds w'.payload)]) := by
  have hopen : w₀.openSignal f = (s, w₁) := by
    rw [observePredicate, hbind] at hobserve
    exact Except.ok.inj hobserve
  obtain ⟨rfl, rfl⟩ : w₀.signals.next = s ∧ (w₀.openSignal f).2 = w₁ :=
    ⟨congrArg Prod.fst hopen, congrArg Prod.snd hopen⟩
  have hall := (hrun.deed (.openSignal f) hoperands trivial).trans hrun₁
  have ho : w.Orderly := hall.orderly orderly_start
  have hstands : StandsFor f w₀.signals.next ⟨w, []⟩ := hrun₁.standsFor
    ((hrun.orderly orderly_start).openSignal hoperands) (standsFor_openSignal f w₀ stack₀)
  have hf := timeless_of_bind hp hbind
  obtain ⟨hnow, hheard⟩ := heard_of_propagating ho hall.fresh hstands hf hrun₂ hsub hsub'
  refine ⟨hheard, fun honce ↦ ?_⟩
  have hsame : ∀ i, i ∉ reading c 0 f.terms →
      (f.terms.map (·.holds w'.payload))[i]? = (f.terms.map (·.holds w.payload))[i]? := by
    intro i hi
    rw [hnow]
    exact getElem?_holds_write w c q hi
  have hbefore : f.stage (f.terms.map (·.holds w.payload)) (f.terms.map (·.holds w'.payload)) 0 =
      f.eval (·.holds w.payload) := f.evalOver_map _
  rw [hheard, changes_of_countP honce hsame, hbefore,
    f.stage_length (·.holds w'.payload) (List.length_map _) rfl]

/-! ### Hovering past an interval -/

/-- The world in which someone subscribes to whether what hovers is in the interval. -/
def watching : World Unit := ((hovering.openSignal inside).2.subscribe 0 ()).2

theorem run_watching : ∃ es, Run anything ⟨(hovering.openSignal inside).2, []⟩ es ⟨watching, []⟩ :=
  ⟨_, (Run.refl _).deed (.subscribe 0 ()) rfl trivial⟩

/-- What happens once a cell of that world holds another number. -/
def watched (c : CellId) (n : Int64) : List Happening × Activity Unit :=
  turns 20 ⟨(watching.write c (.int n)).2.1, (watching.write c (.int n)).2.2⟩

/-- As the beginning of the interval moves below what hovers, the subscriber is told so once. -/
theorem heard_of_write_begin : heard 0 4 (watched 1 3).1 = [true] := by
  obtain ⟨es, hrun⟩ := run_hovering
  obtain ⟨es₁, hrun₁⟩ := run_watching
  have hrun₂ : Run nobodyMutates
      ⟨(watching.write 1 (.int 3)).2.1, (watching.write 1 (.int 3)).2.2⟩
      (watched 1 3).1 ⟨(watched 1 3).2.world, []⟩ := (Run.refl _).turns 20
  have hbind : hovering.bind .empty (inside.map (Term.map .literal)) = .ok inside := rfl
  obtain ⟨-, honce⟩ := heard_of_write hrun (by decide) hbind hasCell_hovering rfl hrun₁ hrun₂
    (s := 0) (t := 4) rfl rfl
  rw [honce (by decide)]
  decide

/-- Being told once if the predicate has changed and not at all if it has not is not what a
subscriber can count on: if what hovers jumps past the whole interval it hears that the predicate
has become true, and then that it has become false. -/
theorem heard_twice_of_write :
    ¬∀ {w₀ w₁ w w' : World Unit} {stack₀ : List (Work Unit)} {es₀ es₁ es : List Happening}
      {locals : ValueMap} {p : Predicate CellId} {f : Formula (Term CellId)} {s : SignalId}
      {t : Ticket} {c : CellId} {q : Payload}, Run anything ⟨.start, []⟩ es₀ ⟨w₀, stack₀⟩ →
        Formula.Timeless p → w₀.bind locals p = .ok f →
        (∀ u ∈ f.terms, ∀ c ∈ u.operands, w₀.HasCell c) →
        w₀.observePredicate locals p = .ok (s, w₁) →
        Run anything ⟨w₁, stack₀⟩ es₁ ⟨w, []⟩ →
        Run nobodyMutates ⟨(w.write c q).2.1, (w.write c q).2.2⟩ es ⟨w', []⟩ →
        w.subscribes s t = true → w'.subscribes s t = true →
        heard s t es = if f.eval (·.holds w'.payload) = f.eval (·.holds w.payload) then []
          else [f.eval (·.holds w'.payload)] := by
  intro h
  obtain ⟨es, hrun⟩ := run_hovering
  obtain ⟨es₁, hrun₁⟩ := run_watching
  have hrun₂ : Run nobodyMutates
      ⟨(watching.write 0 (.int 25)).2.1, (watching.write 0 (.int 25)).2.2⟩
      (watched 0 25).1 ⟨(watched 0 25).2.world, []⟩ := (Run.refl _).turns 20
  have hbind : hovering.bind .empty (inside.map (Term.map .literal)) = .ok inside := rfl
  have honce := h hrun (by decide) hbind hasCell_hovering rfl hrun₁ hrun₂ (s := 0) (t := 4)
    rfl rfl
  have htwice : heard 0 4 (watched 0 25).1 = [true, false] := by decide
  rw [htwice] at honce
  revert honce
  decide

end Activity

end Engine

end LiveTemplate
