import LiveTemplate.Proofs.Frame

/-!
# What is not spared

The few things that bear on signals that go on living: a payload is put into a cell, a signal comes,
someone subscribes, the clock moves, a leaf changes. A leaf changes in five ways only (`Amendment`):
a relation is looked at; a changed term starts anew, ends at once, has its timer set, or has its
timer run out. Whatever the way, the circuit is changed at that leaf, its subscribers are to be told
if that turns it, and no other signal is touched (`Amends`).

Each of these leaves a world in order.
-/

namespace LiveTemplate.Engine

variable {η : Type}

namespace World

variable {w w' : World η}

/-! ### Payloads -/

/-- A cell gets another payload. -/
def put (w : World η) (c : CellId) (p : Payload) : World η :=
  { w with cells := w.cells.modify c fun cell ↦ { cell with payload := p } }

theorem write_of_eq {c : CellId} {p : Payload} (h : (w.payload c == p) = true) :
    w.write c p = (false, w, []) := if_pos h

theorem write_of_ne {c : CellId} {p : Payload} (h : (w.payload c == p) = false) :
    w.write c p = (true, w.put c p, [.tellCell c none (w.observers c)]) := by
  rw [write, if_neg (by rw [h]; exact Bool.false_ne_true)]
  rfl

section Put

variable (w) (c : CellId) (p : Payload)

theorem hasCell_put (c' : CellId) : (w.put c p).HasCell c' ↔ w.HasCell c' := by
  have hw : (w.put c p).cells = w.cells.modify c fun cell ↦ { cell with payload := p } := rfl
  exact hasCell_modify hw c'

theorem observers_put (c' : CellId) : (w.put c p).observers c' = w.observers c' := by
  have hw : (w.put c p).cells = w.cells.modify c fun cell ↦ { cell with payload := p } := rfl
  rw [observers_modify (g := id) hw fun _ ↦ rfl, id_eq, ite_self]

theorem payload_put (c' : CellId) :
    (w.put c p).payload c' = if c' = c ∧ w.HasCell c then p else w.payload c' := by
  have hget : (w.put c p).cells.get? c' =
      if c' = c then (w.cells.get? c').map fun cell ↦ { cell with payload := p }
      else w.cells.get? c' := Registry.get?_modify _ _ _ _
  by_cases hc : c' = c
  · subst hc
    cases hcell : w.cells.get? c' <;> simp [payload, HasCell, hget, hcell]
  · simp [payload, hget, hc]

/-- A payload of a cell has no bearing on others. -/
theorem payload_put_of_ne {c' : CellId} (h : c' ≠ c) : (w.put c p).payload c' = w.payload c' := by
  rw [payload_put, if_neg fun hc ↦ h hc.1]

variable {w}

theorem Orderly.put (ho : w.Orderly) : (w.put c p).Orderly where
  cells := ho.cells.modify _ _
  signals := ho.signals
  clock := ho.clock
  keeps := ho.keeps
  placed := fun s sig hsig c' ↦ by
    rw [observers_put]
    exact ho.placed s sig hsig c'
  looks := fun c' o hmem ↦ ho.looks c' o (observers_put w c p c' ▸ hmem)
  ends := ho.ends
  windows := ho.windows
  slots := ho.slots
  tickets := ho.tickets

end Put

/-! ### Signals that come, and subscribers -/

theorem observers_openSignal (w : World η) (f : Formula (Term CellId)) (c : CellId) :
    ∃ added, (w.openSignal f).2.observers c = w.observers c ++ added ∧
      (∀ o ∈ added, o.serves w.signals.next = true) ∧
      added.filterMap (·.place? w.signals.next) =
        if w.HasCell c then reading c 0 f.terms else [] :=
  (w.attaches_openSignal f).observers c

/-- A new signal observes its operands, if they exist, and nothing else. -/
theorem placed_openSignal (ho : w.Orderly) {f : Formula (Term CellId)}
    (hf : ∀ t ∈ f.terms, ∀ c ∈ t.operands, w.HasCell c) (c : CellId) :
    ((w.openSignal f).2.observers c).filterMap (·.place? w.signals.next) = reading c 0 f.terms := by
  obtain ⟨added, heq, -, hplaces⟩ := w.observers_openSignal f c
  have hold : (w.observers c).filterMap (·.place? w.signals.next) = [] := by
    refine List.filterMap_eq_nil_iff.2 fun o hmem ↦ ?_
    cases hp : o.place? w.signals.next with
    | none => rfl
    | some place =>
      have hlt := ho.looks c o hmem _ place (Observer.place?_eq_some.1 hp)
      exact absurd hlt (Nat.lt_irrefl _)
  rw [heq, List.filterMap_append, hold, List.nil_append, hplaces]
  split
  · rfl
  · rename_i hc
    refine (reading_eq_nil_iff.2 fun hmem ↦ hc ?_).symm
    obtain ⟨t, ht, hct⟩ := List.mem_flatMap.1 hmem
    exact hf t ht c hct

theorem Orderly.openSignal (ho : w.Orderly) {f : Formula (Term CellId)}
    (hf : ∀ t ∈ f.terms, ∀ c ∈ t.operands, w.HasCell c) : (w.openSignal f).2.Orderly := by
  have hattach := w.attaches_openSignal f
  have hnext : (w.openSignal f).2.signals.next = w.signals.next + 1 := by
    rw [hattach.signals]
    rfl
  have hclock : (w.openSignal f).2.clock = w.clock := hattach.clock
  -- A signal is either the new one or one that was there.
  have hcases : ∀ s sig, (w.openSignal f).2.signals.get? s = some sig →
      s = w.signals.next ∧ sig = w.newSignal f ∨
        s ≠ w.signals.next ∧ w.signals.get? s = some sig := by
    intro s sig hsig
    rw [get?_openSignal] at hsig
    split at hsig
    · rename_i heq
      exact .inl ⟨heq.symm, (Option.some.inj hsig).symm⟩
    · rename_i hne
      exact .inr ⟨Ne.symm hne, hsig⟩
  have hleaf : ∀ place live, (w.newSignal f).circuit.leaf? place = some live →
      live.timer = none := by
    intro place live hlive
    rw [newSignal, Circuit.leaf?, Circuit.leaves_build, List.getElem?_map] at hlive
    obtain ⟨t, -, rfl⟩ := Option.map_eq_some_iff.1 hlive
    rfl
  refine ⟨hattach.tight ho.cells, ?_, hclock ▸ ho.clock, fun s sig hsig ↦ ?_,
    fun s sig hsig c ↦ ?_, fun c o hmem s place hrole ↦ ?_, fun t ht s place htask ↦ ?_,
    fun t ht s place htask sig hsig ↦ ?_, fun s sig place live id hsig hlive htimer ↦ ?_,
    fun s sig hsig ↦ ?_⟩
  · rw [hattach.signals]
    exact ho.signals.add _
  · rcases hcases s sig hsig with ⟨-, rfl⟩ | ⟨-, hsig⟩
    · exact ⟨f, Circuit.keeps_build (fun _ ↦ rfl) f⟩
    · exact ho.keeps s sig hsig
  · rcases hcases s sig hsig with ⟨rfl, rfl⟩ | ⟨hne, hsig⟩
    · have hterms : (w.newSignal f).circuit.leaves.map LiveTerm.term = f.terms := by
        rw [newSignal, Circuit.leaves_build, List.map_map]
        exact List.map_id' f.terms
      rw [hterms]
      exact placed_openSignal ho hf c
    · obtain ⟨added, heq, hserves, -⟩ := w.observers_openSignal f c
      rw [← ho.placed s sig hsig c, ← filterMap_place?_filter, heq, List.filter_append,
        filter_serves_eq_nil hne hserves, List.append_nil, filterMap_place?_filter]
  · obtain ⟨added, heq, hserves, -⟩ := w.observers_openSignal f c
    rw [hnext]
    rw [heq] at hmem
    rcases List.mem_append.1 hmem with hmem | hmem
    · exact Nat.lt_succ_of_lt (ho.looks c o hmem s place hrole)
    · obtain ⟨place', hrole'⟩ := Observer.serves_iff.1 (hserves o hmem)
      rw [hrole] at hrole'
      cases hrole'
      exact Nat.lt_succ_self _
  · rw [hclock] at ht
    rw [hnext]
    exact Nat.lt_succ_of_lt (ho.ends t ht s place htask)
  · rw [hclock] at ht
    rcases hcases s sig hsig with ⟨rfl, -⟩ | ⟨-, hsig⟩
    · exact absurd (ho.ends t ht _ place htask) (Nat.lt_irrefl _)
    · exact ho.windows t ht s place htask sig hsig
  · rcases hcases s sig hsig with ⟨-, rfl⟩ | ⟨-, hsig⟩
    · rw [hleaf place live hlive] at htimer
      cases htimer
    · rw [hclock]
      exact ho.slots s sig place live id hsig hlive htimer
  · rcases hcases s sig hsig with ⟨-, rfl⟩ | ⟨-, hsig⟩
    · exact ⟨.nil, fun _ he ↦ by simp [newSignal] at he⟩
    · obtain ⟨hnodup, hlt⟩ := ho.tickets s sig hsig
      exact ⟨hnodup, fun e he ↦ Nat.lt_of_lt_of_le (hlt e he) hattach.tickets⟩

/-- A subscriber comes behind those that are there, and nothing else is touched. -/
theorem get?_subscribe (w : World η) (s s' : SignalId) (h : η) :
    (w.subscribe s h).2.signals.get? s' =
      if s' = s then (w.signals.get? s').map fun sig ↦
        { sig with subscribers := sig.subscribers ++ [(w.nextTicket, h)] }
      else w.signals.get? s' :=
  Registry.get?_modify _ _ _ _

/-- To subscribe changes no circuit. -/
theorem circuit_of_subscribe {s s' : SignalId} {h : η} {sig' : Signal η}
    (hsig' : (w.subscribe s h).2.signals.get? s' = some sig') :
    ∃ sig, w.signals.get? s' = some sig ∧ sig'.circuit = sig.circuit := by
  rw [get?_subscribe] at hsig'
  split at hsig'
  · obtain ⟨sig, hsig, rfl⟩ := Option.map_eq_some_iff.1 hsig'
    exact ⟨sig, hsig, rfl⟩
  · exact ⟨sig', hsig', rfl⟩

theorem Orderly.subscribe (ho : w.Orderly) (s : SignalId) (h : η) :
    (w.subscribe s h).2.Orderly where
  cells := ho.cells
  signals := ho.signals.modify _ _
  clock := ho.clock
  keeps := fun s' sig' hsig' ↦ by
    obtain ⟨sig, hsig, hcircuit⟩ := circuit_of_subscribe hsig'
    rw [hcircuit]
    exact ho.keeps s' sig hsig
  placed := fun s' sig' hsig' c ↦ by
    obtain ⟨sig, hsig, hcircuit⟩ := circuit_of_subscribe hsig'
    rw [hcircuit]
    exact ho.placed s' sig hsig c
  looks := ho.looks
  ends := ho.ends
  windows := fun t ht s' place htask sig' hsig' ↦ by
    obtain ⟨sig, hsig, hcircuit⟩ := circuit_of_subscribe hsig'
    rw [hcircuit]
    exact ho.windows t ht s' place htask sig hsig
  slots := fun s' sig' place live id hsig' hlive htimer ↦ by
    obtain ⟨sig, hsig, hcircuit⟩ := circuit_of_subscribe hsig'
    exact ho.slots s' sig place live id hsig (hcircuit ▸ hlive) htimer
  tickets := fun s' sig' hsig' ↦ by
    rw [get?_subscribe] at hsig'
    split at hsig'
    · obtain ⟨sig, hsig, rfl⟩ := Option.map_eq_some_iff.1 hsig'
      obtain ⟨hnodup, hlt⟩ := ho.tickets s' sig hsig
      refine ⟨?_, fun e he ↦ ?_⟩
      · rw [List.map_append, List.nodup_append]
        refine ⟨hnodup, List.pairwise_singleton _ _, fun a ha b hb ↦ ?_⟩
        obtain ⟨e, he, rfl⟩ := List.mem_map.1 ha
        rw [List.map_singleton, List.mem_singleton] at hb
        exact hb ▸ Nat.ne_of_lt (hlt e he)
      · rcases List.mem_append.1 he with he | he
        · exact Nat.lt_succ_of_lt (hlt e he)
        · rw [List.mem_singleton.1 he]
          exact Nat.lt_succ_self _
    · obtain ⟨hnodup, hlt⟩ := ho.tickets s' sig' hsig'
      exact ⟨hnodup, fun e he ↦ Nat.lt_succ_of_lt (hlt e he)⟩

/-! ### The clock -/

/-- A clock that loses timers leaves a world in order. -/
theorem Orderly.clockwise (ho : w.Orderly) {k : Clock (Task η)} (hk : k.Orderly)
    (hnext : k.nextId = w.clock.nextId) (hqueue : ∀ t ∈ k.queue, t ∈ w.clock.queue) :
    ({ w with clock := k } : World η).Orderly where
  cells := ho.cells
  signals := ho.signals
  clock := hk
  keeps := ho.keeps
  placed := ho.placed
  looks := ho.looks
  ends := fun t ht ↦ ho.ends t (hqueue t ht)
  windows := fun t ht ↦ ho.windows t (hqueue t ht)
  slots := fun s sig place live id hsig hlive htimer ↦ by
    obtain ⟨hid, htask⟩ := ho.slots s sig place live id hsig hlive htimer
    exact ⟨hnext ▸ hid, fun t ht ↦ htask t (hqueue t ht)⟩
  tickets := ho.tickets

/-! ### Leaves -/

/-- What is to be done once a circuit of a signal has taken the place of another. -/
def tidings (s : SignalId) (sig : Signal η) (circuit : Circuit) : List (Work η) :=
  if circuit.truth = sig.truth then [] else [.tellSignal s circuit.truth sig.subscribers, .letGo s]

/-- What has happened once a circuit of a signal has taken the place of another. -/
def turning (s : SignalId) (sig : Signal η) (circuit : Circuit) : List Happening :=
  if circuit.truth = sig.truth then [] else [.turned s circuit.truth]

theorem filterMap_news_tidings (time : UInt64) (s : SignalId) (sig : Signal η) (circuit : Circuit) :
    (tidings s sig circuit).filterMap (Work.news time) = turning s sig circuit := by
  unfold tidings turning
  split <;> rfl

/-- The worlds differ by a leaf of one signal, and by the clock. -/
structure Amends (s : SignalId) (place : Nat) (g : LiveTerm → LiveTerm) (k : Clock (Task η))
    (w w' : World η) : Prop where
  cells : w'.cells = w.cells
  clock : w'.clock = k
  next : w'.signals.next = w.signals.next
  others : ∀ s', s' ≠ s → w'.signals.get? s' = w.signals.get? s'
  signal : ∀ sig, w.signals.get? s = some sig → ∃ sig', w'.signals.get? s = some sig' ∧
    sig'.circuit = sig.circuit.amend g place ∧ sig'.subscribers = sig.subscribers
  tickets : w'.nextTicket = w.nextTicket
  globals : w'.globals = w.globals
  published : w'.published = w.published

section Amends

variable {s : SignalId} {place : Nat} {g : LiveTerm → LiveTerm} {k : Clock (Task η)}
  {sig : Signal η}

/-- A signal is as it was after a leaf has changed, unless it is that leaf's. -/
theorem Amends.cases (h : Amends s place g k w w') (hsig : w.signals.get? s = some sig)
    {s' : SignalId} {sig' : Signal η} (hsig' : w'.signals.get? s' = some sig') :
    (s' = s ∧ sig'.circuit = sig.circuit.amend g place ∧ sig'.subscribers = sig.subscribers) ∨
      (s' ≠ s ∧ w.signals.get? s' = some sig') := by
  by_cases heq : s' = s
  · subst heq
    obtain ⟨sig'', hsig'', hcircuit, hsub⟩ := h.signal sig hsig
    rw [hsig'] at hsig''
    cases hsig''
    exact .inl ⟨rfl, hcircuit, hsub⟩
  · exact .inr ⟨heq, h.others s' heq ▸ hsig'⟩

theorem Amends.hold (h : Amends s place g k w w') : Amends s place g k w (w'.hold s) := by
  have hget : ∀ i, (w'.hold s).signals.get? i = if i = s then (w'.signals.get? i).map fun sig ↦
      { sig with holders := sig.holders + 1 } else w'.signals.get? i := fun i ↦
    Registry.get?_modify _ _ _ _
  refine { h with others := fun i hi ↦ ?_, signal := fun sig hsig ↦ ?_ }
  · rw [hget, if_neg hi, h.others i hi]
  · obtain ⟨sig', hsig', hcircuit, hsub⟩ := h.signal sig hsig
    have hheld : (w'.hold s).signals.get? s = some { sig' with holders := sig'.holders + 1 } := by
      rw [hget, if_pos rfl, hsig']
      rfl
    exact ⟨_, hheld, hcircuit, hsub⟩

/-- **To change a term of a signal changes its leaf**, and leaves the subscribers to be told. -/
theorem exists_setTerm_eq (hsig : w.signals.get? s = some sig) (place : Nat)
    (g : LiveTerm → LiveTerm) (k : Clock (Task η)) :
    ∃ w', ({ w with clock := k } : World η).setTerm s place g =
        (w', tidings s sig (sig.circuit.amend g place)) ∧ Amends s place g k w w' := by
  have hget : ({ w with clock := k } : World η).signals.get? s = some sig := hsig
  have hchanged : ∀ i, (w.signals.modify s fun _ ↦
      { sig with circuit := sig.circuit.amend g place }).get? i =
        if i = s then some { sig with circuit := sig.circuit.amend g place }
        else w.signals.get? i := fun i ↦ by
    rw [Registry.get?_modify]
    split
    · rename_i heq
      rw [heq, hsig]
      rfl
    · rfl
  have hamends : Amends s place g k w
      { w with
        clock := k
        signals := w.signals.modify s fun _ ↦
          { sig with circuit := sig.circuit.amend g place } } :=
    ⟨rfl, rfl, rfl, fun i hi ↦ (hchanged i).trans (if_neg hi), fun sig' hsig' ↦
      ⟨_, (hchanged s).trans (if_pos rfl), by rw [hsig] at hsig'; cases hsig'; exact ⟨rfl, rfl⟩⟩,
      rfl, rfl, rfl⟩
  rw [setTerm, hget, tidings]
  by_cases hturned : (sig.circuit.amend g place).truth = sig.truth
  · rw [if_pos hturned]
    exact ⟨_, if_pos hturned, hamends⟩
  · rw [if_neg hturned]
    exact ⟨_, if_neg hturned, hamends.hold⟩

end Amends

/-- The ways in which a leaf of a signal changes. Each comes of a piece of work that is begun; it
says what becomes of the leaf and of the clock, what work takes the place of that piece once the
subscribers are told, and what has happened besides that the signal may have turned. -/
inductive Amendment (w : World η) (s : SignalId) (place : Nat) (live : LiveTerm) :
    List (Work η) → (LiveTerm → LiveTerm) → Clock (Task η) → List (Work η) → List Happening → Prop
  /-- A relation is looked at. -/
  | look {c : CellId} {current : Option (Observer η)} {o : Observer η} {rest : List (Observer η)}
      {r : Relation} {left right : CellId} (hterm : live.term = .relation r left right)
      (hrole : o.role = .term s place) :
      Amendment w s place live [.tellCell c current (o :: rest)]
        (fun t ↦ { t with truth := r.holds (w.payload left) (w.payload right) }) w.clock
        [.tellCell c (some o) rest] []
  /-- A changed term starts anew. -/
  | restart {c operand : CellId} {window : UInt64} {current : Option (Observer η)} {o : Observer η}
      {rest : List (Observer η)} (held : List (Work η))
      (hterm : live.term = .changed operand window) (hrole : o.role = .term s place)
      (hheld : ∀ x ∈ held, x = .letGo s) :
      Amendment w s place live [.tellCell c current (o :: rest)]
        (fun t ↦ { t with truth := true, timer := none })
        (live.timer.toList.foldl Clock.cancel w.clock)
        (.settle s place :: held ++ [.tellCell c (some o) rest]) []
  /-- A changed term without a window ends. -/
  | flash {operand : CellId} (hterm : live.term = .changed operand 0) :
      Amendment w s place live [.settle s place] (fun t ↦ { t with truth := false }) w.clock [] []
  /-- The timer of a changed term is set. -/
  | arm {operand : CellId} {window : UInt64} (hterm : live.term = .changed operand window)
      (hwindow : window ≠ 0) :
      Amendment w s place live [.settle s place]
        (fun t ↦ { t with timer := some w.clock.nextId })
        (w.clock.schedule window (.expire s place)).2 [] [.armed s place live.timer]
  /-- The timer of a changed term runs out. -/
  | expire {operand : CellId} {window target : UInt64} {timer : Timer (Task η)}
      {k : Clock (Task η)} (hterm : live.term = .changed operand window)
      (hdue : w.clock.takeDue? target = some (timer, k)) (htask : timer.task = .expire s place) :
      Amendment w s place live [.advance target]
        (fun t ↦ { t with truth := false, timer := none }) k [.advance target] []

section Amendment

variable {s : SignalId} {place : Nat} {live : LiveTerm} {begun left : List (Work η)}
  {g : LiveTerm → LiveTerm} {k : Clock (Task η)} {news : List Happening} {sig : Signal η}

/-- However a leaf changes, it stays a leaf of the same term. -/
theorem Amendment.term_eq (how : Amendment w s place live begun g k left news) (t : LiveTerm) :
    (g t).term = t.term := by
  cases how <;> rfl

/-- A leaf of a changed signal is what it was, or the leaf that changed. -/
theorem leaf?_of_amends (h : Amends s place g k w w') (hsig : w.signals.get? s = some sig)
    {s' : SignalId} {sig' : Signal η} (hsig' : w'.signals.get? s' = some sig') {place' : Nat}
    {live' : LiveTerm} (hlive' : sig'.circuit.leaf? place' = some live') :
    (s' = s ∧ place' = place ∧ ∃ live, sig.circuit.leaf? place = some live ∧ live' = g live) ∨
      (s' = s → place' ≠ place) ∧
        ∃ old, w.signals.get? s' = some old ∧ old.circuit.leaf? place' = some live' := by
  rcases h.cases hsig hsig' with ⟨rfl, hcircuit, -⟩ | ⟨hne, hold⟩
  · rw [hcircuit, Circuit.leaf?_amend] at hlive'
    split at hlive'
    · rename_i heq
      subst heq
      obtain ⟨live, hlive, rfl⟩ := Option.map_eq_some_iff.1 hlive'
      exact .inl ⟨rfl, rfl, live, hlive, rfl⟩
    · rename_i hne
      exact .inr ⟨fun _ ↦ Ne.symm hne, sig, hsig, hlive'⟩
  · exact .inr ⟨fun heq ↦ absurd heq hne, sig', hold, hlive'⟩

/-- What an amendment does to the clock: it may drop timers, and may set one for that leaf. -/
structure Amendment.Winds (w : World η) (s : SignalId) (place : Nat) (live : LiveTerm)
    (g : LiveTerm → LiveTerm) (k : Clock (Task η)) : Prop where
  orderly : k.Orderly
  nextId : w.clock.nextId ≤ k.nextId
  queue : ∀ t ∈ k.queue, t ∈ w.clock.queue ∨
    w.clock.nextId ≤ t.id ∧ t.task = .expire s place ∧
      ∃ operand window, live.term = .changed operand window
  slot : ∀ id, (g live).timer = some id →
    id < k.nextId ∧ ∀ t ∈ k.queue, t.id = id → t.task = .expire s place

theorem Amendment.winds (ho : w.Orderly) (hsig : w.signals.get? s = some sig)
    (hlive : sig.circuit.leaf? place = some live)
    (how : Amendment w s place live begun g k left news) : Amendment.Winds w s place live g k := by
  have hslots := fun id ↦ ho.slots s sig place live id hsig hlive
  cases how with
  | look => exact ⟨ho.clock, Nat.le_refl _, fun t ht ↦ .inl ht, hslots⟩
  | restart =>
    rw [Clock.foldl_cancel]
    exact ⟨⟨ho.clock.sorted.filter _, ho.clock.distinct.filter _,
      fun t ht ↦ ho.clock.used t (List.mem_of_mem_filter ht),
      fun t ht ↦ ho.clock.ahead t (List.mem_of_mem_filter ht)⟩, Nat.le_refl _,
      fun t ht ↦ .inl (List.mem_of_mem_filter ht), fun id hid ↦ by cases hid⟩
  | flash => exact ⟨ho.clock, Nat.le_refl _, fun t ht ↦ .inl ht, hslots⟩
  | arm hterm =>
    refine ⟨ho.clock.schedule _ _, Nat.le_succ _, fun t ht ↦ ?_, fun id hid ↦ ?_⟩
    · rcases Clock.mem_enqueue.1 ht with rfl | ht
      · exact .inr ⟨Nat.le_refl _, rfl, _, _, hterm⟩
      · exact .inl ht
    · cases hid
      refine ⟨Nat.lt_succ_self _, fun t ht heq ↦ ?_⟩
      -- The number is new, so the timer under it is the one just set.
      rcases Clock.mem_enqueue.1 ht with rfl | ht
      · rfl
      · exact absurd heq (Nat.ne_of_lt (ho.clock.used t ht))
  | expire hterm hdue =>
    obtain ⟨hqueue, hnext, -⟩ := Clock.queue_takeDue? hdue
    refine ⟨ho.clock.takeDue? hdue, Nat.le_of_eq hnext.symm, fun t ht ↦ .inl ?_,
      fun id hid ↦ by cases hid⟩
    rw [hqueue]
    exact List.mem_cons_of_mem _ ht

/-- **A world stays in order** when a leaf changes. -/
theorem Orderly.amend (ho : w.Orderly) (hsig : w.signals.get? s = some sig)
    (hlive : sig.circuit.leaf? place = some live)
    (how : Amendment w s place live begun g k left news) (h : Amends s place g k w w') :
    w'.Orderly := by
  have hwinds := how.winds ho hsig hlive
  have hterms : (sig.circuit.amend g place).leaves.map LiveTerm.term =
      sig.circuit.leaves.map LiveTerm.term := by
    obtain ⟨f, hf⟩ := ho.keeps s sig hsig
    rw [(hf.amend how.term_eq place).terms_eq, hf.terms_eq]
  refine ⟨h.cells ▸ ho.cells, fun s' sig' hsig' ↦ ?_, h.clock ▸ hwinds.orderly,
    fun s' sig' hsig' ↦ ?_, fun s' sig' hsig' c ↦ ?_, fun c o hmem s' place' hrole ↦ ?_,
    fun t ht s' place' htask ↦ ?_, fun t ht s' place' htask sig' hsig' ↦ ?_,
    fun s' sig' place' live' id hsig' hlive' htimer ↦ ?_, fun s' sig' hsig' ↦ ?_⟩
  · rw [h.next]
    rcases h.cases hsig hsig' with ⟨rfl, -⟩ | ⟨-, hold⟩
    · exact ho.signals _ sig hsig
    · exact ho.signals _ sig' hold
  · rcases h.cases hsig hsig' with ⟨rfl, hcircuit, -⟩ | ⟨-, hold⟩
    · obtain ⟨f, hf⟩ := ho.keeps _ sig hsig
      exact ⟨f, hcircuit ▸ hf.amend how.term_eq place⟩
    · exact ho.keeps _ sig' hold
  · rw [observers_of_cells h.cells]
    rcases h.cases hsig hsig' with ⟨rfl, hcircuit, -⟩ | ⟨-, hold⟩
    · rw [hcircuit, hterms]
      exact ho.placed _ sig hsig c
    · exact ho.placed _ sig' hold c
  · rw [observers_of_cells h.cells] at hmem
    rw [h.next]
    exact ho.looks c o hmem s' place' hrole
  · rw [h.clock] at ht
    rw [h.next]
    rcases hwinds.queue t ht with ht | ⟨-, hnew, -⟩
    · exact ho.ends t ht s' place' htask
    · rw [hnew] at htask
      cases htask
      exact ho.signals _ sig hsig
  · rw [h.clock] at ht
    -- The leaf was of a changed term before, or is the one whose timer has just been set.
    have hbefore : ∀ old, w.signals.get? s' = some old →
        ∃ live c window, old.circuit.leaf? place' = some live ∧ live.term = .changed c window := by
      intro old hold
      rcases hwinds.queue t ht with ht | ⟨-, hnew, operand, window, hterm⟩
      · exact ho.windows t ht s' place' htask old hold
      · rw [hnew] at htask
        cases htask
        rw [hsig] at hold
        cases hold
        exact ⟨live, operand, window, hlive, hterm⟩
    rcases h.cases hsig hsig' with ⟨rfl, hcircuit, -⟩ | ⟨-, hold⟩
    · obtain ⟨live', operand, window, hlive', hterm⟩ := hbefore sig hsig
      rw [hcircuit, Circuit.leaf?_amend, hlive']
      split
      · exact ⟨_, operand, window, rfl, (how.term_eq live').trans hterm⟩
      · exact ⟨_, operand, window, rfl, hterm⟩
    · exact hbefore sig' hold
  · rw [h.clock]
    rcases leaf?_of_amends h hsig hsig' hlive' with
      ⟨rfl, rfl, live'', hlive'', rfl⟩ | ⟨hne, old, hold, hleaf⟩
    · rw [hlive] at hlive''
      cases hlive''
      exact hwinds.slot id htimer
    · obtain ⟨hid, htask⟩ := ho.slots s' old place' live' id hold hleaf htimer
      refine ⟨Nat.lt_of_lt_of_le hid hwinds.nextId, fun t ht heq ↦ ?_⟩
      rcases hwinds.queue t ht with ht | ⟨hnew, -⟩
      · exact htask t ht heq
      · omega
  · rw [h.tickets]
    rcases h.cases hsig hsig' with ⟨rfl, -, hsub⟩ | ⟨-, hold⟩
    · rw [hsub]
      exact ho.tickets _ sig hsig
    · exact ho.tickets _ sig' hold

end Amendment

end World

end LiveTemplate.Engine
