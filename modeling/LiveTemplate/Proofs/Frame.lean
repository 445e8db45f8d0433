import LiveTemplate.Proofs.Activity
import LiveTemplate.Proofs.Circuits
import LiveTemplate.Proofs.Timers

/-!
# What is spared

Most of what is done to a world has no bearing on the signals that go on living: their circuits, the
payloads that they read, their observers and the timers that end their windows stay as they are.
Such a change *spares* the signals (`Spares`). A signal may go, but none comes, and a subscriber may
go, but none comes.

What makes this hold is that a world is in order (`Orderly`): the observers of a signal are exactly
those of its operands, in the order of its terms, and the timers and observers of different signals
are different. Sparing keeps a world in order (`Orderly.spares`).
-/

namespace LiveTemplate.Engine

variable {η : Type}

/-! ### Numbers in use -/

namespace Registry

variable {α : Type}

/-- All numbers in use are below the next. -/
def Tight (r : Registry α) : Prop := ∀ i a, r.get? i = some a → i < r.next

theorem tight_empty : (empty : Registry α).Tight := fun _ _ h ↦ by simp at h

theorem Tight.add {r : Registry α} (h : r.Tight) (a : α) : (r.add a).2.Tight := by
  intro i b hb
  rw [get?_add] at hb
  show i < r.next + 1
  split at hb
  · omega
  · exact Nat.lt_succ_of_lt (h i b hb)

theorem Tight.modify {r : Registry α} (h : r.Tight) (i : Nat) (f : α → α) :
    (r.modify i f).Tight := by
  intro j b hb
  rw [get?_modify] at hb
  show j < r.next
  split at hb
  · obtain ⟨a, ha, -⟩ := Option.map_eq_some_iff.1 hb
    exact h j a ha
  · exact h j b hb

theorem Tight.get?_next {r : Registry α} (h : r.Tight) : r.get? r.next = none := by
  cases hget : r.get? r.next with
  | none => rfl
  | some a => exact absurd (h _ _ hget) (Nat.lt_irrefl _)

end Registry

/-- Whether a task ends a window of a signal. -/
def Task.ends (s : SignalId) : Task η → Bool
  | .handler _ => false
  | .expire s' _ => s' == s

/-- The place that an observer looks at for a signal, if it does. -/
def Observer.place? (s : SignalId) (o : Observer η) : Option Nat :=
  match o.role with
  | .term s' place => if s' = s then some place else none
  | _ => none

/-- The places of the terms that read a cell, counted from a first, once for each operand. -/
def reading (c : CellId) : Nat → List (Term CellId) → List Nat
  | _, [] => []
  | place, t :: rest =>
    (t.operands.filter (· = c)).map (fun _ ↦ place) ++ reading c (place + 1) rest

theorem Observer.serves_iff {s : SignalId} {o : Observer η} :
    o.serves s = true ↔ ∃ place, o.role = .term s place := by
  obtain ⟨ticket, role⟩ := o
  cases role <;> simp [serves]

theorem Observer.place?_eq_some {s : SignalId} {o : Observer η} {place : Nat} :
    o.place? s = some place ↔ o.role = .term s place := by
  obtain ⟨ticket, role⟩ := o
  cases role <;> simp [place?]

/-- Of the observers of a cell only those that serve a signal have a place in it. -/
theorem filterMap_place?_filter (s : SignalId) (l : List (Observer η)) :
    (l.filter (·.serves s)).filterMap (·.place? s) = l.filterMap (·.place? s) := by
  rw [List.filterMap_filter]
  refine List.filterMap_congr fun o _ ↦ ?_
  split
  · rfl
  · rename_i h
    cases hp : o.place? s with
    | none => rfl
    | some place => exact absurd (Observer.serves_iff.2 ⟨place, Observer.place?_eq_some.1 hp⟩) h

namespace World

/-! ### What is spared -/

/-- The payloads of cells, and the observers that look for signals that still live, are as they
were. -/
structure SparesCells (w w' : World η) : Prop where
  tight : w.cells.Tight → w'.cells.Tight
  payload : ∀ c, w.HasCell c → w'.HasCell c ∧ w'.payload c = w.payload c
  observers : ∀ s, w'.Lives s → ∀ c,
    (w'.observers c).filter (·.serves s) = (w.observers c).filter (·.serves s)
  looks : ∀ c, ∀ o ∈ w'.observers c, o.looks → o ∈ w.observers c

/-- The signals that still live have the circuits that they had, and no new subscribers. -/
structure SparesSignals (w w' : World η) : Prop where
  next : w.signals.next ≤ w'.signals.next
  signal : ∀ s sig', w'.signals.get? s = some sig' → ∃ sig, w.signals.get? s = some sig ∧
    sig'.circuit = sig.circuit ∧ sig'.subscribers.Sublist sig.subscribers

/-- The timers that end windows of signals that still live are as they were, and so is the time.
Timers that a signal remembers go when it goes. -/
structure SparesClock (w w' : World η) : Prop where
  orderly : w.clock.Orderly → w'.clock.Orderly
  now : w'.clock.now = w.clock.now
  nextId : w.clock.nextId ≤ w'.clock.nextId
  ends : ∀ s, w'.Lives s →
    w'.clock.queue.filter (·.task.ends s) = w.clock.queue.filter (·.task.ends s)
  old : ∀ t ∈ w'.clock.queue, t ∈ w.clock.queue ∨
    w.clock.nextId ≤ t.id ∧ ∃ h, t.task = .handler h
  gone : ∀ s sig, w.signals.get? s = some sig → ¬w'.Lives s → ∀ t ∈ w'.clock.queue,
    ∀ live ∈ sig.circuit.leaves, live.timer = some t.id → ∃ h, t.task = .handler h

/-- A change that has no bearing on the signals that go on living, nor on what a reference to a
global stands for. -/
structure Spares (w w' : World η) : Prop extends
    SparesCells w w', SparesSignals w w', SparesClock w w' where
  tickets : w.nextTicket ≤ w'.nextTicket
  globals : w.published = true → w'.published = true ∧ w'.globals = w.globals

variable {w w' w'' : World η}

theorem payload_of_cells (h : w'.cells = w.cells) (c : CellId) : w'.payload c = w.payload c := by
  rw [payload, payload, h]

theorem observers_of_cells (h : w'.cells = w.cells) (c : CellId) :
    w'.observers c = w.observers c := by
  rw [observers, observers, h]

theorem SparesCells.of_eq (h : w'.cells = w.cells) : SparesCells w w' where
  tight := fun ht ↦ h ▸ ht
  payload := fun c hc ↦ ⟨by rw [HasCell, h]; exact hc, payload_of_cells h c⟩
  observers := fun _ _ c ↦ by rw [observers_of_cells h c]
  looks := fun c o ho _ ↦ observers_of_cells h c ▸ ho

theorem SparesSignals.of_eq (h : w'.signals = w.signals) : SparesSignals w w' where
  next := Nat.le_of_eq (by rw [h])
  signal := fun _ sig' hsig ↦ ⟨sig', h ▸ hsig, rfl, .refl _⟩

theorem SparesClock.of_eq (h : w'.clock = w.clock) (hlives : ∀ s, w.Lives s → w'.Lives s) :
    SparesClock w w' where
  orderly := fun ho ↦ h ▸ ho
  now := by rw [h]
  nextId := Nat.le_of_eq (by rw [h])
  ends := fun _ _ ↦ by rw [h]
  old := fun _ ht ↦ .inl (h ▸ ht)
  gone := fun s sig hsig hgone ↦
    absurd (hlives s (Option.isSome_iff_exists.2 ⟨sig, hsig⟩)) hgone

theorem SparesSignals.lives (h : SparesSignals w w') {s : SignalId} (hs : w'.Lives s) :
    w.Lives s := by
  obtain ⟨sig', hsig'⟩ := Option.isSome_iff_exists.1 hs
  obtain ⟨sig, hsig, -⟩ := h.signal s sig' hsig'
  exact Option.isSome_iff_exists.2 ⟨sig, hsig⟩

theorem Spares.refl (w : World η) : Spares w w :=
  ⟨.of_eq rfl, .of_eq rfl, .of_eq rfl fun _ ↦ id, Nat.le_refl _, fun h ↦ ⟨h, rfl⟩⟩

theorem Spares.trans (h : Spares w w') (h' : Spares w' w'') : Spares w w'' where
  tight := h'.tight ∘ h.tight
  payload := fun c hc ↦ by
    obtain ⟨hc', hp⟩ := h.payload c hc
    obtain ⟨hc'', hp'⟩ := h'.payload c hc'
    exact ⟨hc'', hp'.trans hp⟩
  observers := fun s hs c ↦ (h'.observers s hs c).trans (h.observers s (h'.lives hs) c)
  looks := fun c o ho hl ↦ h.looks c o (h'.looks c o ho hl) hl
  next := Nat.le_trans h.next h'.next
  signal := fun s sig'' hsig'' ↦ by
    obtain ⟨sig', hsig', hc', hs'⟩ := h'.signal s sig'' hsig''
    obtain ⟨sig, hsig, hc, hs⟩ := h.signal s sig' hsig'
    exact ⟨sig, hsig, hc'.trans hc, hs'.trans hs⟩
  orderly := h'.orderly ∘ h.orderly
  now := h'.now.trans h.now
  nextId := Nat.le_trans h.nextId h'.nextId
  ends := fun s hs ↦ (h'.ends s hs).trans (h.ends s (h'.lives hs))
  old := fun t ht ↦ by
    rcases h'.old t ht with ht | ⟨hid, htask⟩
    · exact h.old t ht
    · exact .inr ⟨Nat.le_trans h.nextId hid, htask⟩
  gone := fun s sig hsig hgone t ht live hlive htimer ↦ by
    by_cases hlives : w'.Lives s
    · obtain ⟨sig', hsig'⟩ := Option.isSome_iff_exists.1 hlives
      obtain ⟨sig₀, hsig₀, hcircuit, -⟩ := h.signal s sig' hsig'
      rw [hsig] at hsig₀
      cases hsig₀
      exact h'.gone s sig' hsig' hgone t ht live (hcircuit ▸ hlive) htimer
    · rcases h'.old t ht with ht | ⟨-, htask⟩
      · exact h.gone s sig hsig hlives t ht live hlive htimer
      · exact htask
  tickets := Nat.le_trans h.tickets h'.tickets
  globals := fun hp ↦ by
    obtain ⟨hp', hg⟩ := h.globals hp
    obtain ⟨hp'', hg'⟩ := h'.globals hp'
    exact ⟨hp'', hg'.trans hg⟩

/-! ### Cells -/

theorem payload_modify {c : CellId} {f : Cell η → Cell η} (hw : w'.cells = w.cells.modify c f)
    (hf : ∀ cell, (f cell).payload = cell.payload) (c' : CellId) :
    w'.payload c' = w.payload c' := by
  rw [payload, payload, hw, Registry.get?_modify]
  split
  · cases w.cells.get? c' <;> simp [hf]
  · rfl

theorem hasCell_modify {c : CellId} {f : Cell η → Cell η} (hw : w'.cells = w.cells.modify c f)
    (c' : CellId) : w'.HasCell c' ↔ w.HasCell c' := by
  rw [HasCell, HasCell, hw, Registry.get?_modify]
  split <;> simp

/-- The observers of a cell after one cell has been changed. -/
theorem observers_modify {c : CellId} {f : Cell η → Cell η}
    {g : List (Observer η) → List (Observer η)} (hw : w'.cells = w.cells.modify c f)
    (hf : ∀ cell, (f cell).observers = g cell.observers) (c' : CellId) :
    w'.observers c' =
      if c' = c ∧ w.HasCell c' then g (w.observers c') else w.observers c' := by
  by_cases hc : c' = c
  · subst hc
    cases hget : w.cells.get? c' <;>
      simp [observers, HasCell, hw, Registry.get?_modify, hget, hf]
  · simp [observers, hw, Registry.get?_modify, hc]

/-- A change of cells that keeps their payloads, and of their observers those that look, spares what
signals read. -/
theorem SparesCells.of_modify {c : CellId} {f : Cell η → Cell η}
    {g : List (Observer η) → List (Observer η)} (hw : w'.cells = w.cells.modify c f)
    (hp : ∀ cell, (f cell).payload = cell.payload)
    (hf : ∀ cell, (f cell).observers = g cell.observers)
    (hserves : ∀ s, w'.Lives s →
      (g (w.observers c)).filter (·.serves s) = (w.observers c).filter (·.serves s))
    (hlooks : ∀ o ∈ g (w.observers c), o.looks → o ∈ w.observers c) : SparesCells w w' where
  tight := fun ht ↦ hw ▸ ht.modify c f
  payload := fun c' hc' ↦ ⟨(hasCell_modify hw c').2 hc', payload_modify hw hp c'⟩
  observers := fun s hs c' ↦ by
    rw [observers_modify hw hf]
    split
    · rename_i hc
      rw [hc.1]
      exact hserves s hs
    · rfl
  looks := fun c' o ho hl ↦ by
    rw [observers_modify hw hf] at ho
    split at ho
    · rename_i hc
      rw [hc.1] at ho ⊢
      exact hlooks o ho hl
    · exact ho

theorem spares_create (hw : w.cells.Tight) (p : Payload) : Spares w (w.create p).2 := by
  have hold : ∀ {c}, w.cells.next ≠ c → (w.create p).2.cells.get? c = w.cells.get? c := by
    intro c hc
    show (w.cells.add ⟨p, []⟩).2.get? c = _
    rw [Registry.get?_add, if_neg hc]
  -- Nobody observes the new cell, and nobody observed its number before.
  have hobservers : ∀ c, (w.create p).2.observers c = w.observers c := by
    intro c
    by_cases hc : w.cells.next = c
    · subst hc
      show (((w.cells.add ⟨p, []⟩).2.get? _).map Cell.observers).getD [] = _
      rw [observers, Registry.get?_add, if_pos rfl, hw.get?_next]
      rfl
    · rw [observers, hold hc, observers]
  refine ⟨⟨fun ht ↦ ht.add _, fun c hc ↦ ?_, fun s _ c ↦ by rw [hobservers],
    fun c o ho _ ↦ hobservers c ▸ ho⟩, .of_eq rfl, .of_eq rfl fun _ ↦ id, Nat.le_refl _,
    fun h ↦ ⟨h, rfl⟩⟩
  obtain ⟨cell, hcell⟩ := Option.isSome_iff_exists.1 hc
  have hget := hold (Nat.ne_of_lt (hw c cell hcell)).symm
  exact ⟨by rw [HasCell, hget]; exact hc, by rw [payload, hget, payload]⟩

theorem spares_observe {role : Role η} (hrole : ∀ s place, role ≠ .term s place) (w : World η)
    (c : CellId) : Spares w (w.observe c role).2 := by
  have hserves : ∀ s, (⟨w.nextTicket, role⟩ : Observer η).serves s = false := fun s ↦ by
    cases role with
    | term s' place => exact absurd rfl (hrole s' place)
    | _ => rfl
  have hw : (w.observe c role).2.cells = w.cells.modify c fun cell ↦
      { cell with observers := cell.observers ++ [⟨w.nextTicket, role⟩] } := rfl
  have hcells : SparesCells w (w.observe c role).2 := by
    refine .of_modify (g := (· ++ [⟨w.nextTicket, role⟩])) hw (fun _ ↦ rfl) (fun _ ↦ rfl)
      (fun s _ ↦ ?_) (fun o ho hl ↦ ?_)
    · simp [List.filter_append, hserves s]
    · rcases List.mem_append.1 ho with ho | ho
      · exact ho
      · obtain ⟨s, place, hterm⟩ := hl
        rw [List.mem_singleton.1 ho] at hterm
        exact absurd hterm (hrole s place)
  exact ⟨hcells, .of_eq rfl, .of_eq rfl fun _ ↦ id, Nat.le_succ _, fun h ↦ ⟨h, rfl⟩⟩

/-! ### Signals, timers and the rest -/

theorem lives_modify {s : SignalId} {f : Signal η → Signal η}
    (hw : w'.signals = w.signals.modify s f) (s' : SignalId) : w'.Lives s' ↔ w.Lives s' := by
  rw [Lives, Lives, hw, Registry.get?_modify]
  split <;> simp

theorem SparesSignals.of_modify {s : SignalId} {f : Signal η → Signal η}
    (hw : w'.signals = w.signals.modify s f) (hc : ∀ sig, (f sig).circuit = sig.circuit)
    (hs : ∀ sig, (f sig).subscribers.Sublist sig.subscribers) : SparesSignals w w' where
  next := Nat.le_of_eq (by rw [hw]; rfl)
  signal := fun s' sig' hsig' ↦ by
    rw [hw, Registry.get?_modify] at hsig'
    split at hsig'
    · obtain ⟨sig, hsig, rfl⟩ := Option.map_eq_some_iff.1 hsig'
      exact ⟨sig, hsig, hc sig, hs sig⟩
    · exact ⟨sig', hsig', rfl, .refl _⟩

/-- A signal may gain or lose holders, and lose subscribers. -/
theorem spares_modify {s : SignalId} {f : Signal η → Signal η} (w : World η)
    (hc : ∀ sig, (f sig).circuit = sig.circuit)
    (hs : ∀ sig, (f sig).subscribers.Sublist sig.subscribers) :
    Spares w { w with signals := w.signals.modify s f } := by
  have hw : ({ w with signals := w.signals.modify s f } : World η).signals =
    w.signals.modify s f := rfl
  exact ⟨.of_eq rfl, .of_modify hw hc hs, .of_eq rfl fun s' ↦ (lives_modify hw s').2, Nat.le_refl _,
    fun h ↦ ⟨h, rfl⟩⟩

theorem spares_hold (w : World η) (s : SignalId) : Spares w (w.hold s) :=
  spares_modify w (fun _ ↦ rfl) fun _ ↦ .refl _

theorem spares_cancel {sub : Subscription} (hsub : w.Permits (.cancel sub)) :
    Spares w (w.cancel sub) := by
  cases sub with
  | none => exact .refl w
  | ofCell c ticket =>
    have hw : (w.cancel (.ofCell c ticket)).cells = w.cells.modify c fun cell ↦
        { cell with observers := cell.observers.filter fun o ↦ o.ticket != ticket } := rfl
    have hcells : SparesCells w (w.cancel (.ofCell c ticket)) := by
      refine .of_modify (g := (·.filter fun o ↦ o.ticket != ticket)) hw (fun _ ↦ rfl)
        (fun _ ↦ rfl) (fun s _ ↦ ?_) (fun o ho _ ↦ List.mem_of_mem_filter ho)
      rw [List.filter_filter]
      refine List.filter_congr fun o ho ↦ ?_
      -- An observer that serves a signal looks, so the ticket is not its own.
      cases hs : o.serves s with
      | false => rfl
      | true =>
        obtain ⟨place, hrole⟩ := Observer.serves_iff.1 hs
        have hne : o.ticket ≠ ticket := fun h ↦ hsub o ho h ⟨s, place, hrole⟩
        simpa using hne
    exact ⟨hcells, .of_eq rfl, .of_eq rfl fun _ ↦ id, Nat.le_refl _, fun h ↦ ⟨h, rfl⟩⟩
  | ofSignal s ticket => exact spares_modify w (fun _ ↦ rfl) fun _ ↦ List.filter_sublist
  | ofProblems ticket =>
    exact ⟨.of_eq rfl, .of_eq rfl, .of_eq rfl fun _ ↦ id, Nat.le_refl _, fun h ↦ ⟨h, rfl⟩⟩

theorem spares_schedule (w : World η) (delay : UInt64) (h : η) :
    Spares w { w with clock := (w.clock.schedule delay (.handler h)).2 } := by
  refine ⟨.of_eq rfl, .of_eq rfl, ⟨fun ho ↦ ho.schedule _ _, rfl, Nat.le_succ _,
    fun _ _ ↦ Clock.filter_enqueue rfl _, fun t ht ↦ ?_, fun s sig hsig hgone ↦
    absurd (Option.isSome_iff_exists.2 ⟨sig, hsig⟩) hgone⟩, Nat.le_refl _, fun h ↦ ⟨h, rfl⟩⟩
  rcases Clock.mem_enqueue.1 ht with rfl | ht
  · exact .inr ⟨Nat.le_refl _, h, rfl⟩
  · exact .inl ht

theorem spares_cancelTimer {id : Nat}
    (hid : ∀ t ∈ w.clock.queue, t.id = id → ∃ h, t.task = .handler h) :
    Spares w { w with clock := w.clock.cancel id } := by
  refine ⟨.of_eq rfl, .of_eq rfl, ⟨fun ho ↦ ho.cancel id, rfl, Nat.le_refl _, fun s _ ↦ ?_,
    fun t ht ↦ .inl (List.mem_of_mem_filter ht), fun s sig hsig hgone ↦
    absurd (Option.isSome_iff_exists.2 ⟨sig, hsig⟩) hgone⟩, Nat.le_refl _, fun h ↦ ⟨h, rfl⟩⟩
  show (w.clock.queue.filter fun t ↦ t.id != id).filter _ = _
  rw [List.filter_filter]
  refine List.filter_congr fun t ht ↦ ?_
  by_cases h : t.id = id
  · obtain ⟨k, hk⟩ := hid t ht h
    simp [hk, Task.ends]
  · simp [h]

theorem spares_addGlobal {key : String} {c : CellId} (h : w.addGlobal key c = .ok w') :
    Spares w w' := by
  unfold addGlobal at h
  split at h
  · cases h
  · rename_i hpublished
    split at h
    · cases h
    · cases h
      exact ⟨.of_eq rfl, .of_eq rfl, .of_eq rfl fun _ ↦ id, Nat.le_refl _,
        fun hp ↦ absurd hp hpublished⟩

theorem spares_publish (w : World η) : Spares w w.publish.1 := by
  unfold publish
  split
  · exact .refl w
  · exact ⟨.of_eq rfl, .of_eq rfl, .of_eq rfl fun _ ↦ id, Nat.le_refl _, fun _ ↦ ⟨rfl, rfl⟩⟩

theorem spares_onPublish (w : World η) (h : η) : Spares w (w.onPublish h).1 := by
  unfold onPublish
  split
  · exact .refl w
  · exact ⟨.of_eq rfl, .of_eq rfl, .of_eq rfl fun _ ↦ id, Nat.le_refl _, fun h ↦ ⟨h, rfl⟩⟩

theorem spares_listen (w : World η) (h : η) : Spares w (w.listen h).2 :=
  ⟨.of_eq rfl, .of_eq rfl, .of_eq rfl fun _ ↦ id, Nat.le_succ _, fun h ↦ ⟨h, rfl⟩⟩

/-! ### Signals that go -/

/-- A cell without the observers that serve a signal. -/
def shed (s : SignalId) (cell : Cell η) : Cell η :=
  { cell with observers := cell.observers.filter fun o ↦ !o.serves s }

/-- The cells after the observers that serve a signal have been taken off some of them. -/
def sweep (s : SignalId) (read : List CellId) (cells : Registry (Cell η)) : Registry (Cell η) :=
  read.foldl (fun cells c ↦ cells.modify c (shed s)) cells

theorem sweep_tight {cells : Registry (Cell η)} (h : cells.Tight) (s : SignalId)
    (read : List CellId) : (sweep s read cells).Tight := by
  induction read generalizing cells with
  | nil => exact h
  | cons c rest ih => exact ih (h.modify c _)

theorem payload_sweep {s : SignalId} {read : List CellId} (hw : w'.cells = sweep s read w.cells)
    (c : CellId) : (w'.HasCell c ↔ w.HasCell c) ∧ w'.payload c = w.payload c := by
  induction read generalizing w with
  | nil => exact ⟨by rw [HasCell, hw]; rfl, payload_of_cells hw c⟩
  | cons c' rest ih =>
    have hfirst : ({ w with cells := w.cells.modify c' (shed s) } : World η).cells =
      w.cells.modify c' (shed s) := rfl
    obtain ⟨hcell, hpayload⟩ := ih (w := { w with cells := w.cells.modify c' (shed s) }) hw
    exact ⟨hcell.trans (hasCell_modify hfirst c),
      hpayload.trans (payload_modify hfirst (fun _ ↦ rfl) c)⟩

/-- A sweep takes the observers that serve the signal off the cells that it visits, and leaves all
others. -/
theorem observers_sweep {s : SignalId} {read : List CellId} (hw : w'.cells = sweep s read w.cells)
    (c : CellId) :
    w'.observers c =
      if c ∈ read then (w.observers c).filter (fun o ↦ !o.serves s) else w.observers c := by
  induction read generalizing w with
  | nil => simpa using observers_of_cells hw c
  | cons c' rest ih =>
    have hfirst : ({ w with cells := w.cells.modify c' (shed s) } : World η).cells =
      w.cells.modify c' (shed s) := rfl
    have hstep := observers_modify (g := (·.filter fun o : Observer η ↦ !o.serves s)) hfirst
      (fun _ ↦ rfl) c
    rw [ih (w := { w with cells := w.cells.modify c' (shed s) }) hw, hstep]
    by_cases hc : c = c'
    · subst hc
      by_cases hcell : w.HasCell c
      · simp [hcell, List.filter_filter]
      · have hnil : w.observers c = [] := by
          have : w.cells.get? c = none := by simpa [HasCell] using hcell
          rw [observers, this]
          rfl
        simp [hnil]
    · simp [hc]

/-! ### Worlds in order -/

/-- A world is in order: the observers of a signal are those of its operands, in the order of its
terms, and what one signal set up is not another's. -/
structure Orderly (w : World η) : Prop where
  cells : w.cells.Tight
  signals : w.signals.Tight
  clock : w.clock.Orderly
  keeps : ∀ s sig, w.signals.get? s = some sig → ∃ f, Circuit.Keeps f sig.circuit
  placed : ∀ s sig, w.signals.get? s = some sig → ∀ c,
    (w.observers c).filterMap (·.place? s) = reading c 0 (sig.circuit.leaves.map LiveTerm.term)
  looks : ∀ c, ∀ o ∈ w.observers c, ∀ s place, o.role = .term s place → s < w.signals.next
  ends : ∀ t ∈ w.clock.queue, ∀ s place, t.task = .expire s place → s < w.signals.next
  windows : ∀ t ∈ w.clock.queue, ∀ s place, t.task = .expire s place →
    ∀ sig, w.signals.get? s = some sig →
      ∃ live c window, sig.circuit.leaf? place = some live ∧ live.term = .changed c window
  slots : ∀ s sig place live id, w.signals.get? s = some sig →
    sig.circuit.leaf? place = some live → live.timer = some id →
      id < w.clock.nextId ∧ ∀ t ∈ w.clock.queue, t.id = id → t.task = .expire s place
  tickets : ∀ s sig, w.signals.get? s = some sig →
    (sig.subscribers.map Prod.fst).Nodup ∧ ∀ e ∈ sig.subscribers, e.1 < w.nextTicket

theorem orderly_start : (start : World η).Orderly where
  cells := Registry.tight_empty
  signals := Registry.tight_empty
  clock := Clock.orderly_start
  keeps := fun _ _ h ↦ by simp [start] at h
  placed := fun _ _ h ↦ by simp [start] at h
  looks := fun _ _ h ↦ by simp [start, observers] at h
  ends := fun _ h ↦ by simp [start, Clock.start] at h
  windows := fun _ h ↦ by simp [start, Clock.start] at h
  slots := fun _ _ _ _ _ h ↦ by simp [start] at h
  tickets := fun _ _ h ↦ by simp [start] at h

/-- **A world that is in order stays so** when its signals are spared. -/
theorem Orderly.spares (ho : w.Orderly) (h : Spares w w') : w'.Orderly where
  cells := h.tight ho.cells
  signals := fun s sig' hsig' ↦ by
    obtain ⟨sig, hsig, -⟩ := h.signal s sig' hsig'
    exact Nat.lt_of_lt_of_le (ho.signals s sig hsig) h.next
  clock := h.orderly ho.clock
  keeps := fun s sig' hsig' ↦ by
    obtain ⟨sig, hsig, hcircuit, -⟩ := h.signal s sig' hsig'
    rw [hcircuit]
    exact ho.keeps s sig hsig
  placed := fun s sig' hsig' c ↦ by
    obtain ⟨sig, hsig, hcircuit, -⟩ := h.signal s sig' hsig'
    have hlives : w'.Lives s := Option.isSome_iff_exists.2 ⟨sig', hsig'⟩
    rw [hcircuit, ← ho.placed s sig hsig c, ← filterMap_place?_filter, h.observers s hlives c,
      filterMap_place?_filter]
  looks := fun c o hmem s place hrole ↦
    Nat.lt_of_lt_of_le (ho.looks c o (h.looks c o hmem ⟨s, place, hrole⟩) s place hrole) h.next
  ends := fun t ht s place htask ↦ by
    rcases h.old t ht with ht | ⟨-, k, hk⟩
    · exact Nat.lt_of_lt_of_le (ho.ends t ht s place htask) h.next
    · rw [hk] at htask
      cases htask
  windows := fun t ht s place htask sig' hsig' ↦ by
    obtain ⟨sig, hsig, hcircuit, -⟩ := h.signal s sig' hsig'
    rcases h.old t ht with ht | ⟨-, k, hk⟩
    · rw [hcircuit]
      exact ho.windows t ht s place htask sig hsig
    · rw [hk] at htask
      cases htask
  slots := fun s sig' place live id hsig' hlive htimer ↦ by
    obtain ⟨sig, hsig, hcircuit, -⟩ := h.signal s sig' hsig'
    obtain ⟨hid, htask⟩ := ho.slots s sig place live id hsig (hcircuit ▸ hlive) htimer
    refine ⟨Nat.lt_of_lt_of_le hid h.nextId, fun t ht heq ↦ ?_⟩
    rcases h.old t ht with ht | ⟨hnew, -⟩
    · exact htask t ht heq
    · omega
  tickets := fun s sig' hsig' ↦ by
    obtain ⟨sig, hsig, -, hsub⟩ := h.signal s sig' hsig'
    obtain ⟨hnodup, hlt⟩ := ho.tickets s sig hsig
    exact ⟨hnodup.sublist (hsub.map Prod.fst),
      fun e he ↦ Nat.lt_of_lt_of_le (hlt e (hsub.subset he)) h.tickets⟩

/-! ### Letting go -/

/-- The world without a signal: its timers are dropped, and its observers taken off the cells that
it reads. -/
def without (w : World η) (s : SignalId) (sig : Signal η) : World η :=
  { w with
    clock := (sig.circuit.leaves.filterMap LiveTerm.timer).foldl Clock.cancel w.clock
    cells := sweep s (sig.circuit.leaves.flatMap fun t ↦ t.term.operands) w.cells
    signals := w.signals.remove s }

theorem dispose_eq {s : SignalId} {sig : Signal η} (h : w.signals.get? s = some sig) :
    w.dispose s = w.without s sig := by
  unfold dispose
  rw [h]
  rfl

section Without

variable {s : SignalId} {sig : Signal η}

theorem get?_without {s' : SignalId} {sig' : Signal η} :
    (w.without s sig).signals.get? s' = some sig' ↔ s' ≠ s ∧ w.signals.get? s' = some sig' := by
  show (w.signals.remove s).get? s' = some sig' ↔ _
  rw [Registry.get?_remove]
  split <;> simp_all

theorem ne_of_lives_without {s' : SignalId} (h : (w.without s sig).Lives s') : s' ≠ s := by
  obtain ⟨sig', hsig'⟩ := Option.isSome_iff_exists.1 h
  exact (get?_without.1 hsig').1

theorem observers_without (c : CellId) :
    (w.without s sig).observers c =
      if c ∈ sig.circuit.leaves.flatMap (fun t ↦ t.term.operands) then
        (w.observers c).filter (fun o ↦ !o.serves s)
      else w.observers c :=
  observers_sweep rfl c

theorem clock_without :
    (w.without s sig).clock = { w.clock with
      queue := w.clock.queue.filter fun t ↦
        !(sig.circuit.leaves.filterMap LiveTerm.timer).contains t.id } :=
  Clock.foldl_cancel _ _

theorem sparesCells_without : SparesCells w (w.without s sig) where
  tight := fun ht ↦ sweep_tight ht _ _
  payload := fun c hc ↦ by
    have hw : (w.without s sig).cells =
      sweep s (sig.circuit.leaves.flatMap fun t ↦ t.term.operands) w.cells := rfl
    exact ⟨(payload_sweep hw c).1.2 hc, (payload_sweep hw c).2⟩
  observers := fun s' hs' c ↦ by
    rw [observers_without]
    split
    · rw [List.filter_filter]
      refine List.filter_congr fun o _ ↦ ?_
      -- Nobody serves both signals.
      cases hserves : o.serves s' with
      | false => rfl
      | true =>
        obtain ⟨place, hrole⟩ := Observer.serves_iff.1 hserves
        have hne : (s' == s) = false := by simpa using ne_of_lives_without hs'
        simp [Observer.serves, hrole, hne]
    · rfl
  looks := fun c o ho _ ↦ by
    rw [observers_without] at ho
    split at ho
    · exact List.mem_of_mem_filter ho
    · exact ho

end Without

theorem spares_dispose (ho : w.Orderly) (s : SignalId) : Spares w (w.dispose s) := by
  cases hsig : w.signals.get? s with
  | none =>
    have heq : w.dispose s = w := by
      unfold dispose
      rw [hsig]
    rw [heq]
    exact .refl w
  | some sig =>
    rw [dispose_eq hsig]
    refine ⟨sparesCells_without, ⟨Nat.le_refl _, fun s' sig' hsig' ↦
      ⟨sig', (get?_without.1 hsig').2, rfl, .refl _⟩⟩, ⟨fun hc ↦ ?_, ?_, ?_, fun s' hs' ↦ ?_,
      fun t ht ↦ ?_, fun s' sig' hsig' hgone t ht live hlive htimer ↦ ?_⟩, Nat.le_refl _,
      fun h ↦ ⟨h, rfl⟩⟩
    · rw [clock_without]
      exact ⟨hc.sorted.filter _, hc.distinct.filter _,
        fun t ht ↦ hc.used t (List.mem_of_mem_filter ht),
        fun t ht ↦ hc.ahead t (List.mem_of_mem_filter ht)⟩
    · rw [clock_without]
    · exact Nat.le_of_eq (by rw [clock_without])
    · rw [clock_without, List.filter_filter]
      refine List.filter_congr fun t ht ↦ ?_
      -- A timer that a leaf of the signal remembers ends a window of that signal.
      cases hends : t.task.ends s' with
      | false => rfl
      | true =>
        rw [Bool.true_and, Bool.not_eq_true', List.contains_eq_mem, decide_eq_false_iff_not,
          List.mem_filterMap]
        rintro ⟨live, hmem, htimer⟩
        obtain ⟨place, hplace⟩ := List.mem_iff_getElem?.1 hmem
        have htask := (ho.slots s sig place live t.id hsig hplace htimer).2 t ht rfl
        rw [htask] at hends
        have heq : s = s' := by simpa [Task.ends] using hends
        exact ne_of_lives_without hs' heq.symm
    · rw [clock_without] at ht
      exact .inl (List.mem_of_mem_filter ht)
    · -- The timers that the signal remembers have been dropped.
      have heq : s' = s := by
        by_contra hne
        exact hgone (Option.isSome_iff_exists.2 ⟨sig', get?_without.2 ⟨hne, hsig'⟩⟩)
      rw [heq, hsig] at hsig'
      cases hsig'
      rw [clock_without] at ht
      have hnot := (List.mem_filter.1 ht).2
      rw [Bool.not_eq_true', List.contains_eq_mem, decide_eq_false_iff_not] at hnot
      exact absurd (List.mem_filterMap.2 ⟨live, hlive, htimer⟩) hnot

theorem spares_letGo (ho : w.Orderly) (s : SignalId) : Spares w (w.letGo s) := by
  unfold letGo
  split
  · exact .refl w
  · split
    · exact spares_dispose ho s
    · exact spares_modify w (fun _ ↦ rfl) fun _ ↦ .refl _

/-! ### Signals that come -/

/-- The world differs by observers that look for a signal: of each cell that exists they come behind
the observers it has, and look at the places given. -/
structure Attaches (s : SignalId) (places : CellId → List Nat) (w w' : World η) : Prop where
  signals : w'.signals = w.signals
  clock : w'.clock = w.clock
  tickets : w.nextTicket ≤ w'.nextTicket
  published : w'.published = w.published
  globals : w'.globals = w.globals
  tight : w.cells.Tight → w'.cells.Tight
  hasCell : ∀ c, w'.HasCell c ↔ w.HasCell c
  payload : ∀ c, w'.payload c = w.payload c
  observers : ∀ c, ∃ added, w'.observers c = w.observers c ++ added ∧
    (∀ o ∈ added, o.serves s = true) ∧
    added.filterMap (·.place? s) = if w.HasCell c then places c else []

section Attaches

variable {s : SignalId} {places places' : CellId → List Nat}

theorem Attaches.refl (s : SignalId) (w : World η) : Attaches s (fun _ ↦ []) w w where
  signals := rfl
  clock := rfl
  tickets := Nat.le_refl _
  published := rfl
  globals := rfl
  tight := id
  hasCell := fun _ ↦ Iff.rfl
  payload := fun _ ↦ rfl
  observers := fun c ↦ ⟨[], by simp, by simp, by simp⟩

theorem Attaches.trans (h : Attaches s places w w') (h' : Attaches s places' w' w'') :
    Attaches s (fun c ↦ places c ++ places' c) w w'' where
  signals := h'.signals.trans h.signals
  clock := h'.clock.trans h.clock
  tickets := Nat.le_trans h.tickets h'.tickets
  published := h'.published.trans h.published
  globals := h'.globals.trans h.globals
  tight := h'.tight ∘ h.tight
  hasCell := fun c ↦ (h'.hasCell c).trans (h.hasCell c)
  payload := fun c ↦ (h'.payload c).trans (h.payload c)
  observers := fun c ↦ by
    obtain ⟨added, heq, hserves, hplaces⟩ := h.observers c
    obtain ⟨added', heq', hserves', hplaces'⟩ := h'.observers c
    refine ⟨added ++ added', by rw [heq', heq, List.append_assoc], fun o ho ↦ ?_, ?_⟩
    · exact (List.mem_append.1 ho).elim (hserves o) (hserves' o)
    · rw [List.filterMap_append, hplaces, hplaces']
      by_cases hc : w.HasCell c
      · simp [hc, (h.hasCell c).2 hc]
      · simp [hc, mt (h.hasCell c).1 hc]

theorem attaches_observe (w : World η) (s : SignalId) (place : Nat) (c : CellId) :
    Attaches s (fun c' ↦ if c' = c then [place] else []) w (w.observe c (.term s place)).2 := by
  have hw : (w.observe c (.term s place)).2.cells = w.cells.modify c fun cell ↦
      { cell with observers := cell.observers ++ [⟨w.nextTicket, .term s place⟩] } := rfl
  refine ⟨rfl, rfl, Nat.le_succ _, rfl, rfl, fun ht ↦ ht.modify _ _, hasCell_modify hw,
    payload_modify hw fun _ ↦ rfl, fun c' ↦ ?_⟩
  rw [observers_modify (g := (· ++ [⟨w.nextTicket, .term s place⟩])) hw fun _ ↦ rfl]
  by_cases hc : c' = c
  · subst hc
    by_cases hcell : w.HasCell c'
    · refine ⟨[⟨w.nextTicket, .term s place⟩], by simp [hcell], ?_, ?_⟩ <;>
        simp [Observer.serves, Observer.place?, hcell]
    · exact ⟨[], by simp [hcell], by simp, by simp [hcell]⟩
  · exact ⟨[], by simp [hc], by simp, by simp [hc]⟩

theorem attaches_operands (s : SignalId) (place : Nat) (operands : List CellId) (w : World η) :
    Attaches s (fun c ↦ (operands.filter (· = c)).map fun _ ↦ place) w
      (operands.foldl (fun w c ↦ (w.observe c (.term s place)).2) w) := by
  induction operands generalizing w with
  | nil => exact .refl s w
  | cons c' rest ih =>
    have hplaces : (fun c ↦ (if c = c' then [place] else []) ++
        (rest.filter (· = c)).map fun _ ↦ place) =
        fun c ↦ ((c' :: rest).filter (· = c)).map fun _ ↦ place := by
      funext c
      by_cases hc : c = c'
      · subst hc
        simp
      · simp [hc, Ne.symm hc]
    rw [← hplaces]
    exact (attaches_observe w s place c').trans (ih (w.observe c' (.term s place)).2)

/-- **The terms of a signal observe their operands**, from left to right. -/
theorem attaches_observeTerms (s : SignalId) (place : Nat) (ts : List (Term CellId)) (w : World η) :
    Attaches s (fun c ↦ reading c place ts) w (w.observeTerms s place ts) := by
  induction ts generalizing w place with
  | nil => exact .refl s w
  | cons t rest ih => exact (attaches_operands s place t.operands w).trans (ih (place + 1) _)

end Attaches

/-- A cell is read at some place exactly if it is an operand. -/
theorem reading_eq_nil_iff {c : CellId} {place : Nat} {ts : List (Term CellId)} :
    reading c place ts = [] ↔ c ∉ ts.flatMap Term.operands := by
  induction ts generalizing place with
  | nil => simp [reading]
  | cons t rest ih =>
    have hfirst : (t.operands.filter (· = c)).map (fun _ ↦ place) = [] ↔ c ∉ t.operands := by
      rw [List.map_eq_nil_iff, List.filter_eq_nil_iff]
      exact ⟨fun h hc ↦ h c hc (by simp), fun h a ha heq ↦ h (of_decide_eq_true heq ▸ ha)⟩
    rw [reading, List.append_eq_nil_iff, ih, hfirst, List.flatMap_cons, List.mem_append, not_or]

theorem filterMap_place?_eq_nil {s : SignalId} {l : List (Observer η)}
    (hserves : ∀ o ∈ l, o.serves s = true) (h : l.filterMap (·.place? s) = []) : l = [] := by
  cases l with
  | nil => rfl
  | cons o rest =>
    obtain ⟨place, hrole⟩ := Observer.serves_iff.1 (hserves o (by simp))
    have hnone := List.filterMap_eq_nil_iff.1 h o (by simp)
    rw [Observer.place?_eq_some.2 hrole] at hnone
    cases hnone

/-- Observers that serve one signal do not serve another. -/
theorem filter_serves_eq_nil {s s' : SignalId} (hne : s' ≠ s) {l : List (Observer η)}
    (hserves : ∀ o ∈ l, o.serves s = true) : l.filter (·.serves s') = [] := by
  refine List.filter_eq_nil_iff.2 fun o ho h ↦ ?_
  obtain ⟨place, hrole⟩ := Observer.serves_iff.1 (hserves o ho)
  obtain ⟨place', hrole'⟩ := Observer.serves_iff.1 h
  rw [hrole] at hrole'
  cases hrole'
  exact hne rfl

section OpenSignal

variable (w : World η) (f : Formula (Term CellId))

/-- A new signal: its circuit looks at every term, and nobody subscribes yet. -/
def newSignal : Signal η := ⟨.build w.startTerm f, [], 1⟩

/-- The world with a new signal that observes nothing yet. -/
def withSignal : World η := { w with signals := (w.signals.add (w.newSignal f)).2 }

theorem attaches_openSignal :
    Attaches w.signals.next (fun c ↦ reading c 0 f.terms) (w.withSignal f) (w.openSignal f).2 :=
  attaches_observeTerms _ 0 f.terms _

theorem get?_openSignal (s : SignalId) :
    (w.openSignal f).2.signals.get? s =
      if w.signals.next = s then some (w.newSignal f) else w.signals.get? s := by
  rw [(w.attaches_openSignal f).signals]
  exact Registry.get?_add _ _ _

theorem operands_newSignal :
    (w.newSignal f).circuit.leaves.flatMap (fun t ↦ t.term.operands) =
      f.terms.flatMap Term.operands := by
  rw [newSignal, Circuit.leaves_build, List.flatMap_map]
  rfl

theorem timers_newSignal : (w.newSignal f).circuit.leaves.filterMap LiveTerm.timer = [] := by
  rw [newSignal, Circuit.leaves_build, List.filterMap_map]
  exact List.filterMap_eq_nil_iff.2 fun _ _ ↦ rfl

variable {w f}

/-- The only holder of a new signal takes it away. -/
theorem letGo_openSignal :
    (w.openSignal f).2.letGo w.signals.next =
      (w.openSignal f).2.without w.signals.next (w.newSignal f) := by
  have hget : (w.openSignal f).2.signals.get? w.signals.next = some (w.newSignal f) := by
    rw [get?_openSignal, if_pos rfl]
  rw [letGo, hget]
  show (if (1 : Nat) ≤ 1 then _ else _) = _
  rw [if_pos (Nat.le_refl 1), dispose_eq hget]

/-- **To look at a predicate and let go of it again has no bearing on any other signal.** -/
theorem spares_letGo_openSignal (hw : w.signals.Tight) (f : Formula (Term CellId)) :
    Spares w ((w.openSignal f).2.letGo w.signals.next) := by
  rw [letGo_openSignal]
  have hattach := w.attaches_openSignal f
  have hcells : SparesCells (w.openSignal f).2
    ((w.openSignal f).2.without w.signals.next (w.newSignal f)) := sparesCells_without
  refine ⟨⟨fun ht ↦ hcells.tight (hattach.tight ht), fun c hc ↦ ?_, fun s hs c ↦ ?_,
    fun c o ho hl ↦ ?_⟩, ⟨?_, fun s sig' hsig' ↦ ?_⟩, .of_eq ?_ fun s hs ↦ ?_, hattach.tickets,
    fun h ↦ ⟨hattach.published.trans h, hattach.globals⟩⟩
  · obtain ⟨hcell, hpayload⟩ := hcells.payload c ((hattach.hasCell c).2 hc)
    exact ⟨hcell, hpayload.trans (hattach.payload c)⟩
  · obtain ⟨added, heq, hserves, -⟩ := hattach.observers c
    rw [hcells.observers s hs c, heq, List.filter_append,
      filter_serves_eq_nil (ne_of_lives_without hs) hserves, List.append_nil]
    rfl
  · -- What was attached has been swept away again.
    obtain ⟨added, heq, hserves, hplaces⟩ := hattach.observers c
    rw [observers_without, operands_newSignal, heq] at ho
    have hold : o ∈ added → o ∈ w.observers c := fun hadded ↦ by
      split at ho
      · have hnot := (List.mem_filter.1 ho).2
        rw [hserves o hadded] at hnot
        cases hnot
      · rename_i hread
        rw [reading_eq_nil_iff.2 hread, ite_self] at hplaces
        rw [filterMap_place?_eq_nil hserves hplaces] at hadded
        cases hadded
    have hmem : o ∈ w.observers c ++ added := by
      split at ho
      · exact List.mem_of_mem_filter ho
      · exact ho
    exact (List.mem_append.1 hmem).elim id hold
  · show w.signals.next ≤ (w.openSignal f).2.signals.next
    rw [hattach.signals]
    exact Nat.le_succ _
  · obtain ⟨hne, hget⟩ := get?_without.1 hsig'
    rw [get?_openSignal, if_neg hne.symm] at hget
    exact ⟨sig', hget, rfl, .refl _⟩
  · rw [clock_without, timers_newSignal, hattach.clock]
    simp [withSignal]
  · obtain ⟨sig, hsig⟩ := Option.isSome_iff_exists.1 hs
    have hne : w.signals.next ≠ s := Ne.symm (Nat.ne_of_lt (hw s sig hsig))
    refine Option.isSome_iff_exists.2 ⟨sig, get?_without.2 ⟨hne.symm, ?_⟩⟩
    rw [get?_openSignal, if_neg hne]
    exact hsig

end OpenSignal

/-- Evaluating a predicate has no bearing on any signal. -/
theorem spares_evaluate (hw : w.signals.Tight) (locals : ValueMap) (p : Predicate CellId) :
    Spares w (w.evaluate locals p).2 := by
  rw [evaluate, observePredicate]
  cases w.bind locals p with
  | error e => exact .refl w
  | ok f => exact spares_letGo_openSignal hw f

end World

end LiveTemplate.Engine
