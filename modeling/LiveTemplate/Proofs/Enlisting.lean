import LiveTemplate.Proofs.Moments
import LiveTemplate.Proofs.Registrations

/-!
# In the order in which they came

Observers of a cell come at the end and go from anywhere, and nobody comes twice: whoever comes gets
a ticket that was never given out before. So from one state of a run to a later one, of the
observers of a cell some have gone, the others stand as they stood, and behind them stand those who
have come (`Run.enlists`). It follows that the observers of a cell always stand in the order of
their tickets, which is the order in which they came (`World.Ranked`, `Run.ranked`), and that one
who has gone never comes back (`Enlists.stays_gone`).

A teardown that fires takes away all that it holds (`observes_fire`), and to fire it is no more than
to end its subscriptions one after the other (`exists_history_fire`).
-/

namespace LiveTemplate.Engine

open World

variable {η : Type}

namespace World

/-- From one world to a later one, of the observers of each cell some have gone, and behind the
others are those who have come since. -/
structure Enlists (w w' : World η) : Prop where
  tickets : w.nextTicket ≤ w'.nextTicket
  observers : ∀ c, ∃ kept added, w'.observers c = kept ++ added ∧
    kept.Sublist (w.observers c) ∧ (added.map Observer.ticket).Pairwise (· < ·) ∧
    ∀ o ∈ added, w.nextTicket ≤ o.ticket ∧ o.ticket < w'.nextTicket

/-- The observers of each cell stand in the order of their tickets, all of which have been given
out. -/
structure Ranked (w : World η) : Prop where
  given : ∀ c, ∀ o ∈ w.observers c, o.ticket < w.nextTicket
  ascending : ∀ c, ((w.observers c).map Observer.ticket).Pairwise (· < ·)

variable {w w' w'' : World η} {c : CellId} {ticket : Ticket}

theorem observes_iff : w.observes c ticket = true ↔ ∃ o ∈ w.observers c, o.ticket = ticket := by
  simp [observes]

theorem observes_eq_false :
    w.observes c ticket = false ↔ ∀ o ∈ w.observers c, o.ticket ≠ ticket := by
  simp [observes]

/-! ### Coming and going -/

theorem Enlists.of_sublist (htickets : w.nextTicket ≤ w'.nextTicket)
    (h : ∀ c, (w'.observers c).Sublist (w.observers c)) : Enlists w w' where
  tickets := htickets
  observers := fun c ↦
    ⟨w'.observers c, [], (List.append_nil _).symm, h c, .nil, fun _ ho ↦ absurd ho List.not_mem_nil⟩

theorem Enlists.refl (w : World η) : Enlists w w := .of_sublist (Nat.le_refl _) fun _ ↦ .refl _

theorem Enlists.of_undisturbed {works : List (Work η)} (h : Undisturbed works w w') :
    Enlists w w' :=
  .of_sublist h.tickets fun c ↦ by rw [h.observers]

theorem Enlists.trans (h : Enlists w w') (h' : Enlists w' w'') : Enlists w w'' where
  tickets := Nat.le_trans h.tickets h'.tickets
  observers := fun c ↦ by
    obtain ⟨kept, added, heq, hkept, hadded, hgiven⟩ := h.observers c
    obtain ⟨kept', added', heq', hkept', hadded', hgiven'⟩ := h'.observers c
    -- Of those kept, some were there before and the others have come on the way.
    rw [heq] at hkept'
    obtain ⟨old, new, rfl, hold, hnew⟩ := List.sublist_append_iff.1 hkept'
    refine ⟨old, new ++ added', ?_, hold.trans hkept, ?_, fun o ho ↦ ?_⟩
    · rw [heq', List.append_assoc]
    · rw [List.map_append, List.pairwise_append]
      refine ⟨hadded.sublist (hnew.map _), hadded', fun t ht t' ht' ↦ ?_⟩
      obtain ⟨o, ho, rfl⟩ := List.mem_map.1 ht
      obtain ⟨o', ho', rfl⟩ := List.mem_map.1 ht'
      exact Nat.lt_of_lt_of_le (hgiven o (hnew.subset ho)).2 (hgiven' o' ho').1
    · rcases List.mem_append.1 ho with ho | ho
      · obtain ⟨hfrom, hto⟩ := hgiven o (hnew.subset ho)
        exact ⟨hfrom, Nat.lt_of_lt_of_le hto h'.tickets⟩
      · obtain ⟨hfrom, hto⟩ := hgiven' o ho
        exact ⟨Nat.le_trans h.tickets hfrom, hto⟩

/-- An observer was there before, or its ticket has been given out since. -/
theorem Enlists.mem (h : Enlists w w') {o : Observer η} (ho : o ∈ w'.observers c) :
    o ∈ w.observers c ∨ w.nextTicket ≤ o.ticket := by
  obtain ⟨kept, added, heq, hkept, -, hgiven⟩ := h.observers c
  rw [heq] at ho
  rcases List.mem_append.1 ho with ho | ho
  · exact .inl (hkept.subset ho)
  · exact .inr (hgiven o ho).1

/-- **Who has gone does not come back.** -/
theorem Enlists.stays_gone (h : Enlists w w') (hgiven : ticket < w.nextTicket)
    (hgone : w.observes c ticket = false) : w'.observes c ticket = false := by
  refine observes_eq_false.2 fun o ho ↦ ?_
  rcases h.mem ho with hbefore | hsince
  · exact observes_eq_false.1 hgone o hbefore
  · exact Nat.ne_of_gt (Nat.lt_of_lt_of_le hgiven hsince)

theorem Ranked.enlists (hw : w.Ranked) (h : Enlists w w') : w'.Ranked where
  given := fun c o ho ↦ by
    obtain ⟨kept, added, heq, hkept, -, hgiven⟩ := h.observers c
    rw [heq] at ho
    rcases List.mem_append.1 ho with ho | ho
    · exact Nat.lt_of_lt_of_le (hw.given c o (hkept.subset ho)) h.tickets
    · exact (hgiven o ho).2
  ascending := fun c ↦ by
    obtain ⟨kept, added, heq, hkept, hadded, hgiven⟩ := h.observers c
    rw [heq, List.map_append, List.pairwise_append]
    refine ⟨(hw.ascending c).sublist (hkept.map _), hadded, fun t ht t' ht' ↦ ?_⟩
    obtain ⟨o, ho, rfl⟩ := List.mem_map.1 ht
    obtain ⟨o', ho', rfl⟩ := List.mem_map.1 ht'
    exact Nat.lt_of_lt_of_le (hw.given c o (hkept.subset ho)) (hgiven o' ho').1

/-- Where nobody observes anything, all stand in order. -/
theorem ranked_of_bare (h : ∀ c, w.observers c = []) : w.Ranked where
  given := fun c o ho ↦ by
    rw [h] at ho
    exact absurd ho List.not_mem_nil
  ascending := fun c ↦ by
    rw [h]
    exact .nil

/-! ### Stopping -/

theorem observers_cancel_sublist (w : World η) (sub : Subscription) (c : CellId) :
    ((w.cancel sub).observers c).Sublist (w.observers c) := by
  cases sub with
  | ofCell c' ticket =>
    rw [observers_cancel]
    split
    · exact List.filter_sublist
    · exact .refl _
  | _ => exact .refl _

theorem observers_cancelAll_sublist (w : World η) (subs : List Subscription) (c : CellId) :
    ((w.cancelAll subs).observers c).Sublist (w.observers c) := by
  induction subs generalizing w with
  | nil => exact .refl _
  | cons sub subs ih => exact (ih (w.cancel sub)).trans (w.observers_cancel_sublist sub c)

theorem observes_of_sublist (h : (w'.observers c).Sublist (w.observers c))
    (hgone : w.observes c ticket = false) : w'.observes c ticket = false :=
  observes_eq_false.2 fun o ho ↦ observes_eq_false.1 hgone o (h.subset ho)

theorem observes_cancel (w : World η) (c : CellId) (ticket : Ticket) :
    (w.cancel (.ofCell c ticket)).observes c ticket = false := by
  refine observes_eq_false.2 fun o ho ↦ ?_
  rw [observers_cancel, if_pos rfl] at ho
  exact bne_iff_ne.1 (List.mem_filter.1 ho).2

theorem observes_cancelAll {subs : List Subscription} (h : .ofCell c ticket ∈ subs) :
    (w.cancelAll subs).observes c ticket = false := by
  induction subs generalizing w with
  | nil => exact absurd h List.not_mem_nil
  | cons sub subs ih =>
    rcases List.mem_cons.1 h with rfl | h
    · exact observes_of_sublist (observers_cancelAll_sublist _ subs c) (observes_cancel w c ticket)
    · exact ih h

theorem payload_observe (w : World η) (c : CellId) (role : Role η) (c' : CellId) :
    (w.observe c role).2.payload c' = w.payload c' := by
  have hw : (w.observe c role).2.cells = w.cells.modify c fun cell ↦
      { cell with observers := cell.observers ++ [⟨w.nextTicket, role⟩] } := rfl
  exact payload_modify hw (fun _ ↦ rfl) c'

/-- To stop observing changes no payload. -/
theorem payload_cancelAll (w : World η) (subs : List Subscription) (c : CellId) :
    (w.cancelAll subs).payload c = w.payload c := by
  induction subs generalizing w with
  | nil => rfl
  | cons sub subs ih =>
    refine (ih (w.cancel sub)).trans ?_
    cases sub with
    | ofCell c' ticket =>
      have hw : (w.cancel (.ofCell c' ticket)).cells = w.cells.modify c' fun cell ↦
          { cell with observers := cell.observers.filter fun o ↦ o.ticket != ticket } := rfl
      exact payload_modify hw (fun _ ↦ rfl) c
    | _ => rfl

/-- **Who is held by a teardown is gone once it has fired.** -/
theorem observes_fire {t : Teardown} (h : .ofCell c ticket ∈ t.held) :
    (t.fire w).2.observes c ticket = false :=
  observes_cancelAll h

/-- A subscription that can be ended can still be ended after others. -/
theorem permits_cancel_cancel {sub sub' : Subscription} (h : w.Permits (.cancel sub')) :
    (w.cancel sub).Permits (.cancel sub') := by
  cases sub' with
  | ofCell c ticket => exact fun o ho ↦ h o ((w.observers_cancel_sublist sub c).subset ho)
  | _ => trivial

/-! ### Turns and deeds -/

theorem enlists_observe (w : World η) (c : CellId) (role : Role η) :
    Enlists w (w.observe c role).2 where
  tickets := Nat.le_succ _
  observers := fun c' ↦ by
    rw [observers_observe]
    split
    · refine ⟨w.observers c', [⟨w.nextTicket, role⟩], rfl, .refl _, ?_, fun o ho ↦ ?_⟩
      · exact List.pairwise_singleton _ _
      · rw [List.mem_singleton.1 ho]
        exact ⟨Nat.le_refl _, Nat.lt_succ_self _⟩
    · exact ⟨_, [], (List.append_nil _).symm, .refl _, .nil, fun _ ho ↦ absurd ho List.not_mem_nil⟩

theorem enlists_observeTerms (w : World η) (s : SignalId) (place : Nat) (ts : List (Term CellId)) :
    Enlists w (w.observeTerms s place ts) := by
  have hoperands : ∀ (cs : List CellId) (place : Nat) (w : World η),
      Enlists w (cs.foldl (fun w c ↦ (w.observe c (.term s place)).2) w) := by
    intro cs place
    induction cs with
    | nil => exact .refl
    | cons c cs ih => exact fun w ↦ (w.enlists_observe c _).trans (ih _)
  induction ts generalizing w place with
  | nil => exact .refl w
  | cons t ts ih => exact (hoperands t.operands place w).trans (ih _ _)

theorem enlists_openSignal (w : World η) (f : Formula (Term CellId)) :
    Enlists w (w.openSignal f).2 := by
  have hadded : Enlists w (w.withSignal f) := .of_sublist (Nat.le_refl _) fun _ ↦ .refl _
  exact hadded.trans (enlists_observeTerms _ _ 0 f.terms)

theorem enlists_cancel (w : World η) (c : CellId) (ticket : Ticket) :
    Enlists w (w.cancel (.ofCell c ticket)) :=
  .of_sublist (Nat.le_refl _) fun c' ↦ w.observers_cancel_sublist _ c'

theorem enlists_letGo (ho : w.Orderly) (s : SignalId) : Enlists w (w.letGo s) := by
  refine .of_sublist ((spares_letGo ho s).tickets) fun c ↦ ?_
  by_cases hs : w.Lives s
  · rw [observers_letGo ho hs]
    split
    · exact .refl _
    · exact List.filter_sublist
  · have hnone : w.signals.get? s = none := Option.not_isSome_iff_eq_none.1 hs
    rw [letGo, hnone]

/-- **A turn lets observers come and go** in no other way. -/
theorem enlists_turn (ho : w.Orderly) (x : Work η) : Enlists w (w.turn x).world := by
  by_cases hx : ∃ s, x = .letGo s
  · obtain ⟨s, rfl⟩ := hx
    exact enlists_letGo ho s
  · exact .of_undisturbed (undisturbed_turn ho fun s heq ↦ hx ⟨s, heq⟩)

/-- **A deed lets observers come and go** in no other way. -/
theorem enlists_after (ho : w.Orderly) (d : Deed η) : Enlists w (w.after d).1 := by
  by_cases hd : d.aloof = true
  · exact .of_undisturbed (undisturbed_after ho hd)
  · match d, hd with
    | .observe c role, _ => exact enlists_observe w c role
    | .cancel (.ofCell c ticket), _ => exact enlists_cancel w c ticket
    | .openSignal f, _ => exact enlists_openSignal w f
    | .hold s, _ => exact .of_sublist (Nat.le_refl _) fun _ ↦ .refl _
    | .letGo s, _ => exact enlists_letGo ho s

end World

/-! ### Runs -/

namespace Activity

variable {may : Activity η → Deed η → Prop} {a b : Activity η} {es : List Happening}

theorem Step.enlists (h : Step may a es b) (ho : a.world.Orderly) : Enlists a.world b.world := by
  cases h with
  | turn w x stack => exact enlists_turn ho x
  | deed w d stack => exact enlists_after ho d

/-- **Whatever goes on**, observers come at the end, and none comes back. -/
theorem Run.enlists (h : Run may a es b) (ho : a.world.Orderly) : Enlists a.world b.world := by
  induction h with
  | refl => exact .refl _
  | tail run step ih => exact ih.trans (step.enlists (run.orderly ho))

theorem Run.ranked (h : Run may a es b) (ho : a.world.Orderly) (ha : a.world.Ranked) :
    b.world.Ranked :=
  ha.enlists (h.enlists ho)

/-! ### Teardowns -/

/-- To end several subscriptions is to end one after the other. -/
theorem exists_history_cancelAll (hmay : ∀ a sub, may a (.cancel sub)) (subs : List Subscription)
    (w : World η) (stack : List (Work η)) (h : ∀ sub ∈ subs, w.Permits (.cancel sub)) :
    ∃ ms, History may ⟨w, stack⟩ ms ⟨w.cancelAll subs, stack⟩ := by
  induction subs generalizing w with
  | nil => exact ⟨[], .refl _⟩
  | cons sub subs ih =>
    obtain ⟨ms, hms⟩ := ih (w.cancel sub) fun sub' hsub' ↦
      permits_cancel_cancel (h sub' (List.mem_cons_of_mem _ hsub'))
    exact ⟨_, .cons (m := .deed w (.cancel sub) stack) ⟨h sub List.mem_cons_self, hmay _ sub⟩ hms⟩

/-- **To fire a teardown is to end what it holds**, one after the other. -/
theorem exists_history_fire (hmay : ∀ a sub, may a (.cancel sub)) (t : Teardown)
    (h : ∀ sub ∈ t.held, a.world.Permits (.cancel sub)) :
    ∃ ms, History may a ms ⟨(t.fire a.world).2, a.stack⟩ :=
  exists_history_cancelAll hmay t.held a.world a.stack h

end Activity

end LiveTemplate.Engine
