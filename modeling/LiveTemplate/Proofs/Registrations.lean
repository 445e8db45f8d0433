import LiveTemplate.Proofs.Dealings
import LiveTemplate.Proofs.Piecemeal

/-!
# Registrations

What is in hands is in balance with the world, however it is dealt with (`Usage.even_of_reaches`):
the observers of a cell are those of the subscriptions to it and those of the terms of signals that
live (`World.Registered`), a signal is held by each handle to it and by each piece of work that is
to let go of it, and it stands for the predicate that was observed (`Balanced`). Each sort of
dealing keeps the balance: one lemma for each says how it changes what is held.

So the observers of a cell can be counted by what is in hands (`Reaches.length_observers`). As long
as there is no work that is to let go of a signal, a signal lives exactly if there is a handle to
it; and then it has an observer on a cell for each operand that the cell is.
-/

namespace LiveTemplate.Engine

variable {η : Type}

/-! ### Who observes -/

namespace World

/-- The observers of cells are those of some subscriptions, and those of the terms of signals that
live. -/
structure Registered (subs : List Subscription) (w : World η) : Prop extends Ticketed w where
  direct : ∀ c, (((w.observers c).filter Observer.direct).map Observer.ticket).Perm
    (Subscription.tickets c subs)
  served : ∀ c, ∀ o ∈ w.observers c, ∀ s, o.serves s = true → w.Lives s

variable {w w' : World η} {c : CellId} {subs subs' : List Subscription}

theorem registered_start : Registered [] (start : World η) where
  given := fun _ _ h ↦ absurd h List.not_mem_nil
  nodup := fun _ ↦ List.nodup_nil
  direct := fun _ ↦ .nil
  served := fun _ _ h ↦ absurd h List.not_mem_nil

theorem Registered.perm (h : Registered subs w) (hperm : subs.Perm subs') : Registered subs' w where
  toTicketed := h.toTicketed
  direct := fun c ↦ (h.direct c).trans (hperm.filterMap _)
  served := h.served

theorem Registered.undisturbed {works : List (Work η)} (h : Registered subs w)
    (hw : Undisturbed works w w') : Registered subs w' where
  toTicketed := h.of_sublist hw.tickets fun c ↦ by rw [hw.observers]
  direct := fun c ↦ by
    rw [hw.observers]
    exact h.direct c
  served := fun c o ho s hserves ↦ by
    rw [hw.observers] at ho
    exact (hw.lives s).2 (h.served c o ho s hserves)

/-- A subscription that is not to a cell makes no difference. -/
theorem Registered.cons {sub : Subscription} (h : Registered subs w)
    (hsub : ∀ c, sub.ticket? c = none) : Registered (sub :: subs) w where
  toTicketed := h.toTicketed
  direct := fun c ↦ by
    rw [Subscription.tickets_cons (hsub c)]
    exact h.direct c
  served := h.served

theorem Registered.of_cons {sub : Subscription} (h : Registered (sub :: subs) w)
    (hsub : ∀ c, sub.ticket? c = none) : Registered subs w where
  toTicketed := h.toTicketed
  direct := fun c ↦ by
    have hdirect := h.direct c
    rwa [Subscription.tickets_cons (hsub c)] at hdirect
  served := h.served

/-- **To observe a cell directly** is to have one more subscription. -/
theorem Registered.observe (h : Registered subs w) (hc : w.HasCell c) {role : Role η}
    (hrole : ∀ s place, role ≠ .term s place) :
    Registered (.ofCell c w.nextTicket :: subs) (w.observe c role).2 where
  toTicketed := h.toTicketed.observe c role
  direct := fun c' ↦ by
    have hdirect : (⟨w.nextTicket, role⟩ : Observer η).direct = true := by
      cases role with
      | term s place => exact absurd rfl (hrole s place)
      | _ => rfl
    rw [observers_observe]
    by_cases hc' : c' = c
    · subst hc'
      rw [if_pos ⟨rfl, hc⟩, List.filter_append, List.map_append, List.filter_cons_of_pos hdirect,
        Subscription.tickets_ofCell]
      exact List.perm_append_comm.trans (.cons _ (h.direct c'))
    · rw [if_neg fun hboth ↦ hc' hboth.1, Subscription.tickets_ofCell_of_ne (Ne.symm hc')]
      exact h.direct c'
  served := fun c' o ho s hserves ↦ by
    rw [observers_observe] at ho
    split at ho
    · rcases List.mem_append.1 ho with ho | ho
      · exact h.served c' o ho s hserves
      · obtain ⟨place, hterm⟩ := Observer.serves_iff.1 hserves
        rw [List.mem_singleton.1 ho] at hterm
        exact absurd hterm (hrole s place)
    · exact h.served c' o ho s hserves

/-- The ticket of a subscription is that of an observer which is there, and looks at no term. -/
theorem Registered.permits {sub : Subscription} (h : Registered (sub :: subs) w) :
    w.Permits (.cancel sub) := by
  cases sub with
  | ofCell c ticket =>
    intro o ho hticket hlooks
    have hmem : ticket ∈ ((w.observers c).filter Observer.direct).map Observer.ticket := by
      rw [(h.direct c).mem_iff, Subscription.tickets_ofCell]
      exact List.mem_cons_self
    obtain ⟨o', ho', hticket'⟩ := List.mem_map.1 hmem
    obtain ⟨ho', hdirect⟩ := List.mem_filter.1 ho'
    have heq := List.inj_on_of_nodup_map (h.nodup c) ho ho' (hticket.trans hticket'.symm)
    rw [heq] at hlooks
    exact Bool.eq_false_iff.1 (Observer.direct_eq_false.2 hlooks) hdirect
  | _ => trivial

/-- **To end a subscription** is to have one less. -/
theorem Registered.cancel (ho : w.Orderly) {sub : Subscription} (h : Registered (sub :: subs) w) :
    Registered subs (w.cancel sub) := by
  cases sub with
  | ofCell c ticket =>
    refine ⟨h.of_sublist (Nat.le_refl _) fun c' ↦ ?_, fun c' ↦ ?_, fun c' o ho s hserves ↦ ?_⟩
    · rw [observers_cancel]
      split
      · exact List.filter_sublist
      · exact .refl _
    · rw [observers_cancel]
      split
      · rename_i heq
        subst heq
        have hdirect := h.direct c'
        rw [Subscription.tickets_ofCell] at hdirect
        have hnodup : (((w.observers c').filter Observer.direct).map Observer.ticket).Nodup :=
          (h.nodup c').sublist (List.filter_sublist.map _)
        have herase := hdirect.erase ticket
        rw [List.erase_cons_head, hnodup.erase_eq_filter, List.filter_map] at herase
        rw [List.filter_comm]
        exact herase
      · rename_i hne
        have hdirect := h.direct c'
        rwa [Subscription.tickets_ofCell_of_ne (Ne.symm hne)] at hdirect
    · rw [observers_cancel] at ho
      split at ho
      · exact h.served c' o (List.mem_of_mem_filter ho) s hserves
      · exact h.served c' o ho s hserves
  | none => exact h.of_cons fun _ ↦ rfl
  | ofSignal s ticket =>
    have hundisturbed := undisturbed_after ho (d := .cancel (.ofSignal s ticket)) rfl
    exact (h.of_cons fun _ ↦ rfl).undisturbed hundisturbed
  | ofProblems ticket =>
    have hundisturbed := undisturbed_after ho (d := .cancel (.ofProblems ticket)) rfl
    exact (h.of_cons fun _ ↦ rfl).undisturbed hundisturbed

theorem Registered.openSignal (h : Registered subs w) (f : Formula (Term CellId)) :
    Registered subs (w.openSignal f).2 where
  toTicketed := h.toTicketed.openSignal f
  direct := fun c ↦ by
    obtain ⟨added, heq, hserves, -⟩ := w.observers_openSignal f c
    have hnone : added.filter Observer.direct = [] := List.filter_eq_nil_iff.2 fun o ho ↦ by
      simp [Observer.direct_of_serves (hserves o ho)]
    rw [heq, List.filter_append, hnone, List.append_nil]
    exact h.direct c
  served := fun c o ho s hs ↦ by
    obtain ⟨added, heq, hserves, -⟩ := w.observers_openSignal f c
    rw [lives_openSignal]
    rw [heq] at ho
    rcases List.mem_append.1 ho with ho | ho
    · exact .inl (h.served c o ho s hs)
    · obtain ⟨place, hrole⟩ := Observer.serves_iff.1 hs
      obtain ⟨place', hrole'⟩ := Observer.serves_iff.1 (hserves o ho)
      rw [hrole] at hrole'
      cases hrole'
      exact .inr rfl

/-- **A signal takes its observers along when it goes**, and no others. -/
theorem observers_letGo (ho : w.Orderly) {s : SignalId} (hs : w.Lives s) (c : CellId) :
    (w.letGo s).observers c =
      if (w.letGo s).Lives s then w.observers c
      else (w.observers c).filter fun o ↦ !o.serves s := by
  obtain ⟨sig, hsig⟩ := Option.isSome_iff_exists.1 hs
  by_cases hlast : sig.holders ≤ 1
  · have hgone : ¬(w.letGo s).Lives s := fun hlives ↦ by
      have hmore := ((lives_letGo w s s).1 hlives).2 rfl
      rw [holders_of_get? hsig] at hmore
      exact Nat.not_lt.2 hlast hmore
    have hletGo : w.letGo s = w.without s sig := by
      rw [letGo, hsig, ← dispose_eq hsig]
      exact if_pos hlast
    rw [if_neg hgone, hletGo, observers_without]
    split
    · rfl
    · rename_i hread
      -- A cell that the signal does not read has no observers for it.
      have hplaced := ho.placed s sig hsig c
      rw [reading_eq_nil_iff.2 (by rwa [List.flatMap_map])] at hplaced
      refine (List.filter_eq_self.2 fun o hmem ↦ ?_).symm
      have hnone := List.filterMap_eq_nil_iff.1 hplaced o hmem
      rw [Bool.not_eq_true', Bool.eq_false_iff]
      intro hserves
      obtain ⟨place, hrole⟩ := Observer.serves_iff.1 hserves
      rw [Observer.place?_eq_some.2 hrole] at hnone
      cases hnone
  · have hlives : (w.letGo s).Lives s := (lives_letGo w s s).2 ⟨hs, fun _ ↦ by
      rw [holders_of_get? hsig]
      exact Nat.lt_of_not_le hlast⟩
    have hletGo : w.letGo s = { w with
        signals := w.signals.modify s fun sig ↦ { sig with holders := sig.holders - 1 } } := by
      rw [letGo, hsig]
      exact if_neg hlast
    rw [if_pos hlives, hletGo]
    rfl

theorem Registered.letGo (ho : w.Orderly) (h : Registered subs w) {s : SignalId} (hs : w.Lives s) :
    Registered subs (w.letGo s) where
  toTicketed := h.of_sublist (spares_letGo ho s).tickets fun c ↦ by
    rw [observers_letGo ho hs]
    split
    · exact .refl _
    · exact List.filter_sublist
  direct := fun c ↦ by
    rw [observers_letGo ho hs]
    split
    · exact h.direct c
    · have hdirect : ((w.observers c).filter fun o ↦ !o.serves s).filter Observer.direct =
          (w.observers c).filter Observer.direct := by
        rw [List.filter_filter]
        refine List.filter_congr fun o _ ↦ ?_
        cases hserves : o.serves s with
        | false => simp
        | true => simp [Observer.direct_of_serves hserves]
      rw [hdirect]
      exact h.direct c
  served := fun c o hmem s' hserves ↦ by
    rw [observers_letGo ho hs] at hmem
    rw [lives_letGo]
    split at hmem
    · rename_i hlives
      refine ⟨h.served c o hmem s' hserves, fun heq ↦ ?_⟩
      rw [heq]
      exact ((lives_letGo w s s).1 hlives).2 rfl
    · obtain ⟨hmem, hnot⟩ := List.mem_filter.1 hmem
      refine ⟨h.served c o hmem s' hserves, fun heq ↦ ?_⟩
      rw [heq] at hserves
      simp [hserves] at hnot

end World

/-! ### Balance -/

open Activity World

/-- Subscriptions and handles are in balance with a world at work: its observers are those of the
subscriptions and of the terms of signals, a signal is held by each handle to it and by each piece
of work that is to let go of it, and the streams are the signals that live, and others that have
been. -/
structure Balanced (subs : List Subscription) (streams : List (SignalId × Formula (Term CellId)))
    (handles : List SignalId) (w : World η) (stack : List (Work η)) : Prop where
  orderly : w.Orderly
  registered : w.Registered subs
  holders : ∀ s, w.holders s = handles.count s + stack.countP (Work.letsGo s)
  held : ∀ s, w.Lives s → 0 < w.holders s
  distinct : (streams.map Prod.fst).Nodup
  known : ∀ s, w.Lives s → s ∈ streams.map Prod.fst
  stands : ∀ stream ∈ streams, StandsFor stream.2 stream.1 (⟨w, stack⟩ : Activity η)

namespace Balanced

variable {subs subs' : List Subscription} {streams : List (SignalId × Formula (Term CellId))}
  {handles : List SignalId} {w w' : World η} {stack stack' : List (Work η)} {es : List Happening}
  {s : SignalId} {c : CellId} {sub : Subscription}

theorem start : Balanced [] [] [] (World.start : World η) [] where
  orderly := orderly_start
  registered := registered_start
  holders := fun _ ↦ rfl
  held := fun _ h ↦ nomatch h
  distinct := List.nodup_nil
  known := fun _ h ↦ nomatch h
  stands := fun _ h ↦ absurd h List.not_mem_nil

theorem perm (h : Balanced subs streams handles w stack) (hperm : subs.Perm subs') :
    Balanced subs' streams handles w stack :=
  { h with registered := h.registered.perm hperm }

/-- What remains to be shown of a change: who observes, and who holds what. -/
theorem change (h : Balanced subs streams handles w stack)
    (hchange : Change anything ⟨w, stack⟩ es ⟨w', stack'⟩) (hregistered : w'.Registered subs')
    {handles' : List SignalId}
    (hholders : ∀ s, w'.holders s = handles'.count s + stack'.countP (Work.letsGo s))
    (hlives : ∀ s, w'.Lives s → w.Lives s ∧ 0 < w'.holders s) :
    Balanced subs' streams handles' w' stack' where
  orderly := orderly_change h.orderly hchange
  registered := hregistered
  holders := hholders
  held := fun s hs ↦ (hlives s hs).2
  distinct := h.distinct
  known := fun s hs ↦ h.known s (hlives s hs).1
  stands := fun stream hmem ↦ standsFor_change (h.stands stream hmem) hchange

/-- What leaves observers alone keeps the balance. -/
theorem undisturbed (h : Balanced subs streams handles w stack) {works rest : List (Work η)}
    (hchange : Change anything ⟨w, stack⟩ es ⟨w', works ++ rest⟩)
    (hw : Undisturbed works w w')
    (hrest : ∀ s, rest.countP (Work.letsGo s) = stack.countP (Work.letsGo s)) :
    Balanced subs streams handles w' (works ++ rest) := by
  refine h.change hchange (h.registered.undisturbed hw) (fun s ↦ ?_) fun s hs ↦ ?_
  · rw [hw.holders, h.holders, List.countP_append, hrest]
    omega
  · have hs := (hw.lives s).1 hs
    rw [hw.holders]
    exact ⟨hs, Nat.lt_of_lt_of_le (h.held s hs) (Nat.le_add_right _ _)⟩

/-- A deed that spares the signals, after which they have the same holders. -/
theorem deed (h : Balanced subs streams handles w stack) (d : Deed η) (hpermits : w.Permits d)
    (hworks : (w.after d).2 = []) (hregistered : (w.after d).1.Registered subs')
    (hsignals : (w.after d).1.signals = w.signals) :
    Balanced subs' streams handles (w.after d).1 stack := by
  have hchange : Change anything ⟨w, stack⟩ _ ⟨(w.after d).1, (w.after d).2 ++ stack⟩ :=
    change_deed h.orderly hpermits trivial
  rw [hworks, List.nil_append] at hchange
  refine h.change hchange hregistered (fun s ↦ ?_) fun s hs ↦ ?_
  · rw [World.holders, hsignals]
    exact h.holders s
  · rw [Lives, hsignals] at hs
    rw [World.holders, hsignals]
    exact ⟨hs, h.held s hs⟩

theorem observe (h : Balanced subs streams handles w stack) (hc : w.HasCell c) (role : Role η)
    (hrole : ∀ s place, role ≠ .term s place) :
    Balanced (.ofCell c w.nextTicket :: subs) streams handles (w.observe c role).2 stack :=
  h.deed (.observe c role) hrole rfl (h.registered.observe hc hrole) rfl

theorem aloof (h : Balanced subs streams handles w stack) {d : Deed η} (hd : d.aloof = true)
    (hpermits : w.Permits d) :
    Balanced subs streams handles (w.after d).1 ((w.after d).2 ++ stack) :=
  h.undisturbed (change_deed h.orderly hpermits trivial) (undisturbed_after h.orderly hd)
    fun _ ↦ rfl

/-- A subscription that is not to a cell makes no difference. -/
theorem cons (h : Balanced subs streams handles w stack) (hsub : ∀ c, sub.ticket? c = none) :
    Balanced (sub :: subs) streams handles w stack :=
  { h with registered := h.registered.cons hsub }

theorem of_cons (h : Balanced (sub :: subs) streams handles w stack)
    (hsub : ∀ c, sub.ticket? c = none) : Balanced subs streams handles w stack :=
  { h with registered := h.registered.of_cons hsub }

theorem cancel (h : Balanced (sub :: subs) streams handles w stack) :
    Balanced subs streams handles (w.cancel sub) stack := by
  cases sub with
  | ofCell c ticket =>
    exact h.deed (.cancel (.ofCell c ticket)) h.registered.permits rfl
      (h.registered.cancel h.orderly) rfl
  | none => exact h.of_cons fun _ ↦ rfl
  | ofSignal s ticket =>
    exact (h.of_cons fun _ ↦ rfl).aloof (d := .cancel (.ofSignal s ticket)) rfl trivial
  | ofProblems ticket =>
    exact (h.of_cons fun _ ↦ rfl).aloof (d := .cancel (.ofProblems ticket)) rfl trivial

theorem cancelAll {rest : List Subscription}
    (h : Balanced (subs ++ rest) streams handles w stack) :
    Balanced rest streams handles (w.cancelAll subs) stack := by
  induction subs generalizing w with
  | nil => exact h
  | cons sub subs ih => exact ih h.cancel

/-- **To observe a predicate** is to have one more stream, and a handle to it. -/
theorem openSignal (h : Balanced subs streams handles w stack) {f : Formula (Term CellId)}
    (hf : ∀ t ∈ f.terms, ∀ c ∈ t.operands, w.HasCell c) :
    Balanced subs (streams ++ [(w.signals.next, f)]) (w.signals.next :: handles)
      (w.openSignal f).2 stack := by
  have hchange : Change anything ⟨w, stack⟩ [] ⟨(w.openSignal f).2, stack⟩ := .openSignal hf
  have hnew : w.signals.next ∉ streams.map Prod.fst := fun hmem ↦ by
    obtain ⟨stream, hstream, heq⟩ := List.mem_map.1 hmem
    have hlt := (h.stands stream hstream).given
    rw [heq] at hlt
    exact absurd hlt (Nat.lt_irrefl _)
  refine ⟨orderly_change h.orderly hchange, h.registered.openSignal f, fun s ↦ ?_, fun s hs ↦ ?_,
    ?_, fun s hs ↦ ?_, fun stream hmem ↦ ?_⟩
  · rw [holders_openSignal h.orderly, h.holders, List.count_cons]
    simp only [beq_iff_eq, eq_comm (a := w.signals.next)]
    omega
  · rw [holders_openSignal h.orderly]
    rcases (lives_openSignal f s).1 hs with hs | rfl
    · exact Nat.lt_of_lt_of_le (h.held s hs) (Nat.le_add_right _ _)
    · rw [if_pos rfl]
      exact Nat.succ_pos _
  · rw [List.map_append, List.nodup_append]
    refine ⟨h.distinct, List.nodup_singleton _, fun s hs s' hs' heq ↦ hnew ?_⟩
    have hnext : s' = w.signals.next := List.mem_singleton.1 hs'
    rwa [← hnext, ← heq]
  · rw [List.map_append, List.mem_append]
    exact ((lives_openSignal f s).1 hs).imp (h.known s) List.mem_singleton.2
  · rcases List.mem_append.1 hmem with hmem | hmem
    · exact standsFor_change (h.stands stream hmem) hchange
    · rw [List.mem_singleton.1 hmem]
      exact standsFor_openSignal f w stack

theorem lives (h : Balanced subs streams handles w stack) (hs : s ∈ handles) : w.Lives s := by
  refine lives_of_holders ?_
  rw [h.holders]
  exact Nat.lt_of_lt_of_le (List.count_pos_iff.2 hs) (Nat.le_add_right _ _)

theorem hold (h : Balanced subs streams handles w stack) (hs : s ∈ handles) :
    Balanced subs streams (s :: handles) (w.hold s) stack := by
  have hheld := undisturbed_hold (h.lives hs)
  have hchange : Change anything ⟨w, stack⟩ _ ⟨w.hold s, stack⟩ :=
    change_deed h.orderly (d := .hold s) trivial trivial
  refine h.change hchange (h.registered.undisturbed hheld) (fun s' ↦ ?_) fun s' hs' ↦ ?_
  · rw [hheld.holders, h.holders, countP_letGo, List.count_cons]
    simp only [beq_iff_eq, eq_comm (a := s)]
    omega
  · have hs' := (hheld.lives s').1 hs'
    rw [hheld.holders]
    exact ⟨hs', Nat.lt_of_lt_of_le (h.held s' hs') (Nat.le_add_right _ _)⟩

/-- To let go of a signal that lives keeps the balance, if it takes one of its holders away. -/
theorem change_letGo (h : Balanced subs streams handles w stack) (hs : w.Lives s)
    (hchange : Change anything ⟨w, stack⟩ es ⟨w.letGo s, stack'⟩) {handles' : List SignalId}
    (hcount : ∀ s', handles'.count s' + stack'.countP (Work.letsGo s') =
      handles.count s' + stack.countP (Work.letsGo s') - if s' = s then 1 else 0) :
    Balanced subs streams handles' (w.letGo s) stack' := by
  refine h.change hchange (h.registered.letGo h.orderly hs) (fun s' ↦ ?_) fun s' hs' ↦ ?_
  · rw [holders_letGo, h.holders, hcount]
  · obtain ⟨hlives, hmore⟩ := (lives_letGo w s' s).1 hs'
    refine ⟨hlives, ?_⟩
    have hpos := h.held s' hlives
    rw [holders_letGo]
    split
    · rename_i heq
      exact Nat.sub_pos_of_lt (hmore heq)
    · exact hpos

/-- **To drop a handle** is to have one less. -/
theorem drop (h : Balanced subs streams handles w stack) (hs : s ∈ handles) :
    Balanced subs streams (handles.erase s) (w.letGo s) stack := by
  have hchange : Change anything ⟨w, stack⟩ _ ⟨w.letGo s, stack⟩ :=
    change_deed h.orderly (d := .letGo s) trivial trivial
  refine h.change_letGo (h.lives hs) hchange fun s' ↦ ?_
  have hpos := List.count_pos_iff.2 hs
  rw [List.count_erase]
  by_cases heq : s' = s
  · subst heq
    simp only [beq_self_eq_true, if_true]
    omega
  · simp [heq, Ne.symm heq]

/-- **Any turn of work keeps the balance.** -/
theorem turn {x : Work η} (h : Balanced subs streams handles w (x :: stack)) :
    Balanced subs streams handles (w.turn x).world ((w.turn x).next ++ stack) := by
  have hchange : Change anything ⟨w, x :: stack⟩ _
      ⟨(w.turn x).world, (w.turn x).next ++ stack⟩ := change_turn h.orderly x stack
  by_cases hx : ∃ s, x = .letGo s
  · obtain ⟨s, rfl⟩ := hx
    have hholders := h.holders s
    rw [← List.singleton_append, List.countP_append, countP_letGo, if_pos rfl] at hholders
    refine h.change_letGo (lives_of_holders (by omega)) hchange fun s' ↦ ?_
    show _ + List.countP _ ([] ++ stack) = _
    rw [List.nil_append, ← List.singleton_append, List.countP_append, countP_letGo]
    omega
  · refine h.undisturbed hchange (undisturbed_turn h.orderly fun s heq ↦ hx ⟨s, heq⟩) fun s ↦ ?_
    rw [List.countP_cons_of_neg]
    cases x with
    | letGo s' => exact absurd ⟨s', rfl⟩ hx
    | _ => exact Bool.false_ne_true

/-- To evaluate a predicate keeps the balance. -/
theorem evaluate (h : Balanced subs streams handles w stack) (locals : ValueMap)
    (p : Predicate CellId) : Balanced subs streams handles (w.evaluate locals p).2 stack := by
  have hspares := spares_evaluate h.orderly.signals locals p
  have hnone : ∀ x ∈ ([] : List (Work η)), x.idle ∧ ¬x.drives := fun _ hx ↦
    absurd hx List.not_mem_nil
  have hchange : Change anything ⟨w, stack⟩ [] ⟨(w.evaluate locals p).2, [] ++ stack⟩ :=
    change_spared [] hspares hnone stack
  exact h.undisturbed hchange (undisturbed_evaluate h.orderly locals p) fun _ ↦ rfl

/-- **To watch a map** is to have a subscription to each of its cells. -/
theorem watch (h : Balanced subs streams handles w stack) (k : η) {args : ValueMap}
    (hargs : ∀ c ∈ args.values, w.HasCell c) :
    Balanced ((w.watch k args).1 ++ subs) streams handles (w.watch k args).2 stack := by
  have hall : ∀ (cs : List CellId) (made : List Subscription × World η),
      (∀ c ∈ cs, made.2.HasCell c) →
      Balanced (made.1 ++ subs) streams handles made.2 stack →
        let done := cs.foldl (fun made c ↦ (made.1 ++ [.ofCell c made.2.nextTicket],
          (made.2.observe c (.watcher k args)).2)) made
        Balanced (done.1 ++ subs) streams handles done.2 stack := by
    intro cs
    induction cs with
    | nil => exact fun made _ h ↦ h
    | cons c cs ih =>
      intro made hcs h
      have hobserved := h.observe (hcs c List.mem_cons_self)
        (.watcher k args) fun _ _ hrole ↦ nomatch hrole
      refine ih (made.1 ++ [.ofCell c made.2.nextTicket], (made.2.observe c (.watcher k args)).2)
        (fun c' hc' ↦ ?_) (hobserved.perm ?_)
      · exact (hasCell_observe made.2 c _ c').2 (hcs c' (List.mem_cons_of_mem _ hc'))
      · rw [List.append_assoc]
        exact List.perm_middle.symm
  exact hall args.values ([], w) hargs h

/-- To hand subscriptions over to a teardown. -/
theorem handOver {t : Teardown} {rest : List Subscription}
    (h : Balanced (subs ++ (t.held ++ rest)) streams handles w stack) :
    Balanced ((t.hold subs w).1.held ++ rest) streams handles (t.hold subs w).2 stack := by
  cases t with
  | waiting held =>
    refine h.perm ?_
    show (subs ++ (held ++ rest)).Perm ((held ++ subs) ++ rest)
    rw [← List.append_assoc]
    exact List.perm_append_comm.append_right rest
  | fired => exact h.cancelAll

end Balanced

/-! ### Dealings -/

namespace Usage

/-- What is in hands is in balance with the world. -/
def Even (u : Usage η) : Prop :=
  Balanced u.hands.held u.hands.streams u.hands.handles u.world u.stack

variable {u v : Usage η}

/-- What a teardown holds and what is held besides. -/
theorem perm_held (H : Holdings) (before after : List Teardown) (t : Teardown) :
    ({ H with teardowns := before ++ t :: after } : Holdings).held.Perm
      (t.held ++ ({ H with teardowns := before ++ after } : Holdings).held) := by
  simp only [Holdings.held, List.flatMap_append, List.flatMap_cons]
  have hinner := List.perm_append_comm_assoc (before.flatMap Teardown.held) t.held
    (after.flatMap Teardown.held)
  exact (hinner.append_left H.subscriptions).trans (List.perm_append_comm_assoc ..)

/-- What is held after subscriptions have been handed over to a teardown. -/
theorem even_handOver {subs : List Subscription} {H : Holdings} {before after : List Teardown}
    {t : Teardown} {w : World η} {stack : List (Work η)}
    (h : Balanced (subs ++ ({ H with teardowns := before ++ t :: after } : Holdings).held)
      H.streams H.handles w stack) :
    Even ⟨(t.hold subs w).2, stack,
      { H with teardowns := before ++ (t.hold subs w).1 :: after }⟩ := by
  have hhanded := (h.perm ((perm_held H before after t).append_left subs)).handOver
  exact hhanded.perm (perm_held H before after _).symm

theorem even_dealing (h : u.Even) (hdealing : Dealing u v) : v.Even := by
  unfold Even at h ⊢
  cases hdealing with
  | turn w x stack H => exact h.turn
  | deed w d stack H hd hpermits => exact h.aloof (Deed.aloof_of_plain hd) hpermits
  | subscribe w c k stack H hc => exact h.observe hc (.handler k) fun _ _ hrole ↦ nomatch hrole
  | follow w s k stack H hs =>
    exact (h.aloof (d := .subscribe s k) rfl (h.lives hs)).cons fun _ ↦ rfl
  | listen w k stack H => exact (h.aloof (d := .listen k) rfl trivial).cons fun _ ↦ rfl
  | blank w stack H => exact h.cons fun _ ↦ rfl
  | unsubscribe w sub stack H hsub =>
    have hperm := (List.perm_cons_erase hsub).append_right (H.teardowns.flatMap Teardown.held)
    exact (h.perm hperm).cancel
  | observe w w' locals p f s stack H hbind hcells hobserve =>
    rw [World.observePredicate, hbind] at hobserve
    cases hobserve
    exact h.openSignal hcells
  | fail => exact h
  | constant w truth stack H => exact h.openSignal fun _ ht ↦ absurd ht List.not_mem_nil
  | evaluate w locals p stack H => exact h.evaluate locals p
  | share w s stack H hs => exact h.hold hs
  | drop w s stack H hs => exact h.drop hs
  | ready w stack H => exact h
  | handOver w sub before after t stack H hsub =>
    have hperm := (List.perm_cons_erase hsub).append_right
      ((before ++ t :: after).flatMap Teardown.held)
    exact even_handOver (H := { H with subscriptions := H.subscriptions.erase sub })
      (h.perm hperm)
  | watch w k args before after t stack H hargs => exact even_handOver (h.watch k hargs)
  | fire w before after t stack H =>
    have hcancelled := (h.perm (perm_held H before after t)).cancelAll
    exact hcancelled.perm (perm_held H before after .fired).symm
  | discard w before after t stack H => exact (h.perm (perm_held H before after t)).cancelAll

/-- **What is in hands is in balance with the world in every state that can be reached.** -/
theorem even_of_reaches (h : Reaches u v) (hu : u.Even) : v.Even := by
  induction h with
  | refl => exact hu
  | tail _ hdealing ih => exact even_dealing ih hdealing

end Usage

/-! ### Counting -/

namespace World

variable {w : World η} {c : CellId}

theorem length_reading (c : CellId) (place : Nat) (ts : List (Term CellId)) :
    (reading c place ts).length = (ts.flatMap Term.operands).count c := by
  induction ts generalizing place with
  | nil => rfl
  | cons t ts ih =>
    rw [reading, List.length_append, List.length_map, ih, List.flatMap_cons, List.count_append,
      ← List.countP_eq_length_filter]
    rfl

/-- The observers of a signal are as many as the operands that it reads there. -/
theorem countP_serves (ho : w.Orderly) {s : SignalId} {sig : Signal η} {f : Formula (Term CellId)}
    (hsig : w.signals.get? s = some sig) (hf : Circuit.Keeps f sig.circuit) :
    (w.observers c).countP (·.serves s) = (f.terms.flatMap Term.operands).count c := by
  have hplaced := congrArg List.length (ho.placed s sig hsig c)
  rw [hf.terms_eq, length_reading, List.length_filterMap_eq_countP] at hplaced
  rw [← hplaced]
  refine List.countP_congr fun o _ ↦ ?_
  rw [Observer.serves_iff, Option.isSome_iff_exists]
  simp only [Observer.place?_eq_some]

end World

/-- Observers of streams are counted stream by stream. -/
theorem length_eq_count_flatMap {α : Type} (f : α → List CellId) (c : CellId)
    {streams : List (SignalId × α)} (hdistinct : (streams.map Prod.fst).Nodup)
    (observers : List (Observer η))
    (hserves : ∀ o ∈ observers, ∃ stream ∈ streams, o.serves stream.1 = true)
    (hcount : ∀ stream ∈ streams,
      observers.countP (·.serves stream.1) = (f stream.2).count c) :
    observers.length = (streams.flatMap fun stream ↦ f stream.2).count c := by
  induction streams generalizing observers with
  | nil =>
    cases observers with
    | nil => rfl
    | cons o observers =>
      obtain ⟨stream, hmem, -⟩ := hserves o List.mem_cons_self
      cases hmem
  | cons stream streams ih =>
    obtain ⟨hnew, hdistinct⟩ := List.nodup_cons.1 hdistinct
    -- Of the observers of the other streams none serves the first.
    have hothers := ih hdistinct (observers.filter fun o ↦ !o.serves stream.1)
      (fun o ho ↦ ?_) fun other hother ↦ ?_
    · rw [List.flatMap_cons, List.count_append, ← hcount stream List.mem_cons_self, ← hothers,
        ← List.countP_eq_length_filter, List.length_eq_countP_add_countP (·.serves stream.1)]
      simp only [Bool.not_eq_true, Bool.decide_eq_false]
    · obtain ⟨ho, hnot⟩ := List.mem_filter.1 ho
      obtain ⟨other, hother, hserve⟩ := hserves o ho
      rcases List.mem_cons.1 hother with rfl | hother
      · simp [hserve] at hnot
      · exact ⟨other, hother, hserve⟩
    · rw [← hcount other (List.mem_cons_of_mem _ hother), List.countP_filter]
      refine List.countP_congr fun o _ ↦ ?_
      simp only [Bool.and_eq_true, Bool.not_eq_true', and_iff_left_iff_imp]
      refine fun hserve ↦ Bool.eq_false_iff.2 fun hfirst ↦ hnew ?_
      rw [← Observer.serves_inj hfirst hserve]
      exact List.mem_map_of_mem hother

namespace Usage

open World

variable {u : Usage η}

/-- **The observers of a cell are counted by what is in hands**, when no work is to let go of a
signal. -/
theorem Even.length_eq (h : u.Even) (hquiet : ∀ s, Work.letGo s ∉ u.stack) (c : CellId) :
    (u.world.observers c).length = u.hands.subscribed c + u.hands.reads c := by
  have hnone : ∀ s, u.stack.countP (Work.letsGo s) = 0 := fun s ↦
    List.countP_eq_zero.2 fun x hx hletsGo ↦ by
      cases x with
      | letGo s' => exact hquiet s' hx
      | _ => cases hletsGo
  have hhandle : ∀ s, u.world.Lives s → s ∈ u.hands.handles := fun s hs ↦ by
    have hpos := h.held s hs
    rw [h.holders, hnone, Nat.add_zero] at hpos
    exact List.count_pos_iff.1 hpos
  -- Those that were set up directly have a subscription each.
  have hdirect : (u.world.observers c).countP Observer.direct = u.hands.subscribed c := by
    rw [Holdings.subscribed, ← Subscription.length_tickets, ← (h.registered.direct c).length_eq,
      List.length_map, List.countP_eq_length_filter]
  -- The others serve a signal that lives, so there is a handle to its stream.
  have hserves : ∀ o ∈ (u.world.observers c).filter (fun o ↦ !o.direct),
      ∃ stream ∈ u.hands.alive, o.serves stream.1 = true := by
    intro o ho
    obtain ⟨ho, hlooks⟩ := List.mem_filter.1 ho
    obtain ⟨s, place, hrole⟩ := Observer.direct_eq_false.1 (by simpa using hlooks)
    have hserve := Observer.serves_iff.2 ⟨place, hrole⟩
    have hlives := h.registered.served c o ho s hserve
    obtain ⟨stream, hstream, rfl⟩ := List.mem_map.1 (h.known s hlives)
    exact ⟨stream, List.mem_filter.2 ⟨hstream, decide_eq_true (hhandle _ hlives)⟩, hserve⟩
  have hcount : ∀ stream ∈ u.hands.alive,
      ((u.world.observers c).filter (fun o ↦ !o.direct)).countP (·.serves stream.1) =
        (stream.2.terms.flatMap Term.operands).count c := by
    intro stream hmem
    obtain ⟨hstream, hmem⟩ := List.mem_filter.1 hmem
    obtain ⟨sig, hsig⟩ := Option.isSome_iff_exists.1 (h.lives (of_decide_eq_true hmem))
    rw [← countP_serves h.orderly hsig ((h.stands stream hstream).keeps sig hsig),
      List.countP_filter]
    refine List.countP_congr fun o _ ↦ ?_
    cases hserve : o.serves stream.1 with
    | false => simp
    | true => simp [Observer.direct_of_serves hserve]
  have hothers : (u.world.observers c).countP (fun o ↦ !o.direct) = u.hands.reads c := by
    rw [List.countP_eq_length_filter]
    exact length_eq_count_flatMap
      (fun f : Formula (Term CellId) ↦ f.terms.flatMap Term.operands) c
      (h.distinct.sublist (List.filter_sublist.map _)) _ hserves hcount
  rw [List.length_eq_countP_add_countP Observer.direct, hdirect, ← hothers]
  simp only [Bool.not_eq_true, Bool.decide_eq_false]

theorem even_start : Even (⟨.start, [], .none⟩ : Usage η) := .start

end Usage

/-- **No registration leaks and none is lost.** However a world is dealt with, as long as no work is
to let go of a signal, which is how the notification of a signal ends, a cell has an observer for
each subscription to it that is in hand or held by a teardown, and one for each operand, of the
streams to which there is a handle, that it is. At any time, to evaluate a predicate leaves all
observers as they are, and so does to observe one, piece by piece, that turns out to have an operand
which is not found. -/
theorem Reaches.length_observers {u : Usage η} (h : Reaches ⟨.start, [], .none⟩ u) :
    ((∀ s, Work.letGo s ∉ u.stack) →
      ∀ c, (u.world.observers c).length = u.hands.subscribed c + u.hands.reads c) ∧
    (∀ locals p c, (u.world.evaluate locals p).2.observers c = u.world.observers c) ∧
    ∀ locals p e, u.world.observePredicate locals p = .error e →
      (World.observeParts locals p u.world).1 = .error e ∧
        ∀ c, (World.observeParts locals p u.world).2.observers c = u.world.observers c := by
  have heven := Usage.even_of_reaches h Usage.even_start
  refine ⟨fun hquiet c ↦ heven.length_eq hquiet c, fun locals p c ↦ ?_,
    fun locals p e hfail ↦ World.observers_observeParts heven.orderly.fresh hfail⟩
  exact (World.undisturbed_evaluate heven.orderly locals p).observers c

/-- A cell that is subscribed to, watched as two arguments, and both operands of a stream. -/
theorem Reaches.length_observers_watched :
    let p : Predicate CellId := .and [.term (.relation .equals (.literal 0) (.literal 0)),
      .term (.changed (.fromLocal "gone") 0)]
    ∃ (u : Usage Unit) (e : Problem), Reaches ⟨.start, [], .none⟩ u ∧
      (u.world.observers 0).length = u.hands.subscribed 0 + u.hands.reads 0 ∧
      u.hands.subscribed 0 = 3 ∧ u.hands.reads 0 = 2 ∧
      (World.observeParts .empty p u.world).1 = .error e ∧
      (World.observeParts .empty p u.world).2.observers 0 = u.world.observers 0 := by
  intro p
  have hcreated : Reaches ⟨(.start : World Unit), [], .none⟩ _ :=
    .tail .refl (.deed .start (.create (.int 0)) [] .none rfl trivial)
  have hsubscribed := hcreated.tail (.subscribe _ 0 () [] _ rfl)
  have hready := hsubscribed.tail (.ready _ [] _)
  have hwatched := hready.tail
    (.watch _ () (.ofList [("a", 0), ("b", 0)]) [] [] .start [] _ (by decide))
  have hobserved := hwatched.tail (.observe _ _ .empty
    (.term (.relation .equals (.literal 0) (.literal 0))) _ _ [] _ rfl (by decide) rfl)
  obtain ⟨hcount, -, hfail⟩ := Reaches.length_observers hobserved
  obtain ⟨herror, hsame⟩ := hfail .empty p _ rfl
  exact ⟨_, _, hobserved, hcount (fun _ ↦ List.not_mem_nil) 0, rfl, rfl, herror, hsame 0⟩

end LiveTemplate.Engine
