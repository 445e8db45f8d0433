import LiveTemplate.Proofs.Applying
import LiveTemplate.Proofs.Folding
import LiveTemplate.Session.Bindings
import Mathlib

/-!
# How often a watcher is called

To watch a map is to observe its cells one after the other, once for each entry
(`World.watch_eq`), so a cell that stands in several entries has as many observers of the watcher.
As long as none of them is stopped they stay where they are (`InPlace.moment`), and each pass
over the observers of a cell calls as many of them as entries hold the cell (`Pass.countP_tells`).

What a watcher has been called and what it is still owed by passes that are going on is therefore
always the number of changes, each of them counted as often as entries hold the cell that changed
(`History.balance`). A watcher of different cells is called once for each change; with a cell in two
entries it is called twice (`watcher_called`).
-/

namespace LiveTemplate.Engine

open World Subscription

variable {η : Type}

/-- Whether an observer of a cell has come for one of some subscriptions. -/
def Observer.isFor (subs : List Subscription) (c : CellId) (o : Observer η) : Bool :=
  subs.contains (.ofCell c o.ticket)

theorem Observer.isFor_iff {subs : List Subscription} {c : CellId} {o : Observer η} :
    o.isFor subs c = true ↔ .ofCell c o.ticket ∈ subs := List.contains_iff_mem

theorem Subscription.mem_tickets {c : CellId} {subs : List Subscription} {ticket : Ticket} :
    ticket ∈ tickets c subs ↔ .ofCell c ticket ∈ subs := by
  rw [tickets, List.mem_filterMap]
  constructor
  · rintro ⟨sub, hmem, hsub⟩
    cases sub with
    | ofCell c' ticket' =>
      by_cases hc : c' = c
      · subst hc
        obtain rfl : ticket' = ticket := by simpa [ticket?] using hsub
        exact hmem
      · simp [ticket?, hc] at hsub
    | _ => cases hsub
  · exact fun h ↦ ⟨_, h, if_pos rfl⟩

/-! ### Observing cells one after the other -/

namespace World

/-- Adds an observer to each of some cells, in order. -/
def observeEach (w : World η) (role : Role η) : List CellId → List Subscription × World η
  | [] => ([], w)
  | c :: cs =>
    let (subs, w') := (w.observe c role).2.observeEach role cs
    (.ofCell c w.nextTicket :: subs, w')

/-- Observers that are added one by one, with the subscriptions collected on the way. -/
theorem foldl_observe (w : World η) (role : Role η) (subs : List Subscription)
    (cs : List CellId) :
    cs.foldl (fun (subs, w) c ↦
        let (ticket, w') := w.observe c role
        (subs ++ [Subscription.ofCell c ticket], w')) (subs, w) =
      (subs ++ (w.observeEach role cs).1, (w.observeEach role cs).2) := by
  induction cs generalizing subs w with
  | nil => rw [List.foldl_nil, observeEach, List.append_nil]
  | cons c cs ih =>
    rw [List.foldl_cons, observeEach]
    refine (ih _ _).trans ?_
    rw [List.append_assoc]
    rfl

theorem watch_eq (w : World η) (h : η) (args : ValueMap) :
    w.watch h args = w.observeEach (.watcher h args) args.values :=
  (foldl_observe w (.watcher h args) [] args.values).trans (by rw [List.nil_append])

section ObserveEach

variable {w : World η} {role : Role η} {cs : List CellId} {c : CellId}

theorem hasCell_observeEach (w : World η) (role : Role η) (cs : List CellId) (c : CellId) :
    (w.observeEach role cs).2.HasCell c ↔ w.HasCell c := by
  induction cs generalizing w with
  | nil => exact Iff.rfl
  | cons c' cs ih => exact (ih _).trans (hasCell_observe w c' role c)

theorem payload_observeEach (w : World η) (role : Role η) (cs : List CellId) (c : CellId) :
    (w.observeEach role cs).2.payload c = w.payload c := by
  induction cs generalizing w with
  | nil => rfl
  | cons c' cs ih => exact (ih _).trans (payload_observe w c' role c)

/-- There are as many subscriptions to a cell as it is observed. -/
theorem length_tickets_observeEach (w : World η) (role : Role η) (cs : List CellId) (c : CellId) :
    (tickets c (w.observeEach role cs).1).length = cs.count c := by
  induction cs generalizing w with
  | nil => rfl
  | cons c' cs ih =>
    show (tickets c
      (.ofCell c' w.nextTicket :: ((w.observe c' role).2.observeEach role cs).1)).length = _
    by_cases hc : c' = c
    · subst hc
      rw [tickets_ofCell, List.length_cons, ih, List.count_cons_self]
    · rw [tickets_ofCell_of_ne hc, ih, List.count_cons_of_ne hc]

/-- The new observers of a cell stand behind those that it has. -/
theorem observers_observeEach (hcs : ∀ c ∈ cs, w.HasCell c) (c : CellId) :
    (w.observeEach role cs).2.observers c =
      w.observers c ++ (tickets c (w.observeEach role cs).1).map fun ticket ↦ ⟨ticket, role⟩ := by
  induction cs generalizing w with
  | nil => exact (List.append_nil _).symm
  | cons c' cs ih =>
    obtain ⟨hcell, hrest⟩ := List.forall_mem_cons.1 hcs
    have hlater := ih fun c hc ↦ (hasCell_observe w c' role c).2 (hrest c hc)
    show ((w.observe c' role).2.observeEach role cs).2.observers c = w.observers c ++
      (tickets c (.ofCell c' w.nextTicket :: ((w.observe c' role).2.observeEach role cs).1)).map _
    rw [hlater, observers_observe]
    by_cases hc : c' = c
    · subst hc
      rw [if_pos ⟨rfl, hcell⟩, tickets_ofCell, List.map_cons, List.append_assoc]
      rfl
    · rw [if_neg fun hboth ↦ hc hboth.1.symm, tickets_ofCell_of_ne hc]

/-- The tickets are given out as the cells are observed. -/
theorem nextTicket_le_of_observeEach {ticket : Ticket}
    (h : .ofCell c ticket ∈ (w.observeEach role cs).1) : w.nextTicket ≤ ticket := by
  induction cs generalizing w with
  | nil => exact absurd h List.not_mem_nil
  | cons c' cs ih =>
    rcases List.mem_cons.1 h with heq | h
    · cases heq
      exact Nat.le_refl _
    · exact Nat.le_trans (Nat.le_succ _) (ih h)

theorem nodup_tickets_observeEach (w : World η) (role : Role η) (cs : List CellId) (c : CellId) :
    (tickets c (w.observeEach role cs).1).Nodup := by
  induction cs generalizing w with
  | nil => exact List.nodup_nil
  | cons c' cs ih =>
    show (tickets c
      (.ofCell c' w.nextTicket :: ((w.observe c' role).2.observeEach role cs).1)).Nodup
    by_cases hc : c' = c
    · subst hc
      rw [tickets_ofCell, List.nodup_cons]
      exact ⟨fun hmem ↦ Nat.not_succ_le_self _ (nextTicket_le_of_observeEach (mem_tickets.1 hmem)),
        ih _⟩
    · rw [tickets_ofCell_of_ne hc]
      exact ih _

theorem enlists_observeEach (w : World η) (role : Role η) (cs : List CellId) :
    Enlists w (w.observeEach role cs).2 := by
  induction cs generalizing w with
  | nil => exact .refl w
  | cons c cs ih => exact (enlists_observe w c role).trans (ih _)

theorem orderly_observeEach (ho : w.Orderly) (hrole : ∀ s place, role ≠ .term s place)
    (cs : List CellId) : (w.observeEach role cs).2.Orderly := by
  induction cs generalizing w with
  | nil => exact ho
  | cons c cs ih => exact ih (ho.spares (spares_observe hrole w c))

end ObserveEach

/-- Observers of a cell that have one ticket are one. -/
theorem Ranked.eq_of_ticket {w : World η} {c : CellId} {o o' : Observer η} (hw : w.Ranked)
    (ho : o ∈ w.observers c) (ho' : o' ∈ w.observers c) (h : o.ticket = o'.ticket) : o = o' :=
  List.inj_on_of_nodup_map ((hw.ascending c).imp Nat.ne_of_lt) ho ho' h

end World

/-! ### Who stays -/

/-- Whether a deed ends one of some subscriptions. -/
def Deed.ends (subs : List Subscription) : Deed η → Bool
  | .cancel sub => subs.contains sub
  | _ => false

theorem Deed.ends_of_mem {subs : List Subscription} {sub : Subscription} {d : Deed η}
    (hsub : sub ∈ subs) (hd : d.ends subs = false) : d.ends [sub] = false := by
  cases d with
  | cancel sub' =>
    refine Bool.eq_false_iff.2 fun hends ↦ Bool.eq_false_iff.1 hd (List.contains_iff_mem.2 ?_)
    exact List.mem_singleton.1 (List.contains_iff_mem.1 hends) ▸ hsub
  | _ => rfl

namespace World

variable {w : World η} {c : CellId} {o : Observer η}

theorem mem_observers_letGo (ho : w.Orderly) (hmem : o ∈ w.observers c) (hdirect : o.direct = true)
    (s : SignalId) : o ∈ (w.letGo s).observers c := by
  by_cases hs : w.Lives s
  · have hserves : o.serves s = false := Bool.eq_false_iff.2 fun hserves ↦
      Bool.false_ne_true ((Observer.direct_of_serves hserves).symm.trans hdirect)
    rw [observers_letGo ho hs]
    split
    · exact hmem
    · exact List.mem_filter.2 ⟨hmem, by rw [hserves]; rfl⟩
  · rw [letGo, Option.not_isSome_iff_eq_none.1 hs]
    exact hmem

/-- **No turn takes an observer away** but one that looks at a term. -/
theorem mem_observers_turn (ho : w.Orderly) (hmem : o ∈ w.observers c) (hdirect : o.direct = true)
    (x : Work η) : o ∈ (w.turn x).world.observers c := by
  by_cases hx : ∃ s, x = .letGo s
  · obtain ⟨s, rfl⟩ := hx
    exact mem_observers_letGo ho hmem hdirect s
  · have hsame := (undisturbed_turn ho fun s heq ↦ hx ⟨s, heq⟩).observers c
    exact hsame.symm ▸ hmem

/-- **No deed takes an observer away** but one that ends its subscription. -/
theorem mem_observers_after (ho : w.Orderly) (hmem : o ∈ w.observers c) (hdirect : o.direct = true)
    {d : Deed η} (hd : d.ends [.ofCell c o.ticket] = false) : o ∈ (w.after d).1.observers c := by
  by_cases haloof : d.aloof = true
  · exact ((undisturbed_after ho haloof).observers c).symm ▸ hmem
  cases d with
  | observe c' role =>
    show o ∈ (w.observe c' role).2.observers c
    rw [observers_observe]
    split
    · exact List.mem_append_left _ hmem
    · exact hmem
  | cancel sub =>
    cases sub with
    | ofCell c' ticket =>
      show o ∈ (w.cancel (.ofCell c' ticket)).observers c
      rw [observers_cancel]
      split
      · rename_i hc
        have hne : o.ticket ≠ ticket := by
          rintro rfl
          simp [Deed.ends, hc] at hd
        exact List.mem_filter.2 ⟨hmem, by simpa using hne⟩
      · exact hmem
    | _ => exact hmem
  | openSignal f =>
    obtain ⟨added, heq, -⟩ := (attaches_openSignal w f).observers c
    exact heq ▸ List.mem_append_left _ hmem
  | hold s => exact hmem
  | letGo s => exact mem_observers_letGo ho hmem hdirect s
  | _ => exact absurd rfl haloof

end World

/-! ### A watcher in place -/

namespace Activity

/-- Anything may be done but to end one of some subscriptions. -/
def sparing (subs : List Subscription) : Activity η → Deed η → Prop :=
  fun _ d ↦ d.ends subs = false

instance (subs : List Subscription) (m : Moment η) : Decidable (m.Allowed (sparing subs)) :=
  match m with
  | .turn _ _ _ => isTrue trivial
  | .deed w d _ => inferInstanceAs (Decidable (w.Permits d ∧ d.ends subs = false))

/-- The watcher of a map is in place: its observers are there, and it is they who are still to be
called under their tickets. -/
structure InPlace (h : η) (args : ValueMap) (subs : List Subscription) (a : Activity η) : Prop where
  ranked : a.world.Ranked
  present : ∀ c ticket, .ofCell c ticket ∈ subs → ⟨ticket, .watcher h args⟩ ∈ a.world.observers c
  pending : ∀ c current rest, .tellCell c current rest ∈ a.stack → ∀ o ∈ rest,
    o.isFor subs c = true → o.role = .watcher h args

variable {may : Activity η → Deed η → Prop} {a b : Activity η} {m : Moment η}
  {ms : List (Moment η)} {c : CellId} {o : Observer η} {h : η} {args : ValueMap}
  {subs : List Subscription}

/-- **A watcher stays in place** unless one of its subscriptions is ended. -/
theorem InPlace.moment (hplace : InPlace h args subs m.before) (ho : m.before.world.Orderly)
    (hm : m.Allowed (sparing subs)) : InPlace h args subs m.after where
  ranked := hplace.ranked.enlists (Moment.world_enlists ho hm)
  present := fun c ticket hsub ↦ by
    have hpresent := hplace.present c ticket hsub
    cases m with
    | turn w x stack => exact mem_observers_turn ho hpresent rfl x
    | deed w d stack => exact mem_observers_after ho hpresent rfl (Deed.ends_of_mem hsub hm.2)
  pending := fun c current rest hmem o hrest hfor ↦ by
    cases arises_of_change ((Moment.step hm).change ho) hmem with
    | kept hstack => exact hplace.pending c current rest hstack o hrest hfor
    | idle hidle =>
      obtain rfl : rest = [] := hidle
      exact absurd hrest List.not_mem_nil
    | put _ p _ =>
      -- Whoever observes the cell under the ticket is the watcher.
      have hpresent := hplace.present c o.ticket (Observer.isFor_iff.1 hfor)
      rw [hplace.ranked.eq_of_ticket hrest hpresent rfl]
    | next hstack => exact hplace.pending c _ _ hstack o (List.mem_cons_of_mem _ hrest) hfor

theorem History.inPlace (hhistory : History (sparing subs) a ms b) (ho : a.world.Orderly)
    (hplace : InPlace h args subs a) : InPlace h args subs b :=
  hhistory.keeps (P := fun _ a ↦ InPlace h args subs a) (fun ho hm hplace ↦ hplace.moment ho hm) ho
    hplace

/-- **A watcher has as many observers of a cell** as it has subscriptions to it. -/
theorem InPlace.countP_isFor (hplace : InPlace h args subs a) (c : CellId)
    (hnodup : (tickets c subs).Nodup) :
    (a.world.observers c).countP (·.isFor subs c) = (tickets c subs).length := by
  have hobservers : (((a.world.observers c).filter (·.isFor subs c)).map Observer.ticket).Nodup :=
    ((hplace.ranked.ascending c).imp Nat.ne_of_lt).sublist (List.filter_sublist.map _)
  have hperm : (((a.world.observers c).filter (·.isFor subs c)).map Observer.ticket).Perm
      (tickets c subs) := by
    refine (List.perm_ext_iff_of_nodup hobservers hnodup).2 fun ticket ↦ ?_
    rw [mem_tickets, List.mem_map]
    constructor
    · rintro ⟨o, ho, rfl⟩
      exact Observer.isFor_iff.1 (List.mem_filter.1 ho).2
    · exact fun hsub ↦ ⟨⟨ticket, .watcher h args⟩,
        List.mem_filter.2 ⟨hplace.present c ticket hsub, Observer.isFor_iff.2 hsub⟩, rfl⟩
  rw [List.countP_eq_length_filter, ← List.length_map (f := Observer.ticket), hperm.length_eq]

/-- Whoever is still to be called has a ticket that has been given out. -/
def Given (a : Activity η) : Prop :=
  ∀ c current rest, .tellCell c current rest ∈ a.stack → ∀ o ∈ rest, o.ticket < a.world.nextTicket

theorem History.given (hhistory : History may a ms b) (ho : a.world.Orderly)
    (hranked : a.world.Ranked) (ha : a.Given) : b.Given := by
  have hmoment : ∀ {m : Moment η}, m.before.world.Orderly → m.Allowed may →
      m.before.world.Ranked ∧ m.before.Given → m.after.world.Ranked ∧ m.after.Given := by
    intro m ho hm ⟨hranked, hgiven⟩
    have henlists := Moment.world_enlists ho hm
    refine ⟨hranked.enlists henlists, fun c current rest hmem o hrest ↦ ?_⟩
    refine Nat.lt_of_lt_of_le ?_ henlists.tickets
    cases arises_of_change ((Moment.step hm).change ho) hmem with
    | kept hstack => exact hgiven c current rest hstack o hrest
    | idle hidle =>
      obtain rfl : rest = [] := hidle
      exact absurd hrest List.not_mem_nil
    | put _ p _ => exact hranked.given c o hrest
    | next hstack => exact hgiven c _ _ hstack o (List.mem_cons_of_mem _ hrest)
  exact (hhistory.keeps (P := fun _ a ↦ a.world.Ranked ∧ a.Given)
    (fun ho hm hboth ↦ hmoment ho hm hboth) ho ⟨hranked, ha⟩).2

/-- **To watch is to put a watcher in place.** -/
theorem inPlace_watch {w : World η} {stack : List (Work η)} (hranked : w.Ranked)
    (hargs : ∀ c ∈ args.values, w.HasCell c) (hgiven : Given ⟨w, stack⟩) :
    InPlace h args (w.watch h args).1 ⟨(w.watch h args).2, stack⟩ := by
  have henlists : Enlists w (w.watch h args).2 := by
    rw [watch_eq]
    exact enlists_observeEach w _ _
  refine ⟨hranked.enlists henlists, fun c ticket hsub ↦ ?_,
    fun c current rest hmem o hrest hfor ↦ ?_⟩
  · rw [watch_eq] at hsub ⊢
    show _ ∈ (w.observeEach (.watcher h args) args.values).2.observers c
    rw [observers_observeEach hargs]
    exact List.mem_append_right _ (List.mem_map_of_mem (mem_tickets.2 hsub))
  · have hsub := Observer.isFor_iff.1 hfor
    rw [watch_eq] at hsub
    exact absurd (hgiven c current rest hmem o hrest)
      (Nat.not_lt.2 (nextTicket_le_of_observeEach hsub))

/-! ### What a watcher is owed -/

end Activity

/-- How many of those that a piece of work is to call have come for some subscriptions. -/
def Work.dueTo (subs : List Subscription) : Work η → Nat
  | .tellCell c _ rest => rest.countP (·.isFor subs c)
  | _ => 0

/-- How many of those that are to be called have come for some subscriptions. -/
def dues (subs : List Subscription) (stack : List (Work η)) : Nat :=
  (stack.map (Work.dueTo subs)).sum

/-- The number of changes, each of them counted as often as a map holds the cell that changes. -/
def concerns (args : ValueMap) (es : List Happening) : Nat :=
  ((changedCells es).map fun c ↦ args.values.count c).sum

section Owed

variable {subs : List Subscription} {args : ValueMap}

@[simp] theorem dues_nil (subs : List Subscription) : dues subs ([] : List (Work η)) = 0 := rfl

@[simp] theorem dues_append (subs : List Subscription) (xs ys : List (Work η)) :
    dues subs (xs ++ ys) = dues subs xs + dues subs ys := by
  rw [dues, List.map_append, List.sum_append]
  rfl

@[simp] theorem dues_cons (subs : List Subscription) (x : Work η) (xs : List (Work η)) :
    dues subs (x :: xs) = x.dueTo subs + dues subs xs := List.sum_cons

theorem dues_eq_zero {xs : List (Work η)} (h : ∀ x ∈ xs, x.dueTo subs = 0) : dues subs xs = 0 :=
  List.sum_eq_zero_iff_forall_eq_nat.2 fun n hn ↦ by
    obtain ⟨x, hx, rfl⟩ := List.mem_map.1 hn
    exact h x hx

theorem dueTo_of_idle {x : Work η} (h : x.idle) : x.dueTo subs = 0 := by
  cases x with
  | tellCell c current rest =>
    obtain rfl : rest = [] := h
    rfl
  | _ => rfl

@[simp] theorem concerns_nil (args : ValueMap) : concerns args [] = 0 := rfl

@[simp] theorem concerns_told (args : ValueMap) (s : SignalId) (ticket : Ticket) (truth : Bool) :
    concerns args [.told s ticket truth] = 0 := rfl

@[simp] theorem concerns_armed (args : ValueMap) (s : SignalId) (place : Nat)
    (former : Option Nat) : concerns args [.armed s place former] = 0 := rfl

theorem concerns_append (args : ValueMap) (es es' : List Happening) :
    concerns args (es ++ es') = concerns args es + concerns args es' := by
  rw [concerns, changedCells, List.filterMap_append, List.map_append, List.sum_append]
  rfl

theorem concerns_eq_zero {es : List Happening} (h : ∀ c time, .changed c time ∉ es) :
    concerns args es = 0 := by
  rw [concerns, Activity.changedCells_eq_nil h]
  rfl

/-- To look at a term leaves no work that calls observers of a cell. -/
theorem not_tellCell_refresh (w : World η) (s : SignalId) (place : Nat) :
    ∀ x ∈ (w.refresh s place).2, ∀ c current rest, x ≠ .tellCell c current rest := by
  have hset : ∀ (w : World η) (f : LiveTerm → LiveTerm), ∀ x ∈ (w.setTerm s place f).2,
      ∀ c current rest, x ≠ .tellCell c current rest := by
    intro w f x hx
    unfold setTerm at hx
    split at hx
    · cases hx
    · dsimp only at hx
      split at hx
      · cases hx
      · simp only [List.mem_cons, List.not_mem_nil, or_false] at hx
        rcases hx with rfl | rfl <;> exact fun _ _ _ ↦ nofun
  intro x hx
  unfold refresh at hx
  split at hx
  · cases hx
  · split at hx
    · exact hset _ _ x hx
    · dsimp only at hx
      split at hx
      · rcases List.mem_append.1 hx with hx | hx
        · exact hset _ _ x hx
        · simp only [List.mem_cons, List.not_mem_nil, or_false] at hx
          rcases hx with rfl | rfl <;> exact fun _ _ _ ↦ nofun
      · rcases List.mem_append.1 hx with hx | hx
        · exact hset _ _ x hx
        · rw [List.mem_singleton.1 hx]
          exact fun _ _ _ ↦ nofun

end Owed

namespace Activity

/-- Whether a watcher is called at a moment, under one of its subscriptions. -/
def Moment.calls (subs : List Subscription) : Moment η → Bool
  | turn w (.tellCell c _ (o :: _)) _ => o.isFor subs c && w.observes c o.ticket
  | _ => false

/-- Who is called at a moment, and what he is told. -/
def Moment.call? : Moment η → Option (Call η)
  | turn w x _ => (w.turn x).call
  | deed _ _ _ => none

variable {may : Activity η → Deed η → Prop} {a b : Activity η} {m : Moment η}
  {ms : List (Moment η)} {es : List Happening} {c : CellId} {o : Observer η} {h : η}
  {args : ValueMap} {subs : List Subscription}

theorem Moment.calls_iff : m.calls subs = true ↔
    ∃ c o, m.called c = some o ∧ .ofCell c o.ticket ∈ subs := by
  constructor
  · intro hcalls
    unfold calls at hcalls
    split at hcalls
    · rename_i w c current o rest stack
      obtain ⟨hfor, hobserves⟩ := Bool.and_eq_true_iff.1 hcalls
      exact ⟨c, o, if_pos ⟨rfl, hobserves⟩, Observer.isFor_iff.1 hfor⟩
    · cases hcalls
  · rintro ⟨c, o, hcalled, hsub⟩
    unfold called at hcalled
    split at hcalled
    · split at hcalled
      · rename_i hboth
        obtain ⟨rfl, hobserves⟩ := hboth
        cases hcalled
        exact Bool.and_eq_true_iff.2 ⟨Observer.isFor_iff.2 hsub, hobserves⟩
      · cases hcalled
    · cases hcalled

/-- What work is owed to a watcher after a change: what was owed before and what the change brings;
but not if it is the turn of someone to be called. -/
theorem dues_of_change (hchange : Change may a es b)
    (hput : ∀ c, (a.world.observers c).countP (·.isFor subs c) = args.values.count c) :
    dues subs b.stack = dues subs a.stack + concerns args es ∨
      (∃ c current o rest stack, a.stack = .tellCell c current (o :: rest) :: stack) ∧
        concerns args es = 0 ∧ dues subs b.stack ≤ dues subs a.stack := by
  have hidle : ∀ {xs : List (Work η)}, (∀ x ∈ xs, x.idle) → dues subs xs = 0 := fun hxs ↦
    dues_eq_zero fun x hx ↦ dueTo_of_idle (hxs x hx)
  have hfewer : ∀ {o : Observer η} {c : CellId} {rest : List (Observer η)},
      rest.countP (·.isFor subs c) ≤ (o :: rest).countP (·.isFor subs c) :=
    (List.sublist_cons_self _ _).countP_le
  cases hchange with
  | spare begun left _ hbegun hleft =>
    have hleft' : dues subs left = 0 := hidle fun x hx ↦ by
      rcases hleft with hleft | ⟨us, us', locals, -, rfl⟩
      · exact (hleft x hx).1
      · rw [List.mem_singleton.1 hx]
        trivial
    simp [hidle hbegun, hleft']
  | @put w c p begun left stack hne hby =>
    have hwork : dues subs begun = 0 ∧ dues subs left = 0 := by
      rcases hby with ⟨rfl, rfl, -⟩ | ⟨us, us', locals, rfl, rfl⟩
      · exact ⟨rfl, rfl⟩
      · exact ⟨rfl, rfl⟩
    have hconcerns : concerns args [.changed c w.clock.now] = args.values.count c := Nat.add_zero _
    have hdue : (Work.tellCell c none (w.observers c)).dueTo subs = args.values.count c := hput c
    refine .inl ?_
    simp only [dues_cons, dues_append, hwork, hconcerns, hdue, Nat.zero_add]
    exact Nat.add_comm _ _
  | pass =>
    refine .inr ⟨⟨_, _, _, _, _, rfl⟩, rfl, ?_⟩
    simp only [dues_cons]
    exact Nat.add_le_add_right hfewer _
  | tell =>
    refine .inl ?_
    rw [concerns_eq_zero fun c time hmem ↦ ?_]
    · rfl
    · split at hmem
      · cases List.mem_singleton.1 hmem
      · cases hmem
  | amend _ _ how _ =>
    rename_i w' s place sig live begun left stack g k news _ _ _
    have htidings : dues subs (tidings s sig (sig.circuit.amend g place)) = 0 :=
      dues_eq_zero fun x hx ↦ by
        unfold tidings at hx
        split at hx
        · cases hx
        · simp only [List.mem_cons, List.not_mem_nil, or_false] at hx
          rcases hx with rfl | rfl <;> rfl
    have hturning : ∀ c time, .changed c time ∉ turning s sig (sig.circuit.amend g place) :=
      fun c time hmem ↦ by
        unfold turning at hmem
        split at hmem
        · cases hmem
        · cases List.mem_singleton.1 hmem
    rw [dues_append, htidings, Nat.zero_add, concerns_append, concerns_eq_zero hturning,
      Nat.add_zero]
    cases how with
    | look =>
      refine .inr ⟨⟨_, _, _, _, _, rfl⟩, rfl, ?_⟩
      simp only [List.singleton_append, dues_cons]
      exact Nat.add_le_add_right hfewer _
    | restart held _ _ hheld =>
      have hzero : dues subs held = 0 := dues_eq_zero fun x hx ↦ by
        rw [hheld x hx]
        rfl
      refine .inr ⟨⟨_, _, _, _, _, rfl⟩, rfl, ?_⟩
      simp only [List.cons_append, List.append_assoc, dues_cons, dues_append, hzero,
        List.nil_append]
      simp only [Work.dueTo, Nat.zero_add]
      exact Nat.add_le_add_right hfewer _
    | _ => simp [Work.dueTo]
  | _ => simp [Work.dueTo]

/-- A turn of a pass takes one off what is owed, if it is the watcher's turn, and brings no
change. -/
theorem dues_turn_tellCell (subs : List Subscription) (args : ValueMap) (w : World η) (c : CellId)
    (current : Option (Observer η)) (o : Observer η) (rest : List (Observer η)) :
    (if o.isFor subs c then 1 else 0) + dues subs (w.turn (.tellCell c current (o :: rest))).next =
        (Work.tellCell c current (o :: rest)).dueTo subs ∧
      concerns args (w.atTurn (.tellCell c current (o :: rest))) = 0 := by
  obtain ⟨works, hnext, hworks⟩ : ∃ works, (w.turn (.tellCell c current (o :: rest))).next =
      works ++ [.tellCell c (some o) rest] ∧
      ∀ x ∈ works, ∀ c current rest, x ≠ .tellCell c current rest := by
    have hnone : ∀ x ∈ ([] : List (Work η)), ∀ c current rest, x ≠ .tellCell c current rest :=
      fun _ hx ↦ absurd hx List.not_mem_nil
    rw [turn_tellCell]
    split
    · unfold call
      split
      · exact ⟨[], rfl, hnone⟩
      · exact ⟨[], rfl, hnone⟩
      · exact ⟨_, rfl, not_tellCell_refresh w _ _⟩
    · exact ⟨[], rfl, hnone⟩
  constructor
  · have hzero : dues subs works = 0 := dues_eq_zero fun x hx ↦ by
      cases x with
      | tellCell c current rest => exact absurd rfl (hworks _ hx c current rest)
      | _ => rfl
    rw [hnext, dues_append, hzero, Nat.zero_add, dues_cons, dues_nil, Nat.add_zero]
    simp only [Work.dueTo, List.countP_cons]
    exact Nat.add_comm _ _
  · have hat : w.atTurn (.tellCell c current (o :: rest)) =
        (w.turn (.tellCell c current (o :: rest))).next.filterMap (Work.news w.clock.now) := rfl
    rw [hat, hnext]
    refine concerns_eq_zero fun c' time hmem ↦ ?_
    obtain ⟨x, hx, hnews⟩ := List.mem_filterMap.1 hmem
    rcases List.mem_append.1 hx with hx | hx
    · cases x with
      | tellCell c current rest => exact hworks _ hx c current rest rfl
      | tellSignal s b rest => cases hnews
      | _ => cases hnews
    · rw [List.mem_singleton.1 hx] at hnews
      cases hnews

/-- **A call that is made is owed no longer**, and each change brings as many as entries hold the
cell. -/
theorem InPlace.balance (hplace : InPlace h args subs m.before) (ho : m.before.world.Orderly)
    (hm : m.Allowed may) (hcount : ∀ c, (tickets c subs).length = args.values.count c)
    (hnodup : ∀ c, (tickets c subs).Nodup) :
    (if m.calls subs then 1 else 0) + dues subs m.after.stack =
      dues subs m.before.stack + concerns args m.news := by
  have hput : ∀ c, (m.before.world.observers c).countP (·.isFor subs c) = args.values.count c :=
    fun c ↦ (hplace.countP_isFor c (hnodup c)).trans (hcount c)
  have hchange := dues_of_change ((Moment.step hm).change ho) hput
  cases m with
  | deed w d stack =>
    show 0 + dues subs ((w.after d).2 ++ stack) = dues subs stack + _
    rcases hchange with hchange | ⟨-, hnone, hle⟩
    · rw [Nat.zero_add]
      exact hchange
    · -- A deed takes no work off.
      have hmore : dues subs ((w.after d).2 ++ stack) ≤ dues subs stack := hle
      rw [hnone, dues_append] at *
      omega
  | turn w x stack =>
    by_cases hx : ∃ c current o rest, x = .tellCell c current (o :: rest)
    · obtain ⟨c, current, o, rest, rfl⟩ := hx
      obtain ⟨howed, hnone⟩ := dues_turn_tellCell subs args w c current o rest
      have hcalls : (Moment.turn w (.tellCell c current (o :: rest)) stack).calls subs =
          o.isFor subs c := by
        show (o.isFor subs c && w.observes c o.ticket) = o.isFor subs c
        cases hfor : o.isFor subs c with
        | false => rfl
        | true =>
          rw [Bool.true_and]
          exact observes_iff.2 ⟨_, hplace.present c o.ticket (Observer.isFor_iff.1 hfor), rfl⟩
      have hafter : dues subs (Moment.turn w (.tellCell c current (o :: rest)) stack).after.stack =
          dues subs (w.turn (.tellCell c current (o :: rest))).next + dues subs stack :=
        dues_append subs _ stack
      have hbefore :
          dues subs (Moment.turn w (.tellCell c current (o :: rest)) stack).before.stack =
          (Work.tellCell c current (o :: rest)).dueTo subs + dues subs stack :=
        dues_cons subs _ stack
      have hnews : concerns args
          (Moment.turn w (.tellCell c current (o :: rest)) stack).news = 0 := hnone
      rw [hcalls, hafter, hbefore, hnews, ← howed, Nat.add_zero, Nat.add_assoc]
    · have hcalls : (Moment.turn w x stack).calls subs = false := by
        unfold Moment.calls
        split
        · rename_i heq
          cases heq
          exact absurd ⟨_, _, _, _, rfl⟩ hx
        · rfl
      rw [hcalls]
      rcases hchange with hchange | ⟨⟨c, current, o, rest, stack', hstack⟩, -⟩
      · exact (Nat.zero_add _).trans hchange
      · exact absurd ⟨c, current, o, rest, (List.cons.inj hstack).1⟩ hx

/-- **The account of a watcher.** What it has been called and what it is owed is what has changed,
counted as often as entries hold the cell. -/
theorem History.balance (hhistory : History (sparing subs) a ms b) (ho : a.world.Orderly)
    (hplace : InPlace h args subs a) (hcount : ∀ c, (tickets c subs).length = args.values.count c)
    (hnodup : ∀ c, (tickets c subs).Nodup) :
    ms.countP (·.calls subs) + dues subs b.stack =
      dues subs a.stack + concerns args (ms.flatMap Moment.news) := by
  induction hhistory with
  | refl => exact Nat.zero_add _
  | @tail ms m hhistory hm ih =>
    have hnow := (hhistory.inPlace ho hplace).balance (hhistory.run.orderly ho) hm hcount hnodup
    rw [List.countP_append, List.countP_singleton, List.flatMap_append, List.flatMap_singleton,
      concerns_append]
    omega

/-! ### What a watcher can rely on -/

/-- **A pass that is over has called a watcher** under all its subscriptions to the cell. -/
theorem Pass.countP_tells {w : World η} {base : List (Work η)}
    (hpass : Pass c base (w.observers c) ms [])
    (hhistory : History (sparing subs) ⟨w, .tellCell c none (w.observers c) :: base⟩ ms b)
    (ho : w.Orderly)
    (hplace : InPlace h args subs ⟨w, .tellCell c none (w.observers c) :: base⟩) :
    (ms.filterMap (·.tells c base.length)).countP (·.isFor subs c) =
      (w.observers c).countP (·.isFor subs c) := by
  have hranked : w.Ranked := hplace.ranked
  have htold := hpass.told hhistory ho (hranked.given c) (hranked.ascending c)
  refine Nat.le_antisymm htold.inOrder.countP_le ?_
  -- Those who have come for the watcher are still there, and so they have been told.
  have hall : ∀ o ∈ (w.observers c).filter (·.isFor subs c),
      o ∈ (ms.filterMap (·.tells c base.length)).filter (·.isFor subs c) := by
    intro o ho'
    obtain ⟨hmem, hfor⟩ := List.mem_filter.1 ho'
    have hstays := (hhistory.inPlace ho hplace).present c o.ticket (Observer.isFor_iff.1 hfor)
    have honce := htold.once o hmem (observes_iff.2 ⟨_, hstays, rfl⟩)
    obtain ⟨o', hmem', heq⟩ := List.mem_map.1 (List.count_pos_iff.1 (honce ▸ Nat.one_pos))
    obtain rfl := hranked.eq_of_ticket (htold.inOrder.subset hmem') hmem heq
    exact List.mem_filter.2 ⟨hmem', hfor⟩
  have hnodup : ((w.observers c).filter (·.isFor subs c)).Nodup :=
    (List.Nodup.of_map _ ((hranked.ascending c).imp Nat.ne_of_lt)).filter _
  rw [List.countP_eq_length_filter, List.countP_eq_length_filter]
  exact (List.subperm_of_subset hnodup hall).length_le

/-- How a watcher of a map is called in a history that begins when it has been put in place. -/
structure Heeds (h : η) (args : ValueMap) (subs : List Subscription) (ms : List (Moment η))
    (b : Activity η) : Prop where
  /-- What a cell holds changes only as a payload is put into it, and that one differs. -/
  puts : ∀ m ∈ ms, ∀ c, m.before.world.HasCell c →
    (m.after.world.payload c ≠ m.before.world.payload c → m.Puts c) ∧
    (m.Puts c → (m.before.world.payload c == m.after.world.payload c) = false)
  /-- Whenever it is called it is told what all the cells of its map hold then. -/
  told : ∀ m ∈ ms, m.calls subs = true →
    m.call? = some ⟨h, .arguments (args.map m.before.world.payload)⟩
  /-- Each change runs one pass, and once the pass is over it has called the watcher as often as
  entries hold the cell. -/
  passes : ∀ before m later, ms = before ++ m :: later → ∀ c, m.Puts c → ∃ base,
    m.after.stack = .tellCell c none (m.before.world.observers c) :: base ∧
    ∀ done rest, later = done ++ rest → Pass c base (m.before.world.observers c) done [] →
      (done.filterMap (·.tells c base.length)).countP (·.isFor subs c) = args.values.count c
  /-- It is called for changes only: what it has been called and what it is owed by passes that are
  going on is what has changed, each change counted as often as entries hold the cell. -/
  account : ms.countP (·.calls subs) + dues subs b.stack = concerns args (ms.flatMap Moment.news)
  /-- If no cell stands in two entries, and no pass is left, it has been called once for each change
  of a cell of the map. -/
  once : args.values.Nodup → (∀ c current rest, .tellCell c current rest ∈ b.stack → rest = []) →
    ms.countP (·.calls subs) =
      (changedCells (ms.flatMap Moment.news)).countP (args.values.contains ·)
  /-- Once a teardown has fired that holds its subscriptions, it is never called again. -/
  gone : ∀ t : Teardown, (∀ sub ∈ subs, sub ∈ t.held) →
    (∀ sub ∈ t.held, b.world.Permits (.cancel sub)) → ∀ later b',
      History anything ⟨(t.fire b.world).2, b.stack⟩ later b' → ∀ m ∈ later, m.calls subs = false

theorem concerns_of_nodup (hnodup : args.values.Nodup) (es : List Happening) :
    concerns args es = (changedCells es).countP (args.values.contains ·) := by
  unfold concerns
  induction changedCells es with
  | nil => rfl
  | cons c cs ih =>
    rw [List.map_cons, List.sum_cons, ih, List.countP_cons, Nat.add_comm]
    by_cases hc : c ∈ args.values
    · rw [List.count_eq_one_of_mem hnodup hc, if_pos (List.contains_iff_mem.2 hc)]
    · rw [List.count_eq_zero.2 hc, if_neg fun hmem ↦ hc (List.contains_iff_mem.1 hmem)]

/-- Who is called under a subscription of a watcher in place is that watcher. -/
theorem InPlace.call?_of_calls (hplace : InPlace h args subs m.before)
    (hcalls : m.calls subs = true) :
    m.call? = some ⟨h, .arguments (args.map m.before.world.payload)⟩ := by
  unfold Moment.calls at hcalls
  split at hcalls
  · rename_i w c current o rest stack
    obtain ⟨hfor, hobserves⟩ := Bool.and_eq_true_iff.1 hcalls
    have hrole := hplace.pending c current (o :: rest) List.mem_cons_self o List.mem_cons_self hfor
    show (w.turn (.tellCell c current (o :: rest))).call = _
    rw [turn_tellCell, if_pos hobserves, call, hrole]
    rfl
  · cases hcalls

/-- **What a watcher can rely on** from when it has been put in place. -/
theorem History.heeds (hhistory : History (sparing subs) a ms b) (ho : a.world.Orderly)
    (hplace : InPlace h args subs a) (hcount : ∀ c, (tickets c subs).length = args.values.count c)
    (hnodup : ∀ c, (tickets c subs).Nodup) (howed : dues subs a.stack = 0) :
    Heeds h args subs ms b where
  puts := fun _ hm _ hc ↦ hhistory.puts ho hm hc
  told := fun m hm hcalls ↦ by
    obtain ⟨before, later, rfl⟩ := List.append_of_mem hm
    exact (hhistory.at_moment.1.inPlace ho hplace).call?_of_calls hcalls
  passes := fun before m later heq c hputs ↦ by
    subst heq
    obtain ⟨hbefore, hallowed, hlater⟩ := hhistory.at_moment
    have horder := hbefore.run.orderly ho
    have hthere := hbefore.inPlace ho hplace
    have hafter := hthere.moment horder hallowed
    have hcountP := (hthere.countP_isFor c (hnodup c)).trans (hcount c)
    obtain ⟨p, base, -, hm⟩ := Moment.after_of_puts horder hallowed hputs
    refine ⟨base, congrArg Activity.stack hm, fun done rest hdone hpass ↦ ?_⟩
    subst hdone
    obtain ⟨b', hdone, -⟩ := hlater.split
    rw [hm] at hdone hafter
    rw [← observers_put m.before.world c p c] at hdone hafter hpass hcountP
    exact (hpass.countP_tells hdone (horder.put c p) hafter).trans hcountP
  account := by
    have hbalance := hhistory.balance ho hplace hcount hnodup
    rwa [howed, Nat.zero_add] at hbalance
  once := fun hdistinct hquiet ↦ by
    have hbalance := hhistory.balance ho hplace hcount hnodup
    have hnone : dues subs b.stack = 0 := dues_eq_zero fun x hx ↦ by
      cases x with
      | tellCell c current rest => rw [Work.dueTo, hquiet c current rest hx, List.countP_nil]
      | _ => rfl
    rwa [howed, hnone, Nat.zero_add, Nat.add_zero, concerns_of_nodup hdistinct] at hbalance
  gone := fun t hheld hpermits later b' hlater m hm ↦ by
    have hthere := hhistory.inPlace ho hplace
    have hcancels : ∀ (a : Activity η) sub, anything a (.cancel sub) := fun _ _ ↦ trivial
    obtain ⟨fire, hfire⟩ := exists_history_fire hcancels t hpermits
    have horder := hhistory.run.orderly ho
    refine Bool.eq_false_iff.2 fun hcalls ↦ ?_
    obtain ⟨c, o, hcalled, hsub⟩ := Moment.calls_iff.1 hcalls
    have hwas := observes_iff.2 ⟨_, hthere.present c o.ticket hsub, rfl⟩
    exact hlater.never_called (hfire.run.orderly horder) hthere.ranked (hfire.run.enlists horder)
      hwas (observes_fire (hheld _ hsub)) m hm o hcalled rfl

end Activity

end LiveTemplate.Engine

namespace LiveTemplate

open Engine World Subscription

namespace Session

/-- The session once a watcher has been put in place, and a teardown been given its
subscriptions. -/
def withWatcher (s : Session) (teardown : String) (t : Teardown) (h : Handler) (args : ValueMap) :
    Session :=
  let (t', world) := t.hold (s.world.watch h args).1 (s.world.watch h args).2
  { s with teardowns := s.teardowns.insert teardown t', world }

variable {s : Session} {i : Interactions CellId CellId} {kind teardown : String}
  {watch : Watch CellId} {t : Teardown}

/-- **To begin to watch** is to put the watcher in place and to call it at once, with all that its
arguments hold. -/
theorem beginWatch_eq (call : Calling) (hwatch : i.watch? kind = some watch)
    (ht : s.teardowns.get? teardown = some t) (h : Handler) :
    beginWatch call i kind h teardown s =
      (.ok (), call h (watch.args.map (s.withWatcher teardown t h watch.args).world.payload)
        (s.withWatcher teardown t h watch.args)) := by
  have hthere : expectTeardown (some teardown) s = (.ok (), s) :=
    Act.bind_of_ok (namedTeardown_of_some ht)
  unfold beginWatch
  rw [hwatch]
  refine (Act.bind_of_ok hthere).trans ?_
  have hhand : handOver teardown (s.world.watch h watch.args).1
      { s with world := (s.world.watch h watch.args).2 } =
        (.ok (), s.withWatcher teardown t h watch.args) :=
    handOver_of_some (s := { s with world := (s.world.watch h watch.args).2 }) ht _
  exact Act.bind_of_ok hhand

end Session

namespace Engine.Activity

/-- **A watcher is called for each entry that holds what changes.** Let anything at all have been
done, beginning with a world in which nobody observes a cell, and let a declared watch be begun
under a teardown that has not fired. The watcher is called at once, told what its arguments hold,
and the teardown holds its subscriptions. Whatever goes on after that, it can rely on what `Heeds`
says, as long as nobody but the teardown ends its subscriptions. -/
theorem watcher_called {w : World Session.Handler} {before : List (Moment Session.Handler)}
    {s : Session} {stack : List (Work Session.Handler)} (ho : w.Orderly)
    (hbare : ∀ c, w.observers c = []) (hbefore : History anything ⟨w, []⟩ before ⟨s.world, stack⟩)
    {i : Interactions CellId CellId} {kind teardown : String} {watch : Watch CellId}
    {held : List Subscription} (hwatch : i.watch? kind = some watch)
    (hargs : ∀ c ∈ watch.args.values, s.world.HasCell c)
    (ht : s.teardowns.get? teardown = some (.waiting held)) (h : Session.Handler)
    (call : Session.Calling) :
    Session.beginWatch call i kind h teardown s =
        (.ok (), call h (watch.args.map s.world.payload)
          (s.withWatcher teardown (.waiting held) h watch.args)) ∧
      (s.withWatcher teardown (.waiting held) h watch.args).teardowns.get? teardown =
        some (.waiting (held ++ (s.world.watch h watch.args).1)) ∧
      ∀ ms b, History (sparing (s.world.watch h watch.args).1)
        ⟨(s.withWatcher teardown (.waiting held) h watch.args).world, stack⟩ ms b →
          Heeds h watch.args (s.world.watch h watch.args).1 ms b := by
  have horder : s.world.Orderly := hbefore.run.orderly ho
  have hranked : s.world.Ranked := hbefore.run.ranked ho (ranked_of_bare hbare)
  have hgiven : Given ⟨s.world, stack⟩ := hbefore.given ho (ranked_of_bare hbare)
    fun _ _ _ hmem ↦ absurd hmem List.not_mem_nil
  have hrole : ∀ s place, Role.watcher h watch.args ≠ .term s place := fun _ _ ↦ nofun
  have hplace : InPlace h watch.args _ ⟨(s.world.watch h watch.args).2, stack⟩ :=
    inPlace_watch hranked hargs hgiven
  have hpayload : (s.withWatcher teardown (.waiting held) h watch.args).world.payload =
      s.world.payload := funext fun c ↦ by
    show (s.world.watch h watch.args).2.payload c = _
    rw [watch_eq, payload_observeEach]
  have howed : dues (s.world.watch h watch.args).1 stack = 0 := dues_eq_zero fun x hx ↦ by
    cases x with
    | tellCell c current rest =>
      refine List.countP_eq_zero.2 fun o hrest hfor ↦ ?_
      have hsub := Observer.isFor_iff.1 hfor
      rw [watch_eq] at hsub
      exact Nat.not_lt.2 (nextTicket_le_of_observeEach hsub) (hgiven c current rest hx o hrest)
    | _ => rfl
  refine ⟨?_, ?_, fun ms b hms ↦ ?_⟩
  · rw [Session.beginWatch_eq call hwatch ht, hpayload]
  · exact (OrderedMap.get?_insert _ _ _ _).trans (if_pos rfl)
  · have hafter : (s.world.watch h watch.args).2.Orderly := by
      rw [watch_eq]
      exact orderly_observeEach horder hrole _
    exact hms.heeds hafter hplace (fun c ↦ by rw [watch_eq, length_tickets_observeEach])
      (fun c ↦ by rw [watch_eq]; exact nodup_tickets_observeEach _ _ _ c) howed

/-! ### A cell in two entries -/

/-- A session over a world with a single number, and a teardown that holds nothing yet. -/
def single : Session :=
  { world := (start.create (.int 0)).2
    values := .empty, weakValues := .empty, maps := .empty, subscriptions := .empty
    signals := .empty, teardowns := .ofList [("t", .start)], timers := .empty
    interactions := none, table := .empty, log := [] }

/-- The only watch that is declared has the number in two entries. -/
def twofold : Interactions CellId CellId := ⟨[], [], [⟨"k", .ofList [("a", 0), ("b", 0)]⟩]⟩

/-- Who watches. -/
def onlooker : Session.Handler := ⟨some "w", []⟩

/-- The number changes, and then all that is left is done. -/
def stirring : List (Option (Deed Session.Handler)) :=
  some (.write 0 (.int 1)) :: List.replicate 3 none

/-- There is one change, and the watcher is called twice. -/
theorem watcher_called_twofold :
    let watched := single.withWatcher "t" .start onlooker (.ofList [("a", 0), ("b", 0)])
    Session.beginWatch Session.noted twofold "k" onlooker "t" single =
        (.ok (), { watched with
          log := [.told (some "w") (.arguments (.ofList [("a", .int 0), ("b", .int 0)]))] }) ∧
      changedCells ((follow stirring ⟨watched.world, []⟩).1.flatMap Moment.news) = [0] ∧
      (follow stirring ⟨watched.world, []⟩).1.countP (·.calls [.ofCell 0 0, .ofCell 0 1]) = 2 := by
  intro watched
  have hsingle : History anything ⟨start, []⟩ _ ⟨single.world, []⟩ :=
    History.ofPlan [some (.create (.int 0))] ⟨start, []⟩ (by decide)
  have hwatch : twofold.watch? "k" = some ⟨"k", .ofList [("a", 0), ("b", 0)]⟩ := rfl
  have ht : single.teardowns.get? "t" = some (.waiting []) := rfl
  obtain ⟨hbegin, -, hheeds⟩ := watcher_called orderly_start (fun _ ↦ rfl) hsingle hwatch
    (by decide) ht onlooker Session.noted
  have hstirring : History (sparing [.ofCell 0 0, .ofCell 0 1]) ⟨watched.world, []⟩ _ _ :=
    History.ofPlan stirring ⟨watched.world, []⟩ (by decide)
  have haccount := (hheeds _ _ hstirring).account
  have hchanged : changedCells ((follow stirring ⟨watched.world, []⟩).1.flatMap Moment.news) =
      [0] := rfl
  refine ⟨hbegin, hchanged, ?_⟩
  have hdone : dues [.ofCell 0 0, .ofCell 0 1] (follow stirring ⟨watched.world, []⟩).2.stack = 0 :=
    rfl
  rw [concerns, hchanged] at haccount
  exact haccount

end Engine.Activity

end LiveTemplate
