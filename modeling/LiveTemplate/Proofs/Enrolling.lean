import LiveTemplate.Proofs.Bindings
import LiveTemplate.Proofs.Merging
import LiveTemplate.Proofs.Watching
import LiveTemplate.Session.Run

/-!
# Watching all that is declared

To watch everything that is declared needs a watcher for each declared watch. If one is missing,
there is an error that names all that are missing, and the session is as it was: nobody has been put
in place or called, and the teardown holds what it held. Otherwise the watchers are enrolled one
after the other, in the order of the declarations, each of them for its own watch (`Enrols`): it is
put in place, the teardown is given its subscriptions, and it is called, before the next is put in
place. What a watcher does as it is called is left open; if it does nothing to the session but to note it,
what comes of all of them can be said in one piece (`Enrols.outcome`).

The watchers are taken out of a table on the way. As no kind is declared twice each is still there
when its turn comes (`enrols_of_beginWatches`), and what the table holds under kinds that are not
declared makes no difference to anything (`beginAllWatches_congr`).
-/

namespace LiveTemplate

/-! ### Kinds and tables -/

theorem OrderedMap.get?_without {α : Type} (m : OrderedMap α) (dropped : List String)
    (key : String) :
    (m.without dropped).get? key = if key ∈ dropped then none else m.get? key := by
  obtain ⟨entries, hnodup⟩ := m
  show (entries.filter fun e ↦ !dropped.contains e.1).lookup key =
    if key ∈ dropped then none else entries.lookup key
  clear hnodup
  induction entries with
  | nil => exact (ite_self _).symm
  | cons e entries ih =>
    obtain ⟨k, a⟩ := e
    by_cases hkey : key = k
    · subst hkey
      by_cases hdropped : key ∈ dropped
      · simpa [hdropped] using ih
      · simp [hdropped]
    · have hne : (key == k) = false := beq_false_of_ne hkey
      by_cases hdropped : k ∈ dropped
      · simpa [hdropped, List.lookup_cons, hne] using ih
      · simpa [hdropped, List.lookup_cons, hne] using ih

namespace Interactions

variable {α β : Type} {i : Interactions α β}

/-- **What is built declares no kind twice.** -/
theorem nodup_watchKinds (h : i.build = .ok i) : i.watchKinds.Nodup :=
  (build_eq_ok_iff.1 h).2.watches

/-- A declared watch is found under its kind. -/
theorem watch?_of_mem (h : i.watchKinds.Nodup) {w : Watch β} (hw : w ∈ i.watches) :
    i.watch? w.kind = some w := (watch?_eq_some_iff h).2 ⟨hw, rfl⟩

/-- The kinds of the declared watches for which a table holds nothing. -/
def unanswered (i : Interactions α β) {γ : Type} (table : OrderedMap γ) : List String :=
  i.watchKinds.filter fun kind ↦ !table.has kind

/-- The declared watches for which a table holds something, each with that. -/
def answered (i : Interactions α β) {γ : Type} (table : OrderedMap γ) : List (Watch β × γ) :=
  i.watches.filterMap fun w ↦ (table.get? w.kind).map fun a ↦ (w, a)

theorem get?_of_mem_answered {γ : Type} {table : OrderedMap γ} {p : Watch β × γ}
    (hp : p ∈ i.answered table) : p.1 ∈ i.watches ∧ table.get? p.1.kind = some p.2 := by
  obtain ⟨w, hw, hfound⟩ := List.mem_filterMap.1 hp
  obtain ⟨a, ha, rfl⟩ := Option.map_eq_some_iff.1 hfound
  exact ⟨hw, ha⟩

/-- If the table holds something for each of them, these are all that are declared. -/
theorem map_fst_answered {γ : Type} {table : OrderedMap γ} (h : i.unanswered table = []) :
    (i.answered table).map Prod.fst = i.watches := by
  have hall : ∀ w ∈ i.watches, ∃ a, table.get? w.kind = some a := fun w hw ↦ by
    have hhas := List.filter_eq_nil_iff.1 h w.kind (List.mem_map_of_mem hw)
    exact Option.ne_none_iff_exists'.1 (by simpa [OrderedMap.has] using hhas)
  rw [answered, List.map_filterMap]
  refine (List.filterMap_congr fun w hw ↦ ?_).trans (List.filterMap_some)
  obtain ⟨a, ha⟩ := hall w hw
  rw [ha]
  rfl

end Interactions

open Engine World Subscription

theorem Engine.Subscription.tickets_append (c : CellId) (subs subs' : List Subscription) :
    tickets c (subs ++ subs') = tickets c subs ++ tickets c subs' := List.filterMap_append

namespace Engine.World

variable {η : Type} {w : World η} {c : CellId}

theorem hasCell_cancelAll (w : World η) (subs : List Subscription) (c : CellId) :
    (w.cancelAll subs).HasCell c ↔ w.HasCell c := by
  induction subs generalizing w with
  | nil => exact Iff.rfl
  | cons sub subs ih =>
    refine (ih (w.cancel sub)).trans ?_
    cases sub with
    | ofCell c' ticket =>
      exact hasCell_modify (f := fun cell ↦
        { cell with observers := cell.observers.filter fun o ↦ o.ticket != ticket }) rfl c
    | _ => exact Iff.rfl

theorem enlists_cancelAll (w : World η) (subs : List Subscription) :
    Enlists w (w.cancelAll subs) := by
  induction subs generalizing w with
  | nil => exact .refl w
  | cons sub subs ih =>
    refine Enlists.trans ?_ (ih (w.cancel sub))
    cases sub with
    | ofCell c ticket => exact enlists_cancel w c ticket
    | _ => exact .of_sublist (Nat.le_refl _) fun _ ↦ .refl _

/-- To stop observing in several ways takes those away that have come for them. -/
theorem observers_cancelAll (w : World η) (subs : List Subscription) (c : CellId) :
    (w.cancelAll subs).observers c = (w.observers c).filter fun o ↦ !o.isFor subs c := by
  induction subs generalizing w with
  | nil => exact (List.filter_eq_self.2 fun _ _ ↦ rfl).symm
  | cons sub subs ih =>
    refine (ih (w.cancel sub)).trans ?_
    cases sub with
    | ofCell c' ticket =>
      rw [observers_cancel]
      split
      · rename_i hc
        subst hc
        rw [List.filter_filter]
        refine List.filter_congr fun o _ ↦ ?_
        by_cases ho : o.ticket = ticket <;> simp [Observer.isFor, ho]
      · rename_i hc
        refine List.filter_congr fun o _ ↦ ?_
        simp [Observer.isFor, hc]
    | _ =>
      refine List.filter_congr fun o _ ↦ ?_
      simp [Observer.isFor]

/-- Whoever observes a cell did so before, or has come with the others. -/
theorem mem_observers_observeEach {role : Role η} {cs : List CellId} {o : Observer η}
    (ho : o ∈ (w.observeEach role cs).2.observers c) : o ∈ w.observers c ∨ o.role = role := by
  induction cs generalizing w with
  | nil => exact .inl ho
  | cons c' cs ih =>
    rcases ih ho with ho | ho
    · rw [observers_observe] at ho
      split at ho
      · refine (List.mem_append.1 ho).imp_right fun ho ↦ ?_
        rw [List.mem_singleton.1 ho]
      · exact .inl ho
    · exact .inr ho

/-- **A watcher that is stopped on the spot** leaves the observers as they were. -/
theorem observers_cancelAll_observeEach (hranked : w.Ranked) {role : Role η} {cs : List CellId}
    (hcs : ∀ c ∈ cs, w.HasCell c) (c : CellId) :
    ((w.observeEach role cs).2.cancelAll (w.observeEach role cs).1).observers c =
      w.observers c := by
  have hold : ∀ o ∈ w.observers c, (!o.isFor (w.observeEach role cs).1 c) = true := fun o ho ↦ by
    rw [Bool.not_eq_true', Bool.eq_false_iff]
    intro hfor
    exact Nat.not_lt.2 (nextTicket_le_of_observeEach (Observer.isFor_iff.1 hfor))
      (hranked.given c o ho)
  have hnew : ∀ o ∈ (tickets c (w.observeEach role cs).1).map fun ticket ↦
      (⟨ticket, role⟩ : Observer η), ¬(!o.isFor (w.observeEach role cs).1 c) = true :=
    fun o ho ↦ by
      obtain ⟨ticket, hticket, rfl⟩ := List.mem_map.1 ho
      rw [Observer.isFor_iff.2 (mem_tickets.1 hticket)]
      exact Bool.false_ne_true
  rw [observers_cancelAll, observers_observeEach hcs, List.filter_append,
    List.filter_eq_self.2 hold, List.filter_eq_nil_iff.2 hnew, List.append_nil]

end Engine.World

namespace Session

/-! ### One after the other -/

/-- Watchers begin one after the other: each is put in place under a teardown and called with all
that its arguments hold, before the next is put in place. -/
inductive Enrols (call : Calling) (teardown : String) :
    List (Watch CellId × Handler) → Session → Session → Prop
  | nil (s : Session) : Enrols call teardown [] s s
  | cons {watch : Watch CellId} {h : Handler} {rest : List (Watch CellId × Handler)}
      {s placed next s' : Session} {t : Teardown} (ht : s.teardowns.get? teardown = some t)
      (hplaced : s.withWatcher teardown t h watch.args = placed)
      (hcall : call h (watch.args.map placed.world.payload) placed = next)
      (hrest : Enrols call teardown rest next s') :
      Enrols call teardown ((watch, h) :: rest) s s'

variable {call : Calling} {i : Interactions CellId CellId} {teardown : String}
  {table table' : OrderedMap Handler}

/-- **Each watcher is taken out of the table for its own watch.** -/
theorem enrols_of_beginWatches {pairs : List (Watch CellId × Handler)}
    (hwatch : ∀ p ∈ pairs, i.watch? p.1.kind = some p.1)
    (hnodup : (pairs.map fun p ↦ p.1.kind).Nodup)
    (htable : ∀ p ∈ pairs, table.get? p.1.kind = some p.2)
    (hkeeps : ∀ p ∈ pairs, ∀ args s, (s.teardowns.get? teardown).isSome →
      ((call p.2 args s).teardowns.get? teardown).isSome)
    (s : Session) (ht : (s.teardowns.get? teardown).isSome) :
    ∃ s', beginWatches call i teardown (pairs.map Prod.fst) table s = (.ok (), s') ∧
      Enrols call teardown pairs s s' := by
  induction pairs generalizing table s with
  | nil => exact ⟨s, rfl, .nil s⟩
  | cons p pairs ih =>
    obtain ⟨watch, h⟩ := p
    obtain ⟨t, ht⟩ := Option.isSome_iff_exists.1 ht
    obtain ⟨hfound, hwatch⟩ := List.forall_mem_cons.1 hwatch
    obtain ⟨hget, htable⟩ := List.forall_mem_cons.1 htable
    obtain ⟨hkept, hkeeps⟩ := List.forall_mem_cons.1 hkeeps
    obtain ⟨hfresh, hnodup⟩ := List.nodup_cons.1 hnodup
    have hplaced : ((s.withWatcher teardown t h watch.args).teardowns.get? teardown).isSome := by
      rw [withWatcher, OrderedMap.get?_insert, if_pos rfl]
      rfl
    -- The others are still in the table, as their kinds are different.
    have hothers : ∀ p ∈ pairs, (table.without [watch.kind]).get? p.1.kind = some p.2 :=
      fun p hp ↦ by
        rw [OrderedMap.get?_without, if_neg fun hmem ↦ ?_]
        · exact htable p hp
        · exact hfresh (List.mem_map.2 ⟨p, hp, List.mem_singleton.1 hmem⟩)
    obtain ⟨s', hs', henrols⟩ := ih hwatch hnodup hothers hkeeps _
      (hkept (watch.args.map (s.withWatcher teardown t h watch.args).world.payload) _ hplaced)
    refine ⟨s', ?_, .cons ht rfl rfl henrols⟩
    rw [List.map_cons, beginWatches, hget]
    exact (Act.bind_of_ok (beginWatch_eq call hfound ht h)).trans hs'

/-- **What a table holds under other kinds makes no difference.** -/
theorem beginWatches_congr {ws : List (Watch CellId)}
    (h : ∀ w ∈ ws, table'.get? w.kind = table.get? w.kind) :
    beginWatches call i teardown ws table' = beginWatches call i teardown ws table := by
  induction ws generalizing table table' with
  | nil => rfl
  | cons w ws ih =>
    obtain ⟨hfirst, hrest⟩ := List.forall_mem_cons.1 h
    have hothers : ∀ v ∈ ws, (table'.without [w.kind]).get? v.kind =
        (table.without [w.kind]).get? v.kind := fun v hv ↦ by
      rw [OrderedMap.get?_without, OrderedMap.get?_without, hrest v hv]
    rw [beginWatches, beginWatches, hfirst, ih hrest, ih hothers]

theorem beginAllWatches_congr
    (h : ∀ kind ∈ i.watchKinds, table'.get? kind = table.get? kind) :
    beginAllWatches call i table' teardown = beginAllWatches call i table teardown := by
  have hmissing : i.watchKinds.filter (fun kind ↦ !table'.has kind) =
      i.watchKinds.filter fun kind ↦ !table.has kind :=
    List.filter_congr fun kind hkind ↦ by rw [OrderedMap.has, OrderedMap.has, h kind hkind]
  have hbegin : beginWatches call i teardown i.watches table' =
      beginWatches call i teardown i.watches table :=
    beginWatches_congr fun w hw ↦ h w.kind (List.mem_map_of_mem hw)
  unfold beginAllWatches
  rw [hmissing, hbegin]

/-- **Without all watchers nothing is begun.** -/
theorem beginAllWatches_of_unanswered (h : i.unanswered table ≠ []) (s : Session) :
    beginAllWatches call i table teardown s =
      (.error (.problem (.unansweredWatches (i.unanswered table))), s) := by
  have hne : (!(i.watchKinds.filter fun kind ↦ !table.has kind).isEmpty) = true := by
    rw [Bool.not_eq_true', List.isEmpty_eq_false_iff]
    exact h
  unfold beginAllWatches
  dsimp only
  rw [if_pos hne]
  rfl

theorem beginAllWatches_of_answered (h : i.unanswered table = []) :
    beginAllWatches call i table teardown =
      beginWatches call i teardown i.watches table := by
  have hnil : (!(i.watchKinds.filter fun kind ↦ !table.has kind).isEmpty) = false := by
    rw [Bool.not_eq_false', List.isEmpty_iff]
    exact h
  unfold beginAllWatches
  dsimp only
  rw [if_neg (Bool.eq_false_iff.1 hnil)]

/-! ### Watchers that do nothing at once -/

section Noted

variable {pairs : List (Watch CellId × Handler)} {s s' : Session}

theorem payload_withWatcher (s : Session) (teardown : String) (t : Teardown) (h : Handler)
    (args : ValueMap) : (s.withWatcher teardown t h args).world.payload = s.world.payload := by
  funext c
  cases t with
  | waiting held =>
    show (s.world.watch h args).2.payload c = _
    rw [watch_eq, payload_observeEach]
  | fired =>
    show ((s.world.watch h args).2.cancelAll _).payload c = _
    rw [payload_cancelAll, watch_eq, payload_observeEach]

theorem get?_withWatcher (s : Session) (teardown : String) (t : Teardown) (h : Handler)
    (args : ValueMap) : (s.withWatcher teardown t h args).teardowns.get? teardown =
      some (t.hold (s.world.watch h args).1 (s.world.watch h args).2).1 :=
  (OrderedMap.get?_insert _ _ _ _).trans (if_pos rfl)

/-- **Each watcher is called once**, in order, with all that its arguments hold. -/
theorem Enrols.told (h : Enrols noted teardown pairs s s') :
    (s'.log = s.log ++
        pairs.map fun p ↦ .told p.2.name (.arguments (p.1.args.map s.world.payload))) ∧
      s'.world.payload = s.world.payload := by
  induction h with
  | nil => exact ⟨(List.append_nil _).symm, rfl⟩
  | @cons watch h rest s placed next s' t _ hplaced hcall _ ih =>
    obtain ⟨hlog, hpayload⟩ := ih
    subst hplaced hcall
    have hnext : (noted h (watch.args.map (s.withWatcher teardown t h watch.args).world.payload)
        (s.withWatcher teardown t h watch.args)).world.payload = s.world.payload :=
      payload_withWatcher s teardown t h watch.args
    rw [hnext] at hlog hpayload
    refine ⟨hlog.trans ?_, hpayload⟩
    rw [noted, payload_withWatcher, List.append_assoc]
    rfl

/-- **A teardown that waits holds all that comes**, which is: to each cell as many observers for
each watcher as entries of its map hold the cell, in the order of the watchers. -/
theorem Enrols.held {held : List Subscription} (h : Enrols noted teardown pairs s s')
    (hcells : ∀ p ∈ pairs, ∀ c ∈ p.1.args.values, s.world.HasCell c)
    (ht : s.teardowns.get? teardown = some (.waiting held)) :
    ∃ subs, s'.teardowns.get? teardown = some (.waiting (held ++ subs)) ∧
      ∀ c, ∃ added, s'.world.observers c = s.world.observers c ++ added ∧
        added.map Observer.ticket = tickets c subs ∧
        added.map Observer.role = pairs.flatMap fun p ↦
          List.replicate (p.1.args.values.count c) (.watcher p.2 p.1.args) := by
  induction h generalizing held with
  | nil =>
    exact ⟨[], by rw [ht, List.append_nil], fun c ↦ ⟨[], (List.append_nil _).symm, rfl, rfl⟩⟩
  | @cons watch h rest s placed next s' t ht' hplaced hcall _ ih =>
    obtain ⟨hargs, hrest⟩ := List.forall_mem_cons.1 hcells
    obtain rfl : .waiting held = t := Option.some.inj (ht.symm.trans ht')
    have hworld : next.world = (s.world.watch h watch.args).2 := by
      rw [← hcall, ← hplaced]
      rfl
    have hteardown : next.teardowns.get? teardown =
        some (.waiting (held ++ (s.world.watch h watch.args).1)) := by
      rw [← hcall, ← hplaced]
      exact get?_withWatcher s teardown (.waiting held) h watch.args
    obtain ⟨subs, hheld, hobservers⟩ := ih (fun p hp c hc ↦ by
      rw [hworld, watch_eq, hasCell_observeEach]
      exact hrest p hp c hc) hteardown
    refine ⟨(s.world.watch h watch.args).1 ++ subs, by rw [hheld, List.append_assoc], fun c ↦ ?_⟩
    obtain ⟨added, heq, htickets, hroles⟩ := hobservers c
    rw [hworld, watch_eq, observers_observeEach hargs, List.append_assoc] at heq
    refine ⟨_, heq, ?_, ?_⟩
    · rw [List.map_append, htickets, List.map_map, tickets_append, watch_eq]
      exact congrArg (· ++ _) (List.map_id _)
    · rw [List.map_append, hroles, List.map_map, List.flatMap_cons,
        ← length_tickets_observeEach s.world (.watcher h watch.args), ← List.map_const']
      rfl

/-- **Under a teardown that has fired nobody stays.** -/
theorem Enrols.dismissed (h : Enrols noted teardown pairs s s') (hranked : s.world.Ranked)
    (hcells : ∀ p ∈ pairs, ∀ c ∈ p.1.args.values, s.world.HasCell c)
    (ht : s.teardowns.get? teardown = some .fired) :
    s'.teardowns.get? teardown = some .fired ∧
      ∀ c, s'.world.observers c = s.world.observers c := by
  induction h with
  | nil => exact ⟨ht, fun _ ↦ rfl⟩
  | @cons watch h rest s placed next s' t ht' hplaced hcall _ ih =>
    obtain ⟨hargs, hrest⟩ := List.forall_mem_cons.1 hcells
    obtain rfl : .fired = t := Option.some.inj (ht.symm.trans ht')
    have hworld : next.world =
        (s.world.watch h watch.args).2.cancelAll (s.world.watch h watch.args).1 := by
      rw [← hcall, ← hplaced]
      rfl
    have hteardown : next.teardowns.get? teardown = some .fired := by
      rw [← hcall, ← hplaced]
      exact get?_withWatcher s teardown .fired h watch.args
    rw [watch_eq] at hworld
    have hsame : ∀ c, next.world.observers c = s.world.observers c := fun c ↦ by
      rw [hworld, observers_cancelAll_observeEach hranked hargs]
    have henlists : Enlists s.world next.world := by
      rw [hworld]
      exact (enlists_observeEach s.world _ _).trans (enlists_cancelAll _ _)
    obtain ⟨hfired, hobservers⟩ := ih (hranked.enlists henlists) (fun p hp c hc ↦ by
      rw [hworld, hasCell_cancelAll, hasCell_observeEach]
      exact hrest p hp c hc) hteardown
    exact ⟨hfired, fun c ↦ (hobservers c).trans (hsame c)⟩

/-- **Whoever observes a cell did so before**, or is one of the watchers. -/
theorem Enrols.mem_observers (h : Enrols noted teardown pairs s s') {c : CellId}
    {o : Observer Handler} (ho : o ∈ s'.world.observers c) :
    o ∈ s.world.observers c ∨ ∃ p ∈ pairs, o.role = .watcher p.2 p.1.args := by
  induction h with
  | nil => exact .inl ho
  | @cons watch h rest s placed next s' t _ hplaced hcall _ ih =>
    cases hcall
    rcases ih ho with ho | ⟨p, hp, hrole⟩
    · have hwatched : o ∈ (s.world.watch h watch.args).2.observers c := by
        rw [← hplaced] at ho
        cases t with
        | waiting held => exact ho
        | fired => exact (observers_cancelAll_sublist _ _ c).subset ho
      rw [watch_eq] at hwatched
      exact (mem_observers_observeEach hwatched).imp_right fun hrole ↦
        ⟨(watch, h), List.mem_cons_self, hrole⟩
    · exact .inr ⟨p, List.mem_cons_of_mem _ hp, hrole⟩

end Noted

/-! ### All or none -/

/-- What comes of watching all that is declared, with the watchers in a table. -/
structure AllOrNone (call : Calling) (i : Interactions CellId CellId) (table : OrderedMap Handler)
    (teardown : String) (s : Session) : Prop where
  /-- If watchers are missing there is an error, and the session that is left is the one before:
  with the same log, the same observers of each cell, and teardowns that hold the same. As this is
  so whatever it comes to that a watcher is called, none has been called. -/
  none : i.unanswered table ≠ [] → beginAllWatches call i table teardown s =
    (.error (.problem (.unansweredWatches (i.unanswered table))), s)
  /-- Otherwise each declared watch has its watcher, and they are enrolled in the order in which the
  watches are declared, if the teardown is there and none of them takes it away. -/
  all : i.unanswered table = [] → (i.answered table).map Prod.fst = i.watches ∧
    ((s.teardowns.get? teardown).isSome →
      (∀ p ∈ i.answered table, ∀ args s, (s.teardowns.get? teardown).isSome →
        ((call p.2 args s).teardowns.get? teardown).isSome) →
      ∃ s', beginAllWatches call i table teardown s = (.ok (), s') ∧
        Enrols call teardown (i.answered table) s s')
  /-- What the table holds under kinds that are not declared makes no difference to what comes of
  it, and so to nothing that is done later. -/
  others : ∀ table', (∀ kind ∈ i.watchKinds, table'.get? kind = table.get? kind) →
    beginAllWatches call i table' teardown s = beginAllWatches call i table teardown s

theorem allOrNone (hbuild : i.build = .ok i) (call : Calling) (table : OrderedMap Handler)
    (teardown : String) (s : Session) : AllOrNone call i table teardown s where
  none := fun h ↦ beginAllWatches_of_unanswered h s
  all := fun h ↦ by
    have hkinds := Interactions.nodup_watchKinds hbuild
    refine ⟨Interactions.map_fst_answered h, fun ht hkeeps ↦ ?_⟩
    have hpairs : ((i.answered table).map fun p ↦ p.1.kind) = i.watchKinds := by
      rw [Interactions.watchKinds, ← Interactions.map_fst_answered h, List.map_map]
      rfl
    rw [beginAllWatches_of_answered h, ← Interactions.map_fst_answered h]
    exact enrols_of_beginWatches
      (fun p hp ↦ Interactions.watch?_of_mem hkinds (Interactions.get?_of_mem_answered hp).1)
      (hpairs ▸ hkinds) (fun p hp ↦ (Interactions.get?_of_mem_answered hp).2) hkeeps s ht
  others := fun table' h ↦ congrFun (beginAllWatches_congr h) s

/-- What has come of watchers that did nothing as they were called. -/
structure Outcome (pairs : List (Watch CellId × Handler)) (teardown : String) (s s' : Session) :
    Prop where
  /-- Each has been called once, in order, with all that its arguments hold. -/
  told : s'.log = s.log ++
    pairs.map fun p ↦ .told p.2.name (.arguments (p.1.args.map s.world.payload))
  payload : s'.world.payload = s.world.payload
  /-- A teardown that waits holds all that have come, which is, to each cell, as many observers for
  each of them as entries of its map hold the cell. -/
  held : ∀ held, s.teardowns.get? teardown = some (.waiting held) →
    ∃ subs, s'.teardowns.get? teardown = some (.waiting (held ++ subs)) ∧
      ∀ c, ∃ added, s'.world.observers c = s.world.observers c ++ added ∧
        added.map Observer.ticket = tickets c subs ∧
        added.map Observer.role = pairs.flatMap fun p ↦
          List.replicate (p.1.args.values.count c) (.watcher p.2 p.1.args)
  /-- Under a teardown that has fired nobody stays. -/
  dismissed : s.teardowns.get? teardown = some .fired →
    s'.teardowns.get? teardown = some .fired ∧
      ∀ c, s'.world.observers c = s.world.observers c
  /-- Whatever goes on after that, of those who have come so far nobody observes a cell but who did
  so before, and these watchers. -/
  later : s'.world.Orderly → ∀ stack es b, Activity.Run Activity.anything ⟨s'.world, stack⟩ es b →
    ∀ c, ∀ o ∈ b.world.observers c, o.ticket < s'.world.nextTicket →
      o ∈ s.world.observers c ∨ ∃ p ∈ pairs, o.role = .watcher p.2 p.1.args

theorem Enrols.outcome {pairs : List (Watch CellId × Handler)} {s s' : Session}
    (h : Enrols noted teardown pairs s s') (hranked : s.world.Ranked)
    (hcells : ∀ p ∈ pairs, ∀ c ∈ p.1.args.values, s.world.HasCell c) :
    Outcome pairs teardown s s' where
  told := h.told.1
  payload := h.told.2
  held := fun _ ht ↦ h.held hcells ht
  dismissed := fun ht ↦ h.dismissed hranked hcells ht
  later := fun horder _ _ _ hrun _ _ ho hticket ↦
    h.mem_observers (((hrun.enlists horder).mem ho).resolve_right (Nat.not_le.2 hticket))

/-- The watchers of a command to watch all that is declared: each notes what it is told. -/
def noters (kinds : List String) : OrderedMap Handler :=
  .ofList (kinds.map fun kind ↦ (kind, ⟨some kind, []⟩))

theorem unanswered_noters (i : Interactions CellId CellId) (kinds : List String) :
    i.unanswered (noters kinds) = i.watchKinds.filter fun kind ↦ !kinds.contains kind := by
  refine List.filter_congr fun kind _ ↦ congrArg (!·) (Bool.eq_iff_iff.2 ?_)
  have hkeys : (noters kinds).keys = kinds.eraseDups := by
    rw [noters, OrderedMap.keys_ofList, List.map_map]
    exact congrArg _ (List.map_id kinds)
  rw [OrderedMap.has, ← OrderedMap.mem_keys_iff, hkeys, List.mem_eraseDups, List.contains_iff_mem]

/-- **A command to watch all that is declared**, with some watchers missing, leaves the session as
it is, its log included: all there is to it is the problem as a reply. -/
theorem enter_watchAll {r : Run} {kinds : List String} (hi : r.session.interactions = some i)
    (h : i.watchKinds.filter (fun kind ↦ !kinds.contains kind) ≠ []) (label : Option String) :
    r.enter label (.interactions (.watchAll kinds teardown)) =
      { r with frames := .reply label (.ready (.problem (.unansweredWatches
          (i.watchKinds.filter fun kind ↦ !kinds.contains kind)))) [] :: r.frames } := by
  rw [← unanswered_noters] at h ⊢
  have hrun : ∀ inHand, (Command.interactions (.watchAll kinds teardown)).run inHand r.session =
      (.error (.problem (.unansweredWatches (i.unanswered (noters kinds)))), r.session) :=
    fun inHand ↦ (Act.bind_of_ok (declared_of_some hi)).trans
      (Act.bind_of_error (beginAllWatches_of_unanswered h r.session))
  rw [Run.enter, hrun]
  rfl

/-- **All that is declared is watched, or nothing.** Let interactions have been built, and let there
be a table of watchers. If one is missing there is an error that names all that are missing, in the
order of the declarations, and the session is left as it was: nobody has been called, nobody has
come to observe, and no teardown holds anything new. A session that is asked to do so replies with
that error. Otherwise each declared watch is begun once, in order and with its own watcher. What else
the table holds makes no difference. -/
theorem watch_all_or_none (hbuild : i.build = .ok i) (call : Calling) (table : OrderedMap Handler)
    (teardown : String) (s : Session) :
    AllOrNone call i table teardown s ∧
      (∀ s', Enrols noted teardown (i.answered table) s s' → s.world.Ranked →
        (∀ w ∈ i.watches, ∀ c ∈ w.args.values, s.world.HasCell c) →
          Outcome (i.answered table) teardown s s') ∧
      (∀ missing, (Problem.unansweredWatches missing).severity = .error ∧
        (Problem.unansweredWatches missing).message =
          "no callback for watch " ++ quotedNames missing) ∧
      ∀ (r : Run) (kinds : List String) (label : Option String),
        r.session.interactions = some i →
          i.watchKinds.filter (fun kind ↦ !kinds.contains kind) ≠ [] →
            r.enter label (.interactions (.watchAll kinds teardown)) =
              { r with frames := .reply label (.ready (.problem (.unansweredWatches
                  (i.watchKinds.filter fun kind ↦ !kinds.contains kind)))) [] :: r.frames } :=
  ⟨allOrNone hbuild call table teardown s,
    fun _ h hranked hcells ↦ h.outcome hranked fun p hp ↦
      hcells p.1 (Interactions.get?_of_mem_answered hp).1,
    fun _ ↦ ⟨rfl, rfl⟩, fun _ _ label hi h ↦ enter_watchAll hi h label⟩

/-! ### Two watches of one number -/

/-- Two watches of the number of `Activity.single`. -/
def paired : Interactions CellId CellId :=
  ⟨[], [], [⟨"k", .ofList [("a", 0)]⟩, ⟨"l", .ofList [("b", 0)]⟩]⟩

/-- A table with a watcher for each of them, and one for something that is not declared. -/
def attendants : OrderedMap Handler :=
  .ofList [("l", ⟨some "second", []⟩), ("m", ⟨some "idle", []⟩), ("k", ⟨some "first", []⟩)]

/-- Both watchers are called, in the order of the declarations; without the second none is, and the
error names its watch. -/
theorem watch_all_or_none_paired :
    (∃ s', beginAllWatches noted paired attendants "t" Activity.single = (.ok (), s') ∧
      s'.log = [.told (some "first") (.arguments (.ofList [("a", .int 0)])),
        .told (some "second") (.arguments (.ofList [("b", .int 0)]))]) ∧
      beginAllWatches noted paired (attendants.without ["l"]) "t" Activity.single =
        (.error (.problem (.unansweredWatches ["l"])), Activity.single) := by
  have hbuild : paired.build = .ok paired := rfl
  obtain ⟨hboth, houtcome, -⟩ := watch_all_or_none hbuild noted attendants "t" Activity.single
  obtain ⟨hone, -⟩ := watch_all_or_none hbuild noted (attendants.without ["l"]) "t" Activity.single
  constructor
  · obtain ⟨-, hall⟩ := hboth.all rfl
    obtain ⟨s', hs', henrols⟩ := hall rfl fun _ _ _ _ ht ↦ ht
    have hranked : Activity.single.world.Ranked := ranked_of_bare fun c ↦
      observers_create orderly_start (.int 0) c
    exact ⟨s', hs', (houtcome s' henrols hranked (by decide)).told⟩
  · exact hone.none (List.cons_ne_nil _ _)

end Session

end LiveTemplate
