import LiveTemplate.Proofs.Alternation
import Mathlib.Data.Nat.Bits

/-!
# Turns that overtake each other

If a handler that is told of a turn makes the signal turn once more, the subscribers that come after
it are told of the later turn first and of the earlier one afterwards. In which order a subscriber is
told of the turns can be read off from what happens, as of those that it has not been told of it is
told the latest first (`Tally`). What it hears are the truths after these turns, in that order; so it
hears the signal alternate, and in the end what the signal is, as far as that order allows
(`heard_of_subscribe`). If it is always told of one turn before the next, that is the order of the
turns.
-/

namespace LiveTemplate.Engine

variable {η : Type}

open World

/-- The turns of a signal, by their numbers, as a subscriber is told of them: how many there have
been, those that it has been told of in the order in which it was, and those that it has not been
told of, the latest first. -/
structure Tally where
  turns : Nat
  told : List Nat
  untold : List Nat
  deriving DecidableEq

namespace Tally

/-- The signal turns. -/
def turn (k : Tally) : Tally := ⟨k.turns + 1, k.told, (k.turns + 1) :: k.untold⟩

/-- The subscriber is told of the latest turn that it has not been told of. -/
def tell (k : Tally) : Tally := ⟨k.turns, k.told ++ k.untold.head?.toList, k.untold.tail⟩

/-- The tally after something that happens. -/
def enter (s : SignalId) (t : Ticket) (k : Tally) : Happening → Tally
  | .turned s' _ => if s' = s then k.turn else k
  | .told s' t' _ => if s' = s ∧ t' = t then k.tell else k
  | _ => k

end Tally

/-- The tally of what has happened since someone has subscribed. -/
def tally (s : SignalId) (t : Ticket) (es : List Happening) : Tally :=
  es.foldl (Tally.enter s t) ⟨0, [], []⟩

/-- The signal never turns while a subscriber has not been told of an earlier turn. -/
def InTurn (s : SignalId) (t : Ticket) (es : List Happening) : Prop :=
  ∀ es₁ x es₂, es = es₁ ++ .turned s x :: es₂ → (tally s t es₁).untold = []

/-- The truth of a signal after a number of turns, if it was `r` before. -/
def afterTurns (r : Bool) (n : Nat) : Bool := r ^^ n.bodd

@[simp] theorem Tally.turns_tell (k : Tally) : k.tell.turns = k.turns := rfl

/-- Who is told of a turn is told of one that he had not been told of. -/
theorem Tally.told_append_untold_tell (k : Tally) :
    k.tell.told ++ k.tell.untold = k.told ++ k.untold := by
  rw [tell, List.append_assoc]
  cases k.untold <;> rfl

theorem afterTurns_zero (r : Bool) : afterTurns r 0 = r := Bool.xor_false r

theorem afterTurns_succ (r : Bool) (n : Nat) : afterTurns r (n + 1) = !afterTurns r n := by
  rw [afterTurns, Nat.bodd_succ, Bool.xor_not]
  rfl

theorem afterTurns_inj {r : Bool} {m n : Nat} :
    afterTurns r m = afterTurns r n ↔ m.bodd = n.bodd := Bool.xor_right_inj

/-! ### The order of the turns -/

section Order

variable {s : SignalId} {t : Ticket} {es : List Happening}

theorem tally_append (es es' : List Happening) :
    tally s t (es ++ es') = es'.foldl (Tally.enter s t) (tally s t es) := List.foldl_append

/-- Only what is to the subscriber is entered. -/
theorem foldl_enter_concerning (k : Tally) (es : List Happening) :
    (concerning s t es).foldl (Tally.enter s t) k = es.foldl (Tally.enter s t) k := by
  have henter : ∀ k e, (if Happening.concerns s t e = true then Tally.enter s t k e else k) =
      Tally.enter s t k e := by
    intro k e
    cases e <;> simp +contextual [Happening.concerns, Tally.enter]
  rw [concerning, List.foldl_filter]
  simp only [henter]

/-- **Every turn is told of once**, or is still to be told of. -/
theorem perm_tally (es : List Happening) :
    ((tally s t es).told ++ (tally s t es).untold).Perm (List.range' 1 (tally s t es).turns) := by
  induction es using List.reverseRecOn with
  | nil => exact .refl _
  | append_singleton es e ih =>
    have hturn : ((tally s t es).turn.told ++ (tally s t es).turn.untold).Perm
        (List.range' 1 (tally s t es).turn.turns) := by
      rw [Tally.turn, List.range'_1_concat, Nat.add_comm 1]
      exact List.perm_middle.trans ((ih.cons _).trans (List.perm_append_singleton _ _).symm)
    rw [tally_append]
    cases e with
    | turned s' x =>
      by_cases hs : s' = s
      · simpa [Tally.enter, hs] using hturn
      · simpa [Tally.enter, hs] using ih
    | told s' t' x =>
      by_cases hs : s' = s ∧ t' = t
      · simpa [Tally.enter, hs, Tally.told_append_untold_tell] using ih
      · simpa [Tally.enter, hs] using ih
    | _ => exact ih

theorem InTurn.of_append {es' : List Happening} (h : InTurn s t (es ++ es')) : InTurn s t es :=
  fun es₁ x es₂ heq ↦ h es₁ x (es₂ ++ es') (by rw [heq, List.append_assoc]; rfl)

/-- **Turns that do not overtake each other are told of in order.** -/
theorem InTurn.told_append_untold (h : InTurn s t es) :
    (tally s t es).told ++ (tally s t es).untold = List.range' 1 (tally s t es).turns := by
  induction es using List.reverseRecOn with
  | nil => rfl
  | append_singleton es e ih =>
    have ih := ih h.of_append
    rw [tally_append]
    cases e with
    | turned s' x =>
      by_cases hs : s' = s
      · subst hs
        have hnone : (tally s' t es).untold = [] := h es x [] rfl
        rw [hnone, List.append_nil] at ih
        simp only [List.foldl_cons, List.foldl_nil, Tally.enter, if_pos, Tally.turn, hnone, ih]
        rw [List.range'_1_concat, Nat.add_comm 1]
      · simpa [Tally.enter, hs] using ih
    | told s' t' x =>
      by_cases hs : s' = s ∧ t' = t
      · simpa [Tally.enter, hs, Tally.told_append_untold_tell] using ih
      · simpa [Tally.enter, hs] using ih
    | _ => exact ih

end Order

namespace Activity

variable {may : Activity η → Deed η → Prop} {a b : Activity η} {es es' : List Happening}
  {s : SignalId} {t : Ticket} {r : Bool}

/-! ### What a subscriber hears -/

/-- The tally says what a subscriber hears and what it is owed, and how the signal stands, if that
was `r` as it subscribed. -/
structure Tallied (s : SignalId) (t : Ticket) (r : Bool) (es : List Happening) (a : Activity η) :
    Prop where
  given : s < a.world.signals.next
  ticket : t < a.world.nextTicket
  truth : a.world.subscribes s t = true → a.world.truth s = afterTurns r (tally s t es).turns
  heard : a.world.subscribes s t = true → heard s t es = (tally s t es).told.map (afterTurns r)
  owed : a.world.subscribes s t = true →
    owed s t a.stack = (tally s t es).untold.map (afterTurns r)

theorem tallied_subscribe {w : World η} {stack : List (Work η)} (ho : w.Orderly)
    (ht : Ticketed ⟨w, stack⟩) (hs : w.Lives s) (h : η) :
    Tallied s w.nextTicket (w.truth s) [] ⟨(w.subscribe s h).2, stack⟩ where
  given := by
    obtain ⟨sig, hsig⟩ := Option.isSome_iff_exists.1 hs
    exact ho.signals s sig hsig
  ticket := Nat.lt_succ_self _
  truth := fun hsub ↦ by
    obtain ⟨sig', hsig', -⟩ := subscribes_iff.1 hsub
    obtain ⟨sig, hsig, hcircuit⟩ := circuit_of_subscribe hsig'
    exact (truth_of_circuit hsig hsig' hcircuit).trans (afterTurns_zero _).symm
  heard := fun _ ↦ rfl
  owed := fun _ ↦ ht.owed_eq_nil (Nat.le_refl _)

/-- A signal with a subscriber turns into what it was not, if at all. -/
theorem truth_of_turnings (h : Change may a es b) (hs : s < a.world.signals.next)
    (hsub : b.world.subscribes s t = true) :
    (turnings s es = [] ∧ b.world.truth s = a.world.truth s) ∨
      (turnings s es = [!a.world.truth s] ∧ b.world.truth s = !a.world.truth s) := by
  obtain ⟨sig, hsig, -⟩ := subscribes_iff.1 hsub
  have hlives : b.world.Lives s := Option.isSome_iff_exists.2 ⟨sig, hsig⟩
  rcases turned_of_change h hs with ⟨hnone, htruth⟩ | ⟨hone, hne⟩
  · exact .inl ⟨hnone, htruth hlives⟩
  · have hnot : b.world.truth s = !a.world.truth s := Bool.eq_not.2 hne
    exact .inr ⟨hnot ▸ hone, hnot⟩

theorem tallied_change (ho : a.world.Orderly) (ha : Tallied s t r es a) (h : Change may a es' b) :
    Tallied s t r (es ++ es') b := by
  have hlater : b.world.subscribes s t = true →
      b.world.truth s = afterTurns r (tally s t (es ++ es')).turns ∧
        Engine.heard s t (es ++ es') = (tally s t (es ++ es')).told.map (afterTurns r) ∧
          Engine.owed s t b.stack = (tally s t (es ++ es')).untold.map (afterTurns r) := by
    intro hsub
    have hsub' := subscribes_of_change h ha.ticket hsub
    have htruth := truth_of_turnings h ha.given hsub
    rw [ha.truth hsub', ← turnings_concerning (t := t)] at htruth
    rw [tally_append, ← foldl_enter_concerning, heard_append, ha.heard hsub',
      ← heard_concerning es']
    rcases concerning_of_change ho h ha.ticket hsub with
      ⟨hes, howed⟩ | ⟨x, hes, howed⟩ | ⟨x, hes, howed⟩
    · rw [hes] at htruth ⊢
      have htruth := (htruth.resolve_right fun h ↦ by cases h.1).2
      exact ⟨htruth, List.append_nil _, howed.trans (ha.owed hsub')⟩
    · -- The signal has turned, and the subscriber is owed that turn before all others.
      have hturnings : turnings s [.turned s x] = [x] := by simp [turnings]
      rw [hes, hturnings] at htruth
      obtain ⟨hx, htruth⟩ := htruth.resolve_left fun h ↦ by cases h.1
      rw [List.cons.injEq, ← afterTurns_succ] at hx
      rw [← afterTurns_succ] at htruth
      rw [hes, howed, ha.owed hsub', hx.1]
      simp [Tally.enter, Tally.turn, htruth, Engine.heard]
    · have hturnings : turnings s [.told s t x] = [] := by simp [turnings]
      rw [hes, hturnings] at htruth
      have htruth := (htruth.resolve_right fun h ↦ by cases h.1).2
      rw [ha.owed hsub'] at howed
      obtain ⟨n, rest, huntold, rfl, hrest⟩ := List.map_eq_cons_iff.1 howed
      rw [hes, ← hrest]
      simp [Tally.enter, Tally.tell, htruth, Engine.heard, huntold]
  exact ⟨Nat.lt_of_lt_of_le ha.given (next_of_change h),
    Nat.lt_of_lt_of_le ha.ticket (tickets_of_change h), fun hsub ↦ (hlater hsub).1,
    fun hsub ↦ (hlater hsub).2.1, fun hsub ↦ (hlater hsub).2.2⟩

theorem Run.tallied {w : World η} {stack : List (Work η)} {k : η}
    (h : Run may ⟨(w.subscribe s k).2, stack⟩ es a) (ho : w.Orderly) (ht : Ticketed ⟨w, stack⟩)
    (hs : w.Lives s) : Tallied s w.nextTicket (w.truth s) es a :=
  h.keepsLog (fun ho ha hchange ↦ tallied_change ho ha hchange) (ho.subscribe s k)
    (tallied_subscribe ho ht hs k)

theorem Run.ticketed (h : Run may a es b) (ho : a.world.Orderly) (ha : Ticketed a) : Ticketed b :=
  h.keeps (fun ho ha hchange ↦ ticketed_change ho ha hchange) ho ha

/-- Numbers one after the other are even and odd by turns. -/
theorem isChain_bodd_range' (m n : Nat) :
    (List.range' m n).IsChain fun i j ↦ i.bodd ≠ j.bodd := by
  refine (List.isChain_range' m n 1).imp fun i j hij ↦ ?_
  rw [hij, Nat.bodd_succ]
  simp

/-- **What a subscriber hears of a signal**, from what it is told as it subscribes, in any run. At
every moment it has heard the truths after the turns that it has been told of, each once, and is
owed those after the others, the latest first. So it hears the signal alternate if and only if the
numbers of these turns are even and odd by turns; and once it is owed nothing, what it heard last is
how the signal stands if and only if the turn that it was told of last and the last turn are both
even or both odd. Both are so if the signal never turns while the subscriber has not been told of an
earlier turn. -/
theorem heard_of_subscribe {w : World η} {stack : List (Work η)} {k : η} {before : List Happening}
    (hbefore : Run anything ⟨.start, []⟩ before ⟨w, stack⟩) (hs : w.Lives s)
    (hrun : Run anything ⟨(w.subscribe s k).2, stack⟩ es a)
    (hsub : a.world.subscribes s w.nextTicket = true) :
    let r := w.truth s
    let k := tally s w.nextTicket es
    heard s w.nextTicket es = k.told.map (afterTurns r) ∧
      owed s w.nextTicket a.stack = k.untold.map (afterTurns r) ∧
      (k.told ++ k.untold).Perm (List.range' 1 k.turns) ∧
      ((r :: heard s w.nextTicket es).IsChain (· ≠ ·) ↔
        (0 :: k.told).IsChain fun m n ↦ m.bodd ≠ n.bodd) ∧
      (owed s w.nextTicket a.stack = [] →
        ((r :: heard s w.nextTicket es).getLast? = some (a.world.truth s) ↔
          (k.told.getLastD 0).bodd = k.turns.bodd)) ∧
      (InTurn s w.nextTicket es → (r :: heard s w.nextTicket es).IsChain (· ≠ ·) ∧
        (owed s w.nextTicket a.stack = [] →
          (r :: heard s w.nextTicket es).getLast? = some (a.world.truth s))) := by
  intro r k
  have ho := hbefore.orderly orderly_start
  have ht := hbefore.ticketed orderly_start (ticketed_nil _)
  have hall := hrun.tallied ho ht hs
  have hheard : heard s w.nextTicket es = k.told.map (afterTurns r) := hall.heard hsub
  have howed : owed s w.nextTicket a.stack = k.untold.map (afterTurns r) := hall.owed hsub
  have hreplay : r :: heard s w.nextTicket es = (0 :: k.told).map (afterTurns r) := by
    rw [hheard, List.map_cons, afterTurns_zero]
  have hchain : (r :: heard s w.nextTicket es).IsChain (· ≠ ·) ↔
      (0 :: k.told).IsChain fun m n ↦ m.bodd ≠ n.bodd := by
    rw [hreplay, List.isChain_map]
    simp only [ne_eq, afterTurns_inj]
  have hlast : (r :: heard s w.nextTicket es).getLast? = some (a.world.truth s) ↔
      (k.told.getLastD 0).bodd = k.turns.bodd := by
    rw [hreplay, List.getLast?_map, List.getLast?_cons, ← List.getLastD_eq_getLast?, hall.truth hsub,
      Option.map_some, Option.some.injEq, afterTurns_inj]
  refine ⟨hheard, howed, perm_tally es, hchain, fun _ ↦ hlast, fun hturn ↦ ⟨hchain.2 ?_, fun hnone ↦
    hlast.2 ?_⟩⟩
  · have hall := isChain_bodd_range' 0 (k.turns + 1)
    rw [List.range'_succ, ← hturn.told_append_untold, ← List.cons_append] at hall
    exact hall.left_of_append
  · have htold := hturn.told_append_untold
    rw [List.map_eq_nil_iff.1 (howed.symm.trans hnone), List.append_nil] at htold
    rw [htold]
    cases k.turns with
    | zero => rfl
    | succ n => rw [List.range'_1_concat, List.getLastD_concat, Nat.add_comm]

/-! ### A turn in the middle of another -/

/-- Whether a cell holds what another does. -/
def matching : Formula (Term CellId) := .term (.relation .equals 0 1)

/-- A world with two cells and a signal for whether they hold the same, and a first subscriber. -/
def watchful : World Unit :=
  ((((start.create (.int 0)).2.create (.int 1)).2.openSignal matching).2.subscribe 0 ()).2

theorem hasCell_matching : ∀ t ∈ matching.terms, ∀ c ∈ t.operands,
    ((start.create (η := Unit) (.int 0)).2.create (.int 1)).2.HasCell c := by
  decide

/-- A second has subscribed, a cell has changed, and the first is being told of the turn. -/
def alerted : Activity Unit :=
  (turns 2 ⟨((watchful.subscribe 0 ()).2.write 0 (.int 1)).2.1,
    ((watchful.subscribe 0 ()).2.write 0 (.int 1)).2.2⟩).2

/-- All is over after the first subscriber has changed the cell once more in the middle of this. -/
def overtaken : Activity Unit :=
  (turns 20 ⟨(alerted.world.write 0 (.int 2)).2.1,
    (alerted.world.write 0 (.int 2)).2.2 ++ alerted.stack⟩).2

theorem run_watchful : Run anything ⟨.start, []⟩ [.told 0 2 false] ⟨watchful, []⟩ :=
  ((((Run.refl _).deed (.create (.int 0)) trivial trivial).deed (.create (.int 1)) trivial
    trivial).deed (.openSignal matching) hasCell_matching trivial).deed (.subscribe 0 ()) rfl
    trivial

theorem run_overtaken : Run anything ⟨(watchful.subscribe 0 ()).2, []⟩
    [.changed 0 0, .turned 0 true, .told 0 2 true, .changed 0 0, .turned 0 false, .told 0 2 false,
      .told 0 3 false, .told 0 3 true] overtaken :=
  ((((Run.refl _).deed (.write 0 (.int 1)) trivial trivial).turns 2).deed (.write 0 (.int 2)) trivial
    trivial).turns 20

/-- The second subscriber is told of the second turn first. It hears that the signal is false, which
it knows, and in the end that it is true, which it is not. -/
theorem heard_of_subscribe_overtaken :
    heard 0 3 [.changed 0 0, .turned 0 true, .told 0 2 true, .changed 0 0, .turned 0 false,
      .told 0 2 false, .told 0 3 false, .told 0 3 true] = [2, 1].map (afterTurns false) ∧
    ¬(false :: [false, true]).IsChain (· ≠ ·) ∧
    [false, false, true].getLast? ≠ some (overtaken.world.truth 0) := by
  obtain ⟨hheard, -, -, hchain, hlast, -⟩ :=
    heard_of_subscribe (s := 0) run_watchful (by decide) run_overtaken (by decide)
  refine ⟨hheard, fun h ↦ ?_, fun h ↦ ?_⟩
  · exact absurd (hchain.1 h) (by decide)
  · exact absurd ((hlast rfl).1 h) (by decide)

end Activity

end LiveTemplate.Engine
