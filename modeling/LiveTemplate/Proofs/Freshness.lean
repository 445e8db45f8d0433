import LiveTemplate.Proofs.Binding
import LiveTemplate.Proofs.Step

/-!
# Signals do not go stale

A relation in a circuit remembers whether it held when it was last looked at. In every state of
every run, whatever callers and handlers do and however deep they are in each other's calls, it
either remembers what holds now, or an observer that will look at it is still to be told (`Fresh`).
Every put makes this so anew: those who observe the cell are exactly those who look at the leaves
that read it.

So once no cell has observers left to be told, a signal without changed terms is as true as its
formula is over the payloads of its operands (`truth_of_observePredicate`).
-/

namespace LiveTemplate.Engine

variable {η : Type}

open World

namespace Activity

variable {may : Activity η → Deed η → Prop} {a b : Activity η} {es : List Happening}

/-! ### What a leaf waits for -/

/-- An observer that looks at a leaf is still to be told of a change. -/
def Awaited (a : Activity η) (s : SignalId) (place : Nat) : Prop :=
  ∃ c current rest, .tellCell c current rest ∈ a.stack ∧ ∃ o ∈ rest, o.role = .term s place

/-- Whatever a relation in a circuit remembers is so, or the relation is about to be looked at. -/
def Fresh (a : Activity η) : Prop :=
  ∀ s place live r left right, a.world.term? s place = some live →
    live.term = .relation r left right →
      live.truth = r.holds (a.world.payload left) (a.world.payload right) ∨ a.Awaited s place

end Activity

/-! ### Who reads what -/

/-- The place of a term that reads a cell is among the places at which the cell is read. -/
theorem mem_reading {c : CellId} {ts : List (Term CellId)} {i place : Nat} :
    i ∈ reading c place ts ↔ place ≤ i ∧ ∃ t, ts[i - place]? = some t ∧ c ∈ t.operands := by
  induction ts generalizing place with
  | nil => simp [reading]
  | cons t rest ih =>
    have hfirst : i ∈ (t.operands.filter (· = c)).map (fun _ ↦ place) ↔
        i = place ∧ c ∈ t.operands := by
      simp only [List.mem_map, List.mem_filter, decide_eq_true_eq]
      constructor
      · rintro ⟨c', ⟨hmem, rfl⟩, rfl⟩
        exact ⟨rfl, hmem⟩
      · rintro ⟨rfl, hmem⟩
        exact ⟨c, ⟨hmem, rfl⟩, rfl⟩
    rw [reading, List.mem_append, hfirst, ih]
    by_cases hi : i = place
    · subst hi
      constructor
      · rintro (⟨-, hc⟩ | ⟨hle, -⟩)
        · exact ⟨Nat.le_refl _, t, by simp, hc⟩
        · omega
      · rintro ⟨-, t', ht', hc⟩
        rw [Nat.sub_self, List.getElem?_cons_zero] at ht'
        cases ht'
        exact .inl ⟨rfl, hc⟩
    · constructor
      · rintro (⟨heq, -⟩ | ⟨hle, t', ht', hc⟩)
        · exact absurd heq hi
        · refine ⟨by omega, t', ?_, hc⟩
          rw [show i - place = i - (place + 1) + 1 by omega]
          exact ht'
      · rintro ⟨hle, t', ht', hc⟩
        refine .inr ⟨by omega, t', ?_, hc⟩
        rw [show i - place = i - (place + 1) + 1 by omega] at ht'
        exact ht'

namespace World

variable {w : World η} {s : SignalId} {sig : Signal η} {place : Nat} {live : LiveTerm} {c : CellId}

/-- **A leaf that reads a cell has an observer there.** -/
theorem Orderly.exists_observer (ho : w.Orderly) (hsig : w.signals.get? s = some sig)
    (hlive : sig.circuit.leaf? place = some live) (hc : c ∈ live.term.operands) :
    ∃ o ∈ w.observers c, o.role = .term s place := by
  have hmem : place ∈ reading c 0 (sig.circuit.leaves.map LiveTerm.term) := by
    refine mem_reading.2 ⟨Nat.zero_le _, live.term, ?_, hc⟩
    rw [Nat.sub_zero, List.getElem?_map]
    exact congrArg (Option.map LiveTerm.term) hlive
  rw [← ho.placed s sig hsig c] at hmem
  obtain ⟨o, ho, hplace⟩ := List.mem_filterMap.1 hmem
  exact ⟨o, ho, Observer.place?_eq_some.1 hplace⟩

/-- An observer that looks for a signal looks at one of its leaves. -/
theorem Orderly.exists_leaf (ho : w.Orderly) (hsig : w.signals.get? s = some sig)
    {o : Observer η} (hmem : o ∈ w.observers c) (hrole : o.role = .term s place) :
    ∃ live, sig.circuit.leaf? place = some live := by
  have hplace : place ∈ (w.observers c).filterMap (·.place? s) :=
    List.mem_filterMap.2 ⟨o, hmem, Observer.place?_eq_some.2 hrole⟩
  rw [ho.placed s sig hsig c] at hplace
  obtain ⟨-, t, ht, -⟩ := mem_reading.1 hplace
  rw [Nat.sub_zero, List.getElem?_map] at ht
  obtain ⟨live, hlive, -⟩ := Option.map_eq_some_iff.1 ht
  exact ⟨live, hlive⟩

/-- A cell that somebody observes exists. -/
theorem hasCell_of_mem_observers {o : Observer η} (h : o ∈ w.observers c) : w.HasCell c := by
  by_contra hcell
  rw [observers, Option.not_isSome_iff_eq_none.1 hcell] at h
  exact List.not_mem_nil h

/-- A cell that a leaf reads exists. -/
theorem Orderly.hasCell (ho : w.Orderly) (hsig : w.signals.get? s = some sig)
    (hlive : sig.circuit.leaf? place = some live) (hc : c ∈ live.term.operands) : w.HasCell c := by
  obtain ⟨o, hmem, -⟩ := ho.exists_observer hsig hlive hc
  exact hasCell_of_mem_observers hmem

end World

/-- The leaf has just been looked at: a relation remembers what holds, and a changed term no timer.
-/
def LiveTerm.Looked (live : LiveTerm) (w : World η) : Prop :=
  match live.term with
  | .relation r left right => live.truth = r.holds (w.payload left) (w.payload right)
  | .changed _ _ => live.timer = none

namespace Activity

variable {may : Activity η → Deed η → Prop} {a b : Activity η} {es : List Happening}
  {s : SignalId} {place : Nat} {live : LiveTerm}

/-! ### Who waits goes on waiting -/

/-- When a leaf changes, those to be told go on being told, but for the one that has just looked at
the leaf. -/
theorem told_or_looked {w : World η} {begun left : List (Work η)} {g : LiveTerm → LiveTerm}
    {k : Clock (Task η)} {news : List Happening}
    (how : Amendment w s place live begun g k left news) (works stack : List (Work η)) {c : CellId}
    {current : Option (Observer η)} {rest : List (Observer η)} {o : Observer η}
    (hmem : .tellCell c current rest ∈ begun ++ stack) (ho : o ∈ rest) :
    (∃ current' rest', .tellCell c current' rest' ∈ works ++ (left ++ stack) ∧ o ∈ rest') ∨
      o.role = .term s place ∧ (g live).Looked w := by
  rcases List.mem_append.1 hmem with hmem | hmem
  · cases how with
    | @look _ _ o' _ r l r' hterm hrole =>
      cases List.mem_singleton.1 hmem
      rcases List.mem_cons.1 ho with rfl | ho
      · refine .inr ⟨hrole, ?_⟩
        unfold LiveTerm.Looked
        rw [hterm]
      · exact .inl ⟨some o', _, by simp, ho⟩
    | @restart _ _ _ _ o' _ _ hterm hrole _ =>
      cases List.mem_singleton.1 hmem
      rcases List.mem_cons.1 ho with rfl | ho
      · refine .inr ⟨hrole, ?_⟩
        unfold LiveTerm.Looked
        rw [hterm]
      · exact .inl ⟨some o', _, by simp, ho⟩
    | _ => cases List.mem_singleton.1 hmem
  · exact .inl ⟨current, rest, by simp [hmem], ho⟩

/-- What has no bearing on signals tells no observers that look for them. -/
theorem not_mem_of_idle {begun stack : List (Work η)} (hbegun : ∀ x ∈ begun, x.idle) {c : CellId}
    {current : Option (Observer η)} {rest : List (Observer η)} {o : Observer η}
    (hmem : .tellCell c current rest ∈ begun ++ stack) (ho : o ∈ rest) :
    .tellCell c current rest ∈ stack := by
  rcases List.mem_append.1 hmem with hmem | hmem
  · have hnil : rest = [] := hbegun _ hmem
    rw [hnil] at ho
    cases ho
  · exact hmem

/-- **A leaf that waits for an observer to be told goes on waiting until it is looked at.** -/
theorem awaited_change (hatt : Attended a) (h : Change may a es b)
    (hlive : b.world.term? s place = some live) (hawaited : a.Awaited s place) :
    b.Awaited s place ∨ live.Looked b.world := by
  obtain ⟨sig', hsig', hleaf⟩ := term?_eq_some.1 hlive
  obtain ⟨c, current, rest, hmem, o, ho, hrole⟩ := hawaited
  cases h with
  | spare begun left hspares hbegun =>
    have hmem' := not_mem_of_idle hbegun hmem ho
    exact .inl ⟨c, current, rest, List.mem_append_right _ hmem', o, ho, hrole⟩
  | put begun left hne hby =>
    have hbegun : ∀ x ∈ begun, x.idle := by
      intro x hx
      rcases hby with ⟨rfl, -⟩ | ⟨us, us', locals, rfl, -⟩
      · cases hx
      · rw [List.mem_singleton.1 hx]
        trivial
    have hmem' := List.mem_append_right left (not_mem_of_idle hbegun hmem ho)
    exact .inl ⟨c, current, rest, List.mem_cons_of_mem _ hmem', o, ho, hrole⟩
  | pass hpass =>
    rcases List.mem_cons.1 hmem with heq | hmem
    · cases heq
      rcases List.mem_cons.1 ho with rfl | ho
      · -- The observer that is passed over looks at nothing that lives.
        have hlives := Option.isSome_iff_exists.2 ⟨sig', hsig'⟩
        have hobserves := (hatt.told _ _ _ List.mem_cons_self _ List.mem_cons_self s place hrole).2
        rw [hpass s place hrole (hobserves hlives)] at hlive
        cases hlive
      · exact .inl ⟨c, _, _, List.mem_cons_self, o, ho, hrole⟩
    · exact .inl ⟨c, current, rest, List.mem_cons_of_mem _ hmem, o, ho, hrole⟩
  | @amend w w' s' place' sig live' begun left stack g k news hsig hlive' how hamends =>
    rcases told_or_looked how (tidings s' sig (sig.circuit.amend g place')) stack hmem ho with
      ⟨current', rest', hmem', ho'⟩ | ⟨hrole', hlooked⟩
    · exact .inl ⟨c, current', rest', hmem', o, ho', hrole⟩
    · right
      rw [hrole] at hrole'
      cases hrole'
      rcases leaf?_of_amends hamends hsig hsig' hleaf with
        ⟨-, -, live'', hlive'', rfl⟩ | ⟨hne, -⟩
      · rw [hlive'] at hlive''
        cases hlive''
        have hpayload : w'.payload = w.payload := funext fun c ↦ payload_of_cells hamends.cells c
        unfold LiveTerm.Looked at hlooked ⊢
        rwa [hpayload]
      · exact absurd rfl (hne rfl)
  | openSignal => exact .inl ⟨c, current, rest, hmem, o, ho, hrole⟩
  | subscribe => exact .inl ⟨c, current, rest, hmem, o, ho, hrole⟩
  | perform => exact .inl ⟨c, current, rest, List.mem_cons_of_mem _ hmem, o, ho, hrole⟩
  | advance => exact .inl ⟨c, current, rest, List.mem_cons_of_mem _ hmem, o, ho, hrole⟩
  | _ => exact .inl ⟨c, current, rest, by simp_all, o, ho, hrole⟩

/-- A put makes the leaves that read the cell wait. -/
theorem awaited_put {w : World η} (ho : w.Orderly) {c : CellId} (p : Payload)
    (hlive : w.term? s place = some live) (hc : c ∈ live.term.operands) (stack : List (Work η)) :
    Awaited ⟨w.put c p, .tellCell c none (w.observers c) :: stack⟩ s place := by
  obtain ⟨sig, hsig, hleaf⟩ := term?_eq_some.1 hlive
  obtain ⟨o, hmem, hrole⟩ := ho.exists_observer hsig hleaf hc
  exact ⟨c, none, w.observers c, List.mem_cons_self, o, hmem, hrole⟩

/-! ### Freshness -/

theorem fresh_start : (⟨.start, []⟩ : Activity η).Fresh :=
  fun _ _ _ _ _ _ hlive ↦ by simp [World.start, term?] at hlive

/-- A relation reads the same payloads before and after, if they are the same. -/
theorem holds_congr {w w' : World η} {r : Relation} {left right : CellId}
    (h : ∀ c ∈ (Term.relation r left right).operands, w'.payload c = w.payload c) :
    r.holds (w'.payload left) (w'.payload right) = r.holds (w.payload left) (w.payload right) := by
  rw [h left (by simp [Term.operands]), h right (by simp [Term.operands])]

/-- Terms hold as before if their operands hold what they held. -/
theorem map_holds_congr {w w' : World η} {ts : List (Term CellId)}
    (h : ∀ t ∈ ts, ∀ c ∈ t.operands, w'.payload c = w.payload c) :
    ts.map (·.holds w'.payload) = ts.map (·.holds w.payload) := by
  refine List.map_congr_left fun t ht ↦ ?_
  cases t with
  | relation r left right => exact holds_congr (h _ ht)
  | changed operand window => rfl

/-- A relation in a new circuit has just been looked at. -/
theorem looked_of_openSignal {w : World η} {f : Formula (Term CellId)}
    (hlive : (w.openSignal f).2.term? w.signals.next place = some live) :
    live.Looked (w.openSignal f).2 := by
  obtain ⟨sig, hsig, hleaf⟩ := term?_eq_some.1 hlive
  rw [get?_openSignal, if_pos rfl] at hsig
  cases hsig
  rw [newSignal, Circuit.leaf?, Circuit.leaves_build, List.getElem?_map] at hleaf
  obtain ⟨t, -, rfl⟩ := Option.map_eq_some_iff.1 hleaf
  have hpayload : (w.openSignal f).2.payload = w.payload :=
    funext fun c ↦ (attaches_openSignal w f).payload c
  unfold LiveTerm.Looked
  cases t with
  | relation r left right =>
    rw [hpayload]
    rfl
  | changed operand window => rfl

/-- A leaf that is there after a change was there before, is that of a new signal, or has been
changed. -/
theorem leaf_of_change (h : Change may a es b) (hlive : b.world.term? s place = some live) :
    a.world.term? s place = some live ∨
      s = a.world.signals.next ∧ live.Looked b.world ∨
      ∃ old g k begun left news stack, a.world.term? s place = some old ∧ live = g old ∧
        Amendment a.world s place old begun g k left news ∧
        Amends s place g k a.world b.world ∧ a.stack = begun ++ stack := by
  obtain ⟨sig', hsig', hleaf⟩ := term?_eq_some.1 hlive
  cases h with
  | spare _ _ hspares =>
    obtain ⟨sig, hsig, hcircuit, -⟩ := hspares.signal s sig' hsig'
    exact .inl (term?_eq_some.2 ⟨sig, hsig, hcircuit ▸ hleaf⟩)
  | openSignal =>
    rw [get?_openSignal] at hsig'
    split at hsig'
    · rename_i hnew
      subst hnew
      exact .inr (.inl ⟨rfl, looked_of_openSignal hlive⟩)
    · exact .inl (term?_eq_some.2 ⟨sig', hsig', hleaf⟩)
  | subscribe =>
    obtain ⟨sig, hsig, hcircuit⟩ := circuit_of_subscribe hsig'
    exact .inl (term?_eq_some.2 ⟨sig, hsig, hcircuit ▸ hleaf⟩)
  | amend hsig hlive' how hamends =>
    rcases leaf?_of_amends hamends hsig hsig' hleaf with
      ⟨rfl, rfl, old, hold, rfl⟩ | ⟨-, old, hold, hleaf'⟩
    · rw [hlive'] at hold
      cases hold
      have hterm := term?_eq_some.2 ⟨_, hsig, hlive'⟩
      exact .inr (.inr ⟨_, _, _, _, _, _, _, hterm, rfl, how, hamends, rfl⟩)
    · exact .inl (term?_eq_some.2 ⟨old, hold, hleaf'⟩)
  | _ => exact .inl hlive

/-- A payload is what it was before a change, unless it was put there. -/
theorem payload_of_change (h : Change may a es b) {c : CellId} (hc : a.world.HasCell c) :
    b.world.payload c = a.world.payload c ∨
      ∃ p stack, b = ⟨a.world.put c p, .tellCell c none (a.world.observers c) :: stack⟩ ∧
        es = [.changed c a.world.clock.now] := by
  cases h with
  | spare _ _ hspares => exact .inl (hspares.payload c hc).2
  | @put w c' p _ _ _ _ _ =>
    by_cases heq : c = c'
    · subst heq
      exact .inr ⟨p, _, rfl, rfl⟩
    · exact .inl (payload_put_of_ne w c' p heq)
  | openSignal => exact .inl ((attaches_openSignal _ _).payload c)
  | amend _ _ _ hamends => exact .inl (payload_of_cells hamends.cells c)
  | _ => exact .inl rfl

/-- **Every change keeps signals fresh.** -/
theorem fresh_change (ho : a.world.Orderly) (hatt : Attended a) (hfresh : a.Fresh)
    (h : Change may a es b) : b.Fresh := by
  intro s place live r left right hlive hterm
  have hlooked : live.Looked b.world →
      live.truth = r.holds (b.world.payload left) (b.world.payload right) := by
    unfold LiveTerm.Looked
    rw [hterm]
    exact id
  rcases leaf_of_change h hlive with
    hbefore | ⟨-, hl⟩ | ⟨old, g, k, _, _, _, _, -, rfl, how, hamends, -⟩
  · rcases hfresh s place live r left right hbefore hterm with hholds | hawaited
    · -- What it remembered held, and holds unless a cell that it reads is put another payload.
      obtain ⟨sig, hsig, hleaf⟩ := term?_eq_some.1 hbefore
      by_cases hput : ∃ c ∈ live.term.operands, ∃ p stack,
          b = ⟨a.world.put c p, .tellCell c none (a.world.observers c) :: stack⟩
      · obtain ⟨c, hc, p, stack, rfl⟩ := hput
        exact .inr (awaited_put ho p hbefore hc stack)
      · left
        rw [hholds]
        refine (holds_congr fun c hc ↦ ?_).symm
        rw [← hterm] at hc
        have hcell := ho.hasCell hsig hleaf hc
        refine (payload_of_change h hcell).resolve_right fun ⟨p, stack, heq, _⟩ ↦ ?_
        exact hput ⟨c, hc, p, stack, heq⟩
    · exact (awaited_change hatt h hlive hawaited).symm.imp_left hlooked
  · exact .inl (hlooked hl)
  · -- Of the changes of a leaf only a look is at a relation.
    rw [how.term_eq] at hterm
    cases how with
    | look hterm' =>
      rw [hterm] at hterm'
      cases hterm'
      left
      rw [payload_of_cells hamends.cells, payload_of_cells hamends.cells]
    | restart _ hterm' => rw [hterm] at hterm'; cases hterm'
    | flash hterm' => rw [hterm] at hterm'; cases hterm'
    | arm hterm' => rw [hterm] at hterm'; cases hterm'
    | expire hterm' => rw [hterm] at hterm'; cases hterm'

/-- **Signals that are fresh stay so in every run.** -/
theorem Run.staysFresh (h : Run may a es b) (ho : a.world.Orderly) (hatt : Attended a)
    (hfresh : a.Fresh) : b.Fresh := by
  have hboth := h.keeps (P := fun a ↦ Attended a ∧ a.Fresh)
    (fun ho ⟨hatt, hfresh⟩ hchange ↦
      ⟨attended_change ho hatt hchange, fresh_change ho hatt hfresh hchange⟩)
    ho ⟨hatt, hfresh⟩
  exact hboth.2

theorem Run.fresh (h : Run may ⟨.start, []⟩ es a) : a.Fresh :=
  h.staysFresh orderly_start (attended_nil _) fresh_start

/-! ### Nothing left to be told -/

/-- Once no cell has observers left to be told, the leaves of a signal without changed terms
remember what holds. -/
theorem truths_of_quiet {f : Formula (Term CellId)} {s : SignalId} (hfresh : a.Fresh)
    (hquiet : ∀ c current rest, .tellCell c current rest ∉ a.stack) (hs : StandsFor f s a)
    (hf : f.Timeless) {sig : Signal η} (hsig : a.world.signals.get? s = some sig) :
    sig.circuit.leaves.map LiveTerm.truth = f.terms.map (·.holds a.world.payload) := by
  rw [← (hs.keeps sig hsig).terms_eq, List.map_map]
  refine List.map_congr_left fun live hlive ↦ ?_
  have hterm : live.term ∈ f.terms := by
    rw [← (hs.keeps sig hsig).terms_eq]
    exact List.mem_map_of_mem hlive
  obtain ⟨place, hplace⟩ := List.mem_iff_getElem?.1 hlive
  show live.truth = live.term.holds a.world.payload
  cases h : live.term with
  | relation r left right =>
    have hleaf := term?_eq_some.2 ⟨sig, hsig, hplace⟩
    rcases hfresh s place live r left right hleaf h with hholds | ⟨c, current, rest, hmem, -⟩
    · exact hholds
    · exact absurd hmem (hquiet c current rest)
  | changed operand window =>
    have hrelation := hf live.term hterm
    rw [h] at hrelation
    cases hrelation

/-- Once no cell has observers left to be told, a signal without changed terms is as true as its
formula. -/
theorem truth_of_quiet {f : Formula (Term CellId)} {s : SignalId} (hfresh : a.Fresh)
    (hquiet : ∀ c current rest, .tellCell c current rest ∉ a.stack) (hs : StandsFor f s a)
    (hf : f.Timeless) (hlives : a.world.Lives s) :
    a.world.truth s = f.eval (·.holds a.world.payload) := by
  obtain ⟨sig, hsig⟩ := Option.isSome_iff_exists.1 hlives
  have htruth : a.world.truth s = sig.circuit.truth := by
    rw [World.truth, hsig]
    rfl
  have heval := (hs.keeps sig hsig).truth_eq_evalOver []
  rw [htruth, heval, List.append_nil, truths_of_quiet hfresh hquiet hs hf hsig,
    Formula.evalOver_map]

/-- **Observed predicates do not go stale.** Let a predicate without changed terms be observed at
any point of any run, once the global state is published, and let anything happen afterwards. As
long as the signal lives, no negation in it is without an input; and whenever no observers of a cell
are left to be told, the signal is as true as the predicate is over what the cells hold that its
references stood for, which is also what evaluating the predicate comes to. -/
theorem truth_of_observePredicate {w w' : World η} {stack : List (Work η)} {es' : List Happening}
    {locals : ValueMap} {p : Predicate CellId} {f : Formula (Term CellId)} {s : SignalId}
    (hrun : Run anything ⟨.start, []⟩ es ⟨w, stack⟩) (hpublished : w.published = true)
    (hp : Formula.Timeless p) (hbind : w.bind locals p = .ok f)
    (hoperands : ∀ t ∈ f.terms, ∀ c ∈ t.operands, w.HasCell c)
    (hobserve : w.observePredicate locals p = .ok (s, w'))
    (hrun' : Run anything ⟨w', stack⟩ es' b) (hlives : b.world.Lives s) :
    (∀ sig, b.world.signals.get? s = some sig →
      ∀ held inputs, .gate .negation held inputs ∈ sig.circuit.parts → inputs ≠ []) ∧
    ((∀ c current rest, .tellCell c current rest ∉ b.stack) →
      b.world.truth s = f.eval (·.holds b.world.payload) ∧
      (b.world.evaluate locals p).1 = .ok (b.world.truth s)) := by
  have hopen : w.openSignal f = (s, w') := by
    rw [observePredicate, hbind] at hobserve
    exact Except.ok.inj hobserve
  obtain ⟨rfl, rfl⟩ : w.signals.next = s ∧ (w.openSignal f).2 = w' :=
    ⟨congrArg Prod.fst hopen, congrArg Prod.snd hopen⟩
  -- The whole run, from the beginning, with the signal opened on the way.
  have hall := (hrun.deed (.openSignal f) hoperands trivial).trans hrun'
  have ho : (w.openSignal f).2.Orderly := (hrun.orderly orderly_start).openSignal hoperands
  have hstands := hrun'.standsFor ho (standsFor_openSignal f w stack)
  obtain ⟨sig, hsig⟩ := Option.isSome_iff_exists.1 hlives
  refine ⟨fun sig hsig held inputs hmem ↦ (hstands.keeps sig hsig).inputs_ne_nil hmem,
    fun hquiet ↦ ?_⟩
  have htruth := truth_of_quiet hall.fresh hquiet hstands (timeless_of_bind hp hbind) hlives
  have hattach := attaches_openSignal w f
  obtain ⟨hpublished', hglobals⟩ := hrun'.globals ho (hattach.published.trans hpublished)
  have hbind' := bind_of_published hpublished hpublished' (hglobals.trans hattach.globals) hbind
  exact ⟨htruth, (evaluate_of_bind hbind').trans (congrArg Except.ok htruth.symm)⟩

/-! ### Hovering over an interval -/

/-- A world, with its global state published, of three cells: where something hovers, and where an
interval begins and ends. -/
def hovering : World Unit :=
  ((((start.create (.int 5)).2.create (.int 10)).2.create (.int 20)).2.publish).1

/-- Whether what hovers is in the interval. -/
def inside : Formula (Term CellId) :=
  .and [.not (.term (.relation .lessThan 0 1)), .not (.term (.relation .greaterThan 0 2))]

theorem run_hovering : ∃ es, Run anything ⟨.start, []⟩ es ⟨hovering, []⟩ :=
  ⟨_, ((((((Run.refl _).deed (.create (.int 5)) trivial trivial).deed (.create (.int 10)) trivial
    trivial).deed (.create (.int 20)) trivial trivial).deed .publish trivial trivial).turns 1)⟩

theorem hasCell_hovering : ∀ t ∈ inside.terms, ∀ c ∈ t.operands, hovering.HasCell c := by
  decide

/-- The world in which the signal is observed and what hovers has come to another place. -/
def hoveringAt (n : Int64) : Activity Unit :=
  let (w, works) := (hovering.openSignal inside).2.after (.write 0 (.int n))
  (turns 20 ⟨w, works⟩).2

/-- Inside the interval the signal is true, and so is the predicate. -/
theorem truth_of_observePredicate_inside :
    (hoveringAt 15).world.truth 0 = inside.eval (·.holds (hoveringAt 15).world.payload) ∧
      ((hoveringAt 15).world.evaluate .empty (inside.map (Term.map .literal))).1 = .ok true := by
  obtain ⟨es, hrun⟩ := run_hovering
  have hrun' : Run anything ⟨(hovering.openSignal inside).2, []⟩ _ (hoveringAt 15) :=
    ((Run.refl _).deed (.write 0 (.int 15)) trivial trivial).turns 20
  have hquiet : ∀ c current rest, .tellCell c current rest ∉ (hoveringAt 15).stack := by
    intro c current rest hmem
    have hnil : (hoveringAt 15).stack = [] := rfl
    rw [hnil] at hmem
    cases hmem
  have hbind : hovering.bind .empty (inside.map (Term.map .literal)) = .ok inside := rfl
  obtain ⟨-, htruth⟩ := truth_of_observePredicate hrun rfl (by decide) hbind hasCell_hovering rfl
    hrun' rfl
  obtain ⟨heval, hevaluate⟩ := htruth hquiet
  exact ⟨heval, hevaluate⟩

end Activity

end LiveTemplate.Engine
