import LiveTemplate.Proofs.Acting
import LiveTemplate.Proofs.Execution
import LiveTemplate.Proofs.Moments
import LiveTemplate.Proofs.Passing

/-!
# Updates that are applied

To apply updates is to put them on top of all other work and to take turns until they end. On the
way observers are told of every change, and do whatever they do; here they change no values
themselves (`steady`). Then, whatever else goes on meanwhile, what the updates have done so far is
some of the moves of their tree, each of them made in the state that the moves before it have left,
and the updates still to be run make the rest (`Underway`, `History.underway`).

So when they return, the moves have been made up to the end or up to the first that fails, and
nothing else has changed a value (`apply_makes_moves`).
-/

namespace LiveTemplate.Engine

open World Update

variable {η : Type}

/-- The cell of which there is news that it has changed. -/
def Happening.changed? : Happening → Option CellId
  | .changed c _ => some c
  | _ => none

/-- The cells that have changed, in order. -/
def changedCells (es : List Happening) : List CellId := es.filterMap Happening.changed?

namespace World

variable {w w' v : World η} {P : CellId → Prop} {locals : ValueMap} {us : List (Update CellId)}

/-- All that updates over a map of local values can come upon exists: the local values, the literals
of the updates, and the globals. -/
structure Furnished (w : World η) (us : List (Update CellId)) (locals : ValueMap) : Prop where
  locals : ∀ c ∈ locals.values, w.HasCell c
  literals : ∀ c ∈ allLiterals us, w.HasCell c
  globals : ∀ c ∈ w.globals.values, w.HasCell c

theorem Furnished.stay (h : w.Furnished us locals) : Stay id w.HasCell (allReferences us) := by
  intro r hr c hc
  refine ⟨h.literals c ?_, rfl⟩
  rw [allLiterals_eq]
  exact List.mem_flatMap.2 ⟨r, hr, hc⟩

theorem Furnished.alike (h : w.Furnished us locals) : Alike id w.HasCell w w where
  payload _ _ := rfl
  hasCell _ _ := Iff.rfl
  injective _ _ _ _ := id
  published := rfl
  get? _ := Option.map_id_apply.symm
  global _ _ hkey := h.globals _ (OrderedMap.mem_values_of_get? hkey)

/-- A world in which the cells hold the same and the globals are the same is alike as before. -/
theorem Alike.of_kept (h : Alike id P w v) (hP : ∀ c, P c → w.HasCell c)
    (hkept : ∀ c, P c → w'.HasCell c ∧ w'.payload c = w.payload c)
    (hpublished : w'.published = w.published) (hglobals : w'.globals = w.globals) :
    Alike id P w' v where
  payload c hc := (h.payload c hc).trans (hkept c hc).2.symm
  hasCell c hc := by
    rw [h.hasCell c hc]
    exact ⟨fun _ ↦ (hkept c hc).1, fun _ ↦ hP c hc⟩
  injective := h.injective
  published := h.published.trans hpublished.symm
  get? key := by rw [hglobals, h.get?]
  global key c hkey := h.global key c (hglobals ▸ hkey)

/-- An edit is news of the cells that it alters. -/
theorem changedCells_edit (w : World η) (e : Edit) (time : UInt64) :
    changedCells ((w.edit e).2.filterMap (Work.news time)) = w.altered e := by
  obtain _ | ⟨c, p⟩ := e
  · rfl
  · show changedCells ((w.write c p).2.2.filterMap (Work.news time)) = _
    rw [altered]
    cases hne : w.payload c == p with
    | true =>
      rw [write_of_eq hne]
      rfl
    | false =>
      rw [write_of_ne hne]
      rfl

theorem not_performs_of_edit (e : Edit) {us : List (Update CellId)} {locals : ValueMap} :
    .perform us locals ∉ (w.edit e).2 := fun h ↦ absurd (level_of_mem_edit h) (Nat.lt_irrefl 3)

end World

namespace Activity

/-- Nobody changes a value, but for the updates that are run already. -/
def steady : Activity η → Deed η → Prop := fun _ d ↦ ¬d.mutates

theorem avoids_of_steady {d : Deed η} (h : ¬d.mutates) (c : CellId) : d.Avoids c := by
  cases d <;> first | trivial | exact absurd trivial h

variable {a b : Activity η} {es : List Happening} {w : World η} {us : List (Update CellId)}
  {locals : ValueMap} {base : List (Work η)} {ms : List (Moment η)} {m : Moment η}

/-- Who is steady makes no news of changes, unless updates have a turn. -/
theorem performs_of_changed (ho : a.world.Orderly) (h : Step steady a es b) {c : CellId}
    {time : UInt64} (hmem : .changed c time ∈ es) :
    ∃ us locals stack, a.stack = .perform us locals :: stack := by
  obtain ⟨-, p, stack, -, hmay | hperforms, -⟩ := put_of_changed (h.change ho) hmem
  · exact absurd trivial hmay
  · exact hperforms

theorem changedCells_eq_nil {es : List Happening} (h : ∀ c time, .changed c time ∉ es) :
    changedCells es = [] := by
  refine List.filterMap_eq_nil_iff.2 fun x hx ↦ ?_
  cases x with
  | changed c time => exact absurd hx (h c time)
  | _ => rfl

/-- A deed of one who is steady is no news of a change. -/
theorem changedCells_deed {d : Deed η} (ho : w.Orderly) (hpermits : w.Permits d)
    (hd : ¬d.mutates) : changedCells (w.atDeed d) = [] := by
  refine changedCells_eq_nil fun c time hmem ↦ ?_
  -- What happens does not depend on the work that is there, so there may be none.
  have hstep : Step steady ⟨w, []⟩ (w.atDeed d) _ := .deed w d [] hpermits hd
  obtain ⟨_, _, _, hstack⟩ := performs_of_changed ho hstep hmem
  cases hstack

/-- Nor is a turn of anything but updates. -/
theorem changedCells_turn {x : Work η} (ho : w.Orderly) (hx : ∀ us locals, x ≠ .perform us locals) :
    changedCells (w.atTurn x) = [] := by
  refine changedCells_eq_nil fun c time hmem ↦ ?_
  have hstep : Step steady ⟨w, [x]⟩ (w.atTurn x) _ := .turn w x []
  obtain ⟨us, locals, _, hstack⟩ := performs_of_changed ho hstep hmem
  exact hx us locals (List.cons.inj hstack).1

/-! ### On the way -/

/-- How far updates have come that were begun above other work, in some world. What they have done
comes to moves, which would have left another world but for what else has gone on meanwhile; these
two hold the same. The updates that are left make the rest of the moves. -/
inductive Underway (w : World η) (us : List (Update CellId)) (locals : ValueMap)
    (base : List (Work η)) (ms : List (Moment η)) (b : Activity η) : Prop
  | mk (above : List (Work η)) (us' : List (Update CellId)) (moves : List (Move CellId))
      (v : World η) (hstack : b.stack = above ++ .perform us' locals :: base)
      (habove : ∀ us locals, .perform us locals ∉ above)
      (hmakes : ∀ rest, MakesAll us' rest → MakesAll us (moves ++ rest))
      (hplays : Plays locals w moves (.ok ()) (changedCells (ms.flatMap Moment.news)) v)
      (halike : Alike id w.HasCell b.world v)

/-- What moves in the middle of those of updates refer to, the updates refer to. -/
theorem stay_of_makesAll {first middle last : List (Move CellId)} {P : CellId → Prop}
    (hstay : Stay id P (allReferences us)) (h : MakesAll us (first ++ (middle ++ last))) :
    Stay id P (middle.flatMap Move.references) := by
  have hsubset := (touches_of_makesAll us h).references
  rw [List.flatMap_append, List.flatMap_append] at hsubset
  exact hstay.mono fun r hr ↦
    hsubset (List.mem_append_right _ (List.mem_append_left _ hr))

/-- What else goes on changes nothing for updates: a deed of one who is steady, or a turn of other
work. -/
theorem alike_aside {P : CellId → Prop} {v : World η} (ho : m.before.world.Orderly)
    (hpublished : m.before.world.published = true) (hcells : ∀ c, P c → m.before.world.HasCell c)
    (hm : m.Allowed steady) (hturn : ∀ w us locals stack, m ≠ .turn w (.perform us locals) stack)
    (halike : Alike id P m.before.world v) :
    Alike id P m.after.world v ∧ changedCells m.news = [] := by
  cases m with
  | turn w x stack =>
    have hx : ∀ us locals, x ≠ .perform us locals := fun us locals heq ↦
      hturn w us locals stack (heq ▸ rfl)
    exact ⟨halike.of_values (values_turn w hx) rfl, changedCells_turn ho hx⟩
  | deed w d stack =>
    obtain ⟨hpublished', hglobals⟩ := globals_of_change ((Moment.step hm).change ho) hpublished
    refine ⟨halike.of_kept hcells (fun c hc ↦ ?_) (hpublished'.trans hpublished.symm) hglobals,
      changedCells_deed ho hm.1 hm.2⟩
    exact kept_after ho (hcells c hc) hm.1 (avoids_of_steady hm.2 c)

theorem changedCells_concat (ms : List (Moment η)) (m : Moment η) :
    changedCells ((ms ++ [m]).flatMap Moment.news) =
      changedCells (ms.flatMap Moment.news) ++ changedCells m.news := by
  rw [List.flatMap_append, List.flatMap_singleton]
  exact List.filterMap_append

/-- A turn of the updates themselves. -/
theorem underway_turn {w' v : World η} {us' : List (Update CellId)} {moves : List (Move CellId)}
    (hf : w.Furnished us locals)
    (hmakes : ∀ rest, MakesAll us' rest → MakesAll us (moves ++ rest))
    (hplays : Plays locals w moves (.ok ()) (changedCells (ms.flatMap Moment.news)) v)
    (halike : Alike id w.HasCell w' v) :
    Underway w us locals base (ms ++ [.turn w' (.perform us' locals) base])
        (Moment.turn w' (.perform us' locals) base).after ∨
      (Moment.turn w' (.perform us' locals) base).after.stack = base := by
  have hstepped := w'.stepped_perform us' locals
  have hafter : (Moment.turn w' (.perform us' locals) base).after =
      ⟨(w'.perform us' locals).world, (w'.perform us' locals).next ++ base⟩ := rfl
  have hnews : (Moment.turn w' (.perform us' locals) base).news =
      (w'.perform us' locals).next.filterMap (Work.news w'.clock.now) := rfl
  have hconcat := changedCells_concat ms (.turn w' (.perform us' locals) base)
  rw [hnews] at hconcat
  rw [hafter]
  generalize w'.perform us' locals = t at *
  cases hstepped with
  | ending => exact .inr rfl
  | @on w₁ moves' e us'' hmakes' hplays' hvalues =>
    left
    have hmakes'' : ∀ rest, MakesAll us'' rest → MakesAll us (moves ++ (moves' ++ rest)) :=
      fun rest hrest ↦ hmakes _ (hmakes' rest hrest)
    obtain ⟨rest, hrest⟩ := exists_makesAll us''
    have hstay := stay_of_makesAll hf.stay (hmakes'' rest hrest)
    obtain ⟨v', hv', halike'⟩ := hplays'.of_alike halike hf.locals hstay
    refine ⟨(w₁.edit e).2, us'', moves ++ moves', v', ?_, fun _ _ ↦ not_performs_of_edit e,
      fun rest hrest ↦ ?_, ?_, halike'.of_values (values_edit hvalues e) rfl⟩
    · exact List.append_assoc ..
    · rw [List.append_assoc]
      exact hmakes'' rest hrest
    · have hchanged : changedCells (((w₁.edit e).2 ++ [Work.perform us'' locals]).filterMap
          (Work.news w'.clock.now)) = w'.altered e := by
        rw [List.filterMap_append, List.filterMap_cons_none rfl, List.filterMap_nil,
          List.append_nil, changedCells_edit, altered_congr fun c _ _ ↦ payload_of_values hvalues c]
      rw [hconcat, Turn.goOn, hchanged]
      exact hplays.append hv'

/-- **Updates that are on the way stay so until they end**, whatever the next moment is. -/
theorem Underway.moment (h : Underway w us locals base ms m.before) (hf : w.Furnished us locals)
    (ho : m.before.world.Orderly) (hpublished : m.before.world.published = true)
    (hcells : ∀ c, w.HasCell c → m.before.world.HasCell c) (hm : m.Allowed steady) :
    Underway w us locals base (ms ++ [m]) m.after ∨ m.after.stack = base := by
  obtain ⟨above, us', moves, v, hstack, habove, hmakes, hplays, halike⟩ := h
  have haside : (∀ w us locals stack, m ≠ .turn w (.perform us locals) stack) →
      ∀ above', m.after.stack = above' ++ .perform us' locals :: base →
        (∀ us locals, .perform us locals ∉ above') →
          Underway w us locals base (ms ++ [m]) m.after := by
    intro hturn above' hstack' habove'
    obtain ⟨halike', hnews⟩ := alike_aside ho hpublished hcells hm hturn halike
    refine ⟨above', us', moves, v, hstack', habove', hmakes, ?_, halike'⟩
    rwa [changedCells_concat, hnews, List.append_nil]
  rcases Moment.place hstack with ⟨w', rfl, rfl⟩ | ⟨w', x, above, rfl, rfl⟩ | ⟨w', d, rfl⟩
  · exact underway_turn hf hmakes hplays halike
  · have hx : ∀ us locals, x ≠ .perform us locals := fun us'' locals' heq ↦
      habove us'' locals' (heq ▸ List.mem_cons_self)
    refine .inl (haside (fun _ us'' locals' _ heq ↦ hx us'' locals' (Moment.turn.inj heq).2.1)
      ((w'.turn x).next ++ above) (List.append_assoc ..).symm fun us'' locals' hmem ↦ ?_)
    rcases List.mem_append.1 hmem with hmem | hmem
    · obtain ⟨us₁, heq, -⟩ := performs_of_turn hmem
      exact hx us₁ locals' heq
    · exact habove us'' locals' (List.mem_cons_of_mem _ hmem)
  · refine .inl (haside nofun ((w'.after d).2 ++ above) (List.append_assoc ..).symm
      fun us'' locals' hmem ↦ ?_)
    rcases List.mem_append.1 hmem with hmem | hmem
    · rw [performs_of_after hmem] at hm
      exact hm.2 trivial
    · exact habove us'' locals' hmem

/-- **Updates stay on the way until they end**, whatever those do who change no value. -/
theorem History.underway (h : History steady ⟨w, .perform us locals :: base⟩ ms b)
    (ho : w.Orderly) (hpublished : w.published = true) (hf : w.Furnished us locals)
    (hheight : ∀ m ∈ ms, base.length < m.height) :
    Underway w us locals base ms b ∨ b.stack = base := by
  generalize ha : (⟨w, .perform us locals :: base⟩ : Activity η) = a at h
  induction h with
  | refl =>
    subst ha
    exact .inl ⟨[], us, [], w, rfl, fun _ _ h ↦ absurd h List.not_mem_nil, fun _ h ↦ h, .done w,
      hf.alike⟩
  | tail m h hallowed ih =>
    subst ha
    obtain ⟨hbefore, hlast⟩ := List.forall_mem_append.1 hheight
    rcases ih hbefore with hunderway | hover
    · exact hunderway.moment hf (h.run.orderly ho) (h.run.globals ho hpublished).1
        (fun _ hc ↦ h.run.hasCell ho hc) hallowed
    · have hm := hlast m (List.mem_singleton_self m)
      rw [Moment.height, hover] at hm
      exact absurd hm (Nat.lt_irrefl _)

/-! ### From the beginning to the end -/

/-- Updates that are begun in a world, above other work, end: moments above that work, in which
nobody changes a value but the updates, lead to a turn in which they end. -/
def Applied (w : World η) (us : List (Update CellId)) (locals : ValueMap) (base : List (Work η))
    (ms : List (Moment η)) (o : Except Problem Unit) (w' : World η) : Prop :=
  ∃ v us', History steady ⟨w, .perform us locals :: base⟩ ms ⟨v, .perform us' locals :: base⟩ ∧
    (∀ m ∈ ms, base.length < m.height) ∧ v.perform us' locals = .ending w' o

theorem Applied.of_leads {v w' : World η} {us' : List (Update CellId)} {o : Except Problem Unit}
    (hleads : Leads w us locals v us') (h : Applied v us' locals base ms o w') :
    ∃ ms, Applied w us locals base ms o w' := by
  obtain ⟨v', us'', hhistory, hheight, hending⟩ := h
  obtain ⟨es, hrun⟩ := hleads never []
  obtain ⟨ms', -, hturns⟩ := hrun.exists_history
  obtain ⟨hbefore, hheight'⟩ := hturns.onto steady base
  exact ⟨ms'.map (·.onto base) ++ ms, v', us'', hbefore.trans hhistory,
    List.forall_mem_append.2 ⟨hheight', hheight⟩, hending⟩

/-- **Updates end**, also if nobody else does anything. -/
theorem exists_applied (w : World η) (us : List (Update CellId)) (locals : ValueMap)
    (base : List (Work η)) :
    ∃ ms, Applied w us locals base ms (w.apply us locals).outcome (w.apply us locals).world := by
  induction hn : Update.weightAll us using Nat.strongRecOn generalizing w us with
  | ind n ih =>
    subst hn
    have hstepped := w.stepped_perform us locals
    generalize ht : w.perform us locals = t at hstepped
    cases hstepped with
    | ending =>
      rw [apply_of_ending ht]
      exact ⟨[], w, us, .refl _, fun _ h ↦ absurd h List.not_mem_nil, ht⟩
    | on =>
      have hgoes : GoesOn w us locals _ _ _ := ⟨ht, fun _ hx ↦ level_of_mem_edit hx⟩
      obtain ⟨ms, hms⟩ := ih _ hgoes.weightAll_lt _ _ rfl
      rw [hgoes.outcome_eq, hgoes.apply_eq]
      exact hms.of_leads hgoes.leads

/-- A turn in which updates end makes the last of their moves. -/
theorem exists_plays_of_ending {w₁ w' v : World η} {us' : List (Update CellId)}
    {moves : List (Move CellId)} {cells : List CellId} {o : Except Problem Unit}
    (hending : w₁.perform us' locals = .ending w' o) (hf : w.Furnished us locals)
    (hmakes : ∀ rest, MakesAll us' rest → MakesAll us (moves ++ rest))
    (hplays : Plays locals w moves (.ok ()) cells v) (halike : Alike id w.HasCell w₁ v) :
    ∃ moves v, MakesAll us moves ∧ Plays locals w moves o cells v ∧
      ∀ c, w.HasCell c → w'.payload c = v.payload c := by
  have hstepped := w₁.stepped_perform us' locals
  generalize w₁.perform us' locals = t at hstepped hending
  cases hstepped with
  | on =>
    have hnext := congrArg Turn.next hending
    exact absurd hnext (List.append_ne_nil_of_right_ne_nil _ (List.cons_ne_nil _ _))
  | @ending _ moves' _ hmakes' hplays' hvalues =>
    cases hending
    have hstay := (touches_of_makesAll us (hmakes moves' hmakes')).references
    rw [List.flatMap_append] at hstay
    obtain ⟨v', hv', halike'⟩ := hplays'.of_alike halike hf.locals
      (hf.stay.mono (List.Subset.trans (List.subset_append_right _ _) hstay))
    have hall := hplays.append hv'
    rw [List.append_nil] at hall
    refine ⟨moves ++ moves', v', hmakes moves' hmakes', hall, fun c hc ↦ ?_⟩
    rw [payload_of_values hvalues]
    exact (halike'.payload c hc).symm

/-- **Updates that have ended have made moves of theirs**, up to the end or to one that fails. -/
theorem Applied.exists_plays {o : Except Problem Unit} {w' : World η}
    (h : Applied w us locals base ms o w') (ho : w.Orderly) (hpublished : w.published = true)
    (hf : w.Furnished us locals) :
    ∃ moves v, MakesAll us moves ∧
      Plays locals w moves o (changedCells (ms.flatMap Moment.news)) v ∧
      ∀ c, w.HasCell c → w'.payload c = v.payload c := by
  obtain ⟨w₁, us₁, hhistory, hheight, hending⟩ := h
  rcases hhistory.underway ho hpublished hf hheight with
    ⟨above, us', moves, v, hstack, habove, hmakes, hplays, halike⟩ | hover
  · -- The work above is done.
    obtain rfl : above = [] := by
      cases above with
      | nil => rfl
      | cons x above =>
        obtain ⟨rfl, -⟩ := List.cons.inj hstack
        exact absurd List.mem_cons_self (habove us₁ locals)
    obtain ⟨hperform, -⟩ := List.cons.inj hstack
    cases hperform
    exact exists_plays_of_ending hending hf hmakes hplays halike
  · exact absurd hover (List.cons_ne_self _ _)

/-- **To apply updates is to make moves of their tree, one after the other, up to the first that
fails.** Let observers do anything but change values. Updates that are applied over published
globals then end; and however they do, some moves of their tree have been made in order, each in the
state that those before it have left, and nothing else has changed a value or is news of a change.
If the updates fail, then with the problem of a single move, which has changed nothing: all before it
have been made, and none after it. -/
theorem apply_makes_moves (ho : w.Orderly) (hpublished : w.published = true)
    (hf : w.Furnished us locals) (base : List (Work η)) :
    (∃ ms, Applied w us locals base ms (w.apply us locals).outcome (w.apply us locals).world) ∧
      ∀ ms o w', Applied w us locals base ms o w' →
        ∃ moves v, MakesAll us moves ∧
          Plays locals w moves o (changedCells (ms.flatMap Moment.news)) v ∧
          (∀ c, w.HasCell c → w'.payload c = v.payload c) ∧
          ∀ p, o = .error p → ∃ done m later, moves = done ++ m :: later ∧
            Plays locals w done (.ok ()) (changedCells (ms.flatMap Moment.news)) v ∧
            v.Fails locals p m := by
  refine ⟨exists_applied w us locals base, fun ms o w' h ↦ ?_⟩
  obtain ⟨moves, v, hmakes, hplays, hpayload⟩ := h.exists_plays ho hpublished hf
  refine ⟨moves, v, hmakes, hplays, hpayload, ?_⟩
  rintro p rfl
  exact hplays.exists_prefix

/-! ### Updates that fail on the way -/

/-- Three cells, the first of which is the global count. -/
def tallying : List (Option (Deed Unit)) :=
  [some (.create (.int 5)), some (.create (.int 7)), some (.create (.string "x")),
    some (.addGlobal "count" 0), some .publish]

def tally : World Unit := (follow tallying ⟨start, []⟩).2.world

theorem orderly_tally : tally.Orderly :=
  have hhistory : History anything ⟨start, []⟩ _ _ := .ofPlan tallying ⟨start, []⟩ (by decide)
  hhistory.run.orderly orderly_start

/-- Whether the count is what the second cell holds. -/
def level : Predicate CellId := .term (.relation .equals (.fromGlobal "count") (.literal 1))

/-- The count is set, which decides that the second cell is cleared; a text is then no place for a
number, so the count is not cleared any more. -/
def stumbling : List (Update CellId) :=
  [.assign .set (.fromGlobal "count") (.literal 1), .when level [.clear [.literal 1]],
    .assign .set (.literal 2) (.fromGlobal "count"), .clear [.fromGlobal "count"]]

/-- Its moves, if the second cell is cleared. -/
def stumbled : List (Move CellId) :=
  [.carry (.assign .set (.fromGlobal "count") (.literal 1)), .ask level true,
    .carry (.clear (.literal 1)), .carry (.assign .set (.literal 2) (.fromGlobal "count")),
    .carry (.clear (.fromGlobal "count"))]

theorem apply_makes_moves_stumbling :
    (tally.apply stumbling .empty).outcome = .error (.cannotFold "set" .int .string) ∧
      (tally.apply stumbling .empty).world.payload 0 = .int 7 ∧
      (tally.apply stumbling .empty).world.payload 1 = .int 0 ∧
      (tally.apply stumbling .empty).world.payload 2 = .string "x" := by
  have hf : tally.Furnished stumbling .empty := ⟨by decide, by decide, by decide⟩
  obtain ⟨⟨ms, hms⟩, hall⟩ := apply_makes_moves orderly_tally rfl hf []
  obtain ⟨moves, v, hmakes, hplays, hpayload, -⟩ := hall ms _ _ hms
  have hstumbled : MakesAll stumbling stumbled :=
    ⟨[_], _, rfl, rfl, [_, _], _, rfl, ⟨true, [_], rfl, [_], [], rfl, rfl, rfl⟩, [_], _, rfl, rfl, [_],
      [], rfl, rfl, rfl⟩
  have hplays' : Plays .empty tally stumbled _ _ _ :=
    .carry (e := some (0, .int 7)) rfl (.ask rfl (.carry (e := some (1, .int 0)) rfl (.fail _ rfl)))
  obtain ⟨houtcome, -, rfl⟩ := hplays.unique (parts_of_makesAll stumbling hmakes hstumbled) hplays'
  exact ⟨houtcome, hpayload 0 rfl, hpayload 1 rfl, hpayload 2 rfl⟩

end Activity

end LiveTemplate.Engine
