import LiveTemplate.Proofs.Commuting
import LiveTemplate.Proofs.Effects
import LiveTemplate.Proofs.Ordering
import LiveTemplate.Proofs.Schema

/-!
# Updates that can take each other's place

The forms of updates that decide what to do can be told in terms of each other: a choice is a switch
whose last case is always true, of a negated condition the two sides change places, a sequence is its
updates, no case after one that is always true is ever reached, and to set a value if it is empty is
to ask whether it equals nothing and then to set it (`Interchange`, which is closed under doing so in
any part of a tree, any number of times).

Updates that can take each other's place in this way have the same effect (`Interchange.sameEffect`).
That goes for all worlds for most of the laws. The last one needs its target to be found and what is
empty to stay so; and these hold on at every point of a run, since published globals stay and no
update changes the kind of a cell (`Later`). Its two sides also give their own names in a problem.
-/

namespace LiveTemplate.Engine

open World Update Effect

variable {η : Type}

/-- Nothing else is of the empty kind. -/
theorem eq_empty_of_kind {p : Payload} (h : p.kind = .empty) : p = .empty := by
  cases p <;> cases h
  rfl

/-! ### The same effect -/

/-- The same outcome; or, if names may differ, the same problem up to the name of the update. -/
inductive SameOutcome (renamed : Bool) : Except Problem Unit → Except Problem Unit → Prop
  | same (o : Except Problem Unit) : SameOutcome renamed o o
  | cannotFold (hrenamed : renamed = true) (name name' : String) (source target : Kind) :
      SameOutcome renamed (.error (.cannotFold name source target))
        (.error (.cannotFold name' source target))

namespace SameOutcome

variable {renamed : Bool} {o o' o'' : Except Problem Unit}

theorem symm (h : SameOutcome renamed o o') : SameOutcome renamed o' o := by
  cases h with
  | same => exact .same o
  | cannotFold hrenamed name name' source target => exact .cannotFold hrenamed name' name source target

theorem trans (h : SameOutcome renamed o o') (h' : SameOutcome renamed o' o'') :
    SameOutcome renamed o o'' := by
  cases h with
  | same => exact h'
  | cannotFold hrenamed name _ source target =>
    cases h' with
    | same => exact .cannotFold hrenamed name _ source target
    | cannotFold _ _ name'' => exact .cannotFold hrenamed name name'' source target

theorem eq (h : SameOutcome renamed o o') (hrenamed : renamed = false) : o' = o := by
  cases h with
  | same => rfl
  | cannotFold htrue =>
    rw [hrenamed] at htrue
    cases htrue

end SameOutcome

/-- The same effect, but perhaps for the name of an update. -/
structure SameEffect (renamed : Bool) (r r' : Effect η) : Prop where
  outcome : SameOutcome renamed r.outcome r'.outcome
  changed : r'.changed = r.changed
  world : r'.world = r.world

namespace SameEffect

variable {renamed : Bool} {r r' r'' : Effect η}

theorem refl (renamed : Bool) (r : Effect η) : SameEffect renamed r r := ⟨.same _, rfl, rfl⟩

theorem of_eq (h : r = r') : SameEffect renamed r r' := h ▸ .refl renamed r

theorem symm (h : SameEffect renamed r r') : SameEffect renamed r' r :=
  ⟨h.outcome.symm, h.changed.symm, h.world.symm⟩

theorem trans (h : SameEffect renamed r r') (h' : SameEffect renamed r' r'') :
    SameEffect renamed r r'' :=
  ⟨h.outcome.trans h'.outcome, h'.changed.trans h.changed, h'.world.trans h.world⟩

theorem andThen (h : SameEffect renamed r r') {next next' : World η → Effect η}
    (hnext : SameEffect renamed (next r.world) (next' r.world)) :
    SameEffect renamed (r.andThen next) (r'.andThen next') := by
  obtain ⟨o, changed, w⟩ := r
  obtain ⟨o', changed', w'⟩ := r'
  obtain ⟨houtcome, rfl, rfl⟩ := h
  cases houtcome with
  | same =>
    cases o with
    | error p => exact .refl renamed _
    | ok _ => exact ⟨hnext.outcome, congrArg (changed' ++ ·) hnext.changed, hnext.world⟩
  | cannotFold hrenamed name name' source target =>
    exact ⟨.cannotFold hrenamed name name' source target, rfl, rfl⟩

theorem ofAnswer {w : World η} (answer : Except Problem Bool) {yes yes' no no' : Effect η}
    (hyes : SameEffect renamed yes yes') (hno : SameEffect renamed no no') :
    SameEffect renamed (ofAnswer w answer yes no) (ofAnswer w answer yes' no') := by
  cases answer with
  | error p => exact .refl renamed _
  | ok b =>
    cases b with
    | true => exact hyes
    | false => exact hno

end SameEffect

namespace World

variable {w w' w₁ : World η} {locals : ValueMap}

/-! ### What stays while updates are executed -/

/-- The same globals are published, and no cell has changed its kind. -/
structure Later (w w' : World η) : Prop extends SameGlobals w w' where
  kind : ∀ c, (w'.payload c).kind = (w.payload c).kind

theorem Later.refl (hpublished : w.published = true) : Later w w :=
  ⟨⟨hpublished, hpublished, rfl⟩, fun _ ↦ rfl⟩

theorem Later.trans {w'' : World η} (h : Later w w') (h' : Later w' w'') : Later w w'' :=
  ⟨h.toSameGlobals.trans h'.toSameGlobals, fun c ↦ (h'.kind c).trans (h.kind c)⟩

theorem later_effectAll (hpublished : w.published = true) (locals : ValueMap)
    (us : List (Update CellId)) : Later w (effectAll locals us w).world := by
  obtain ⟨ms, -, hplays⟩ := exists_brings_effectAll locals us w
  exact ⟨(Plays.frame hplays hpublished).1, Plays.kind hplays⟩

/-! ### The laws -/

theorem evaluate_const (w : World η) (locals : ValueMap) (b : Bool) :
    (w.evaluate locals (.const b)).1 = .ok b := by
  rw [evaluate_eq]
  rfl

theorem evaluate_not (w : World η) (locals : ValueMap) (p : Predicate CellId) :
    (w.evaluate locals (.not p)).1 = (w.evaluate locals p).1.map (!·) := by
  rw [evaluate_eq, evaluate_eq]
  have hbind : w.bind locals (.not p) = w.bind locals p >>= fun f ↦ pure (Formula.not f) := rfl
  rw [hbind]
  cases w.bind locals p <;> rfl

theorem effectCases_const_true (locals : ValueMap) (us : List (Update CellId))
    (later : List (Case CellId)) (w : World η) :
    effectCases locals (.mk (.const true) us :: later) w = effectAll locals us w := by
  rw [effectCases, evaluate_const]
  rfl

/-- A choice is a switch whose last case is always true. -/
theorem effect_choose (locals : ValueMap) (p : Predicate CellId) (us vs : List (Update CellId))
    (w : World η) : effect locals (.choose p us vs) w =
      effect locals (.switch [.mk p us, .mk (.const true) vs]) w := by
  rw [effect, effect, effectCases, effectCases_const_true]

/-- Of a negated condition the two sides change places. -/
theorem effect_choose_not (locals : ValueMap) (p : Predicate CellId)
    (us vs : List (Update CellId)) (w : World η) :
    effect locals (.choose (.not p) us vs) w = effect locals (.choose p vs us) w := by
  rw [effect, effect, evaluate_not]
  obtain _ | _ | _ := (w.evaluate locals p).1 <;> rfl

theorem sameEffect_singleton {renamed : Bool} {u u' : Update CellId}
    (h : SameEffect renamed (effect locals u w) (effect locals u' w)) :
    SameEffect renamed (effectAll locals [u] w) (effectAll locals [u'] w) := by
  rwa [effectAll_singleton, effectAll_singleton]

/-- Cases make a difference only by their effect. -/
theorem sameEffect_case {renamed : Bool} (before : List (Case CellId)) {cases cases' : List (Case CellId)}
    (h : SameEffect renamed (effectCases locals cases w) (effectCases locals cases' w)) :
    SameEffect renamed (effectCases locals (before ++ cases) w)
      (effectCases locals (before ++ cases') w) := by
  induction before with
  | nil => exact h
  | cons c before ih =>
    obtain ⟨p, us⟩ := c
    exact .ofAnswer _ (.refl renamed _) ih

/-- Whether something equals what is empty is whether it is zero. -/
theorem evaluate_equals_empty {t e : Reference CellId} {c c' : CellId}
    (ht : w.resolve locals t = .ok (some c)) (he : w.resolve locals e = .ok (some c'))
    (hempty : (w.payload c').kind = .empty) :
    (w.evaluate locals (.term (.relation .equals t e))).1 = .ok (w.payload c).isZero := by
  have hoperand : ∀ {r : Reference CellId} {c : CellId}, w.resolve locals r = .ok (some c) →
      w.operand locals "equals" r = .ok c := fun hr ↦ by rw [operand, hr]; rfl
  have hbind : w.bind locals (.term (.relation .equals t e)) =
      .ok (.term (.relation .equals c c')) := by
    show (do
      let u ← Term.traverse (w.operand locals "equals") (.relation .equals t e)
      pure (Formula.term u)) = _
    rw [Term.traverse, hoperand ht, hoperand he]
    rfl
  have hnothing : w.payload c' = .empty := eq_empty_of_kind hempty
  rw [evaluate_of_bind hbind]
  refine congrArg Except.ok ?_
  show ((w.payload c).order (w.payload c') == .eq) = (w.payload c).isZero
  rw [hnothing, Payload.order_empty]
  cases (w.payload c).isZero <;> rfl

/-- The name of an assignment shows only in what is wrong with it. -/
theorem foldEdit_name {t s : Reference CellId} {c : CellId} {mode : Payload.FoldMode}
    (ht : w.resolve locals t = .ok (some c)) (name name' : String) :
    w.foldEdit locals name t s mode = w.foldEdit locals name' t s mode ∨
      ∃ source target, w.foldEdit locals name t s mode = .error (.cannotFold name source target) ∧
        w.foldEdit locals name' t s mode = .error (.cannotFold name' source target) := by
  have htarget : ∀ name : String, w.target locals name t = .ok c := fun _ ↦ target_eq_ok.2 ht
  unfold foldEdit
  rw [htarget, htarget]
  cases w.resolve locals s with
  | error p => exact .inl rfl
  | ok found =>
    cases found with
    | none => exact .inl rfl
    | some from_ =>
      simp only [Bind.bind, Except.bind]
      cases Payload.fold mode (w.payload c) (w.payload from_) with
      | none => exact .inr ⟨_, _, rfl, rfl⟩
      | some p => exact .inl rfl

/-- To set a value if it is empty is to ask whether it equals nothing, and then to set it. -/
theorem sameEffect_setIfEmpty {t e : Reference CellId} {c c' : CellId}
    (ht : w.resolve locals t = .ok (some c)) (he : w.resolve locals e = .ok (some c'))
    (hempty : (w.payload c').kind = .empty) (s : Reference CellId) :
    SameEffect true (effect locals (.assign .setIfEmpty t s) w)
      (effect locals (.when (.term (.relation .equals t e)) [.assign .set t s]) w) := by
  rw [effect, effect, evaluate_equals_empty ht he hempty, effectAll_singleton, effect]
  cases hzero : (w.payload c).isZero with
  | false =>
    have hkeep : w.editOf locals (.assign .setIfEmpty t s) = .ok none :=
      editOf_eq_ok.2 (.keep s ht hzero)
    rw [effectOf, hkeep]
    exact .refl true _
  | true =>
    have hfirst : w.editOf locals (.assign .setIfEmpty t s) =
        w.foldEdit locals "set-if-empty" t s ⟨false, true⟩ :=
      assignEdit_eq (a := .setIfEmpty) fun _ ↦ ⟨c, ht, hzero⟩
    have hsecond : w.editOf locals (.assign .set t s) =
        w.foldEdit locals "set" t s ⟨false, true⟩ := rfl
    show SameEffect true (w.effectOf locals _) (w.effectOf locals _)
    rw [effectOf, effectOf, hfirst, hsecond]
    rcases foldEdit_name ht "set-if-empty" "set" with heq | ⟨source, target, hfail, hfail'⟩
    · rw [heq]
      exact .refl true _
    · rw [hfail, hfail']
      exact ⟨.cannotFold rfl _ _ source target, rfl, rfl⟩

/-! ### Anywhere in a tree -/

/-- Updates that can take each other's place: in a world, over a map of local values, and up to the
names of updates in problems if they may differ. -/
inductive Interchange (w : World η) (locals : ValueMap) (renamed : Bool) :
    List (Update CellId) → List (Update CellId) → Prop
  | refl (us : List (Update CellId)) : Interchange w locals renamed us us
  | symm {us us' : List (Update CellId)} (h : Interchange w locals renamed us us') :
      Interchange w locals renamed us' us
  | trans {us us' us'' : List (Update CellId)} (h : Interchange w locals renamed us us')
      (h' : Interchange w locals renamed us' us'') : Interchange w locals renamed us us''
  | append {us us' vs vs' : List (Update CellId)} (h : Interchange w locals renamed us us')
      (h' : Interchange w locals renamed vs vs') :
      Interchange w locals renamed (us ++ vs) (us' ++ vs')
  | when (p : Predicate CellId) {us us' : List (Update CellId)}
      (h : Interchange w locals renamed us us') :
      Interchange w locals renamed [.when p us] [.when p us']
  | choose (p : Predicate CellId) {us us' vs vs' : List (Update CellId)}
      (h : Interchange w locals renamed us us') (h' : Interchange w locals renamed vs vs') :
      Interchange w locals renamed [.choose p us vs] [.choose p us' vs']
  | case (before : List (Case CellId)) (p : Predicate CellId) (later : List (Case CellId))
      {us us' : List (Update CellId)} (h : Interchange w locals renamed us us') :
      Interchange w locals renamed [.switch (before ++ .mk p us :: later)]
        [.switch (before ++ .mk p us' :: later)]
  /-- A choice is a switch whose last case is always true. -/
  | chooseSwitch (p : Predicate CellId) (us vs : List (Update CellId)) :
      Interchange w locals renamed [.choose p us vs]
        [.switch [.mk p us, .mk (.const true) vs]]
  /-- A condition on its own is a switch with a single case. -/
  | whenSwitch (p : Predicate CellId) (us : List (Update CellId)) :
      Interchange w locals renamed [.when p us] [.switch [.mk p us]]
  /-- Of a negated condition the two sides change places. -/
  | chooseNot (p : Predicate CellId) (us vs : List (Update CellId)) :
      Interchange w locals renamed [.choose (.not p) us vs] [.choose p vs us]
  /-- A sequence is its updates. -/
  | inPlace (us : List (Update CellId)) : Interchange w locals renamed [.sequence us] us
  /-- A case after one that is always true is never reached. -/
  | unreached (before : List (Case CellId)) (us : List (Update CellId))
      (between : List (Case CellId)) (c : Case CellId) (later : List (Case CellId)) :
      Interchange w locals renamed
        [.switch (before ++ .mk (.const true) us :: (between ++ c :: later))]
        [.switch (before ++ .mk (.const true) us :: (between ++ later))]
  /-- To set what is found if it is empty is to ask whether it equals nothing, and then to set it. -/
  | setIfEmpty (hrenamed : renamed = true) {t e : Reference CellId} {c c' : CellId}
      (ht : w.resolve locals t = .ok (some c)) (he : w.resolve locals e = .ok (some c'))
      (hempty : w.payload c' = .empty) (s : Reference CellId) :
      Interchange w locals renamed [.assign .setIfEmpty t s]
        [.when (.term (.relation .equals t e)) [.assign .set t s]]

/-- **Updates that can take each other's place have the same effect**, in the world and in all that
come of it while updates are executed. -/
theorem Interchange.sameEffect {renamed : Bool} {us us' : List (Update CellId)}
    (h : Interchange w locals renamed us us') (hlater : Later w w₁) :
    SameEffect renamed (effectAll locals us w₁) (effectAll locals us' w₁) := by
  induction h generalizing w₁ with
  | refl us => exact .refl renamed _
  | symm _ ih => exact (ih hlater).symm
  | trans _ _ ih ih' => exact (ih hlater).trans (ih' hlater)
  | append _ _ ih ih' =>
    rw [effectAll_append, effectAll_append]
    exact (ih hlater).andThen (ih' (hlater.trans (later_effectAll hlater.published' locals _)))
  | when p _ ih =>
    refine sameEffect_singleton ?_
    rw [effect, effect]
    exact .ofAnswer _ (ih hlater) (.refl renamed _)
  | choose p _ _ ih ih' =>
    refine sameEffect_singleton ?_
    rw [effect, effect]
    exact .ofAnswer _ (ih hlater) (ih' hlater)
  | case before p later _ ih =>
    refine sameEffect_singleton ?_
    rw [effect, effect]
    exact sameEffect_case before (.ofAnswer _ (ih hlater) (.refl renamed _))
  | chooseSwitch p us vs => exact sameEffect_singleton (.of_eq (effect_choose locals p us vs w₁))
  | whenSwitch p us => exact sameEffect_singleton (.of_eq rfl)
  | chooseNot p us vs => exact sameEffect_singleton (.of_eq (effect_choose_not locals p us vs w₁))
  | inPlace us =>
    rw [effectAll_singleton]
    exact .of_eq rfl
  | unreached before us between c later =>
    have hreached : SameEffect renamed
        (effectCases locals (.mk (.const true) us :: (between ++ c :: later)) w₁)
        (effectCases locals (.mk (.const true) us :: (between ++ later)) w₁) := by
      rw [effectCases_const_true, effectCases_const_true]
      exact .refl renamed _
    refine sameEffect_singleton ?_
    rw [effect, effect]
    exact sameEffect_case before hreached
  | setIfEmpty hrenamed ht he hempty s =>
    subst hrenamed
    have ht₁ := (hlater.resolve locals _).trans ht
    have he₁ := (hlater.resolve locals _).trans he
    refine sameEffect_singleton (sameEffect_setIfEmpty ht₁ he₁ ?_ s)
    rw [hlater.kind, hempty]
    rfl

end World

namespace Activity

variable {w : World η} {us us' : List (Update CellId)} {locals : ValueMap} {renamed : Bool}

/-- **The forms of updates can be told in terms of each other.** Let observers do anything but change
values, and let the globals be published. Updates that can take each other's place end, in whatever
else there is to be done; and then with the same outcome, but perhaps for the name of an update in
the problem, after the same changes in the same order, and with the same values. -/
theorem applied_interchange (ho : w.Orderly) (hpublished : w.published = true)
    (hf : w.Furnished us locals) (hf' : w.Furnished us' locals)
    (h : Interchange w locals renamed us us') (base base' : List (Work η)) :
    (∃ ms, Applied w us locals base ms (w.apply us locals).outcome (w.apply us locals).world) ∧
      (∃ ms, Applied w us' locals base' ms (w.apply us' locals).outcome
        (w.apply us' locals).world) ∧
      ∀ ms o w₁ ms' o' w₁', Applied w us locals base ms o w₁ →
        Applied w us' locals base' ms' o' w₁' →
          SameOutcome renamed o o' ∧ (renamed = false → o' = o) ∧
          changedCells (ms'.flatMap Moment.news) = changedCells (ms.flatMap Moment.news) ∧
          ∀ c, w.HasCell c → w₁'.payload c = w₁.payload c := by
  refine ⟨exists_applied w us locals base, exists_applied w us' locals base',
    fun ms o w₁ ms' o' w₁' happlied happlied' ↦ ?_⟩
  obtain ⟨rfl, hchanged, hpayload⟩ := happlied.effect ho hpublished hf
  obtain ⟨rfl, hchanged', hpayload'⟩ := happlied'.effect ho hpublished hf'
  have hsame := h.sameEffect (.refl hpublished)
  refine ⟨hsame.outcome, hsame.outcome.eq, ?_, fun c hc ↦ ?_⟩
  · rw [hchanged, hchanged', hsame.changed]
  · rw [hpayload c hc, hpayload' c hc, hsame.world]

/-! ### A tree that is rewritten -/

/-- A number, which is the global count, a text, and nothing. -/
def fixtures : List (Option (Deed Unit)) :=
  [some (.create (.int 0)), some (.create (.string "x")), some (.create .empty),
    some (.addGlobal "count" 0), some .publish]

def shop : World Unit := (follow fixtures ⟨start, []⟩).2.world

/-- Whether the count is zero. -/
def fresh : Predicate CellId := .term (.relation .equals (.fromGlobal "count") (.literal 2))

/-- Clears the text, or sets the count to it. -/
def counting : List (Update CellId) :=
  [.sequence [.choose (.not fresh) [.clear [.literal 1]]
    [.assign .setIfEmpty (.fromGlobal "count") (.literal 1)]]]

/-- The same, in other forms. -/
def recounting : List (Update CellId) :=
  [.switch [.mk fresh [.when fresh [.assign .set (.fromGlobal "count") (.literal 1)]],
    .mk (.const true) [.clear [.literal 1]]]]

/-- Both fail alike, each under its own name. -/
theorem applied_interchange_counting :
    ∃ ms w₁ ms' w₁', Applied shop counting .empty [] ms
        (.error (.cannotFold "set-if-empty" .string .int)) w₁ ∧
      Applied shop recounting .empty [] ms' (.error (.cannotFold "set" .string .int)) w₁' ∧
      ∀ c, shop.HasCell c → w₁'.payload c = w₁.payload c := by
  have hhistory : History anything ⟨start, []⟩ _ _ := .ofPlan fixtures ⟨start, []⟩ (by decide)
  have ho : shop.Orderly := hhistory.run.orderly orderly_start
  have hf : shop.Furnished counting .empty := ⟨by decide, by decide, by decide⟩
  have hf' : shop.Furnished recounting .empty := ⟨by decide, by decide, by decide⟩
  have hcount : shop.resolve .empty (.fromGlobal "count") = .ok (some 0) := rfl
  have hnothing : shop.resolve .empty (.literal 2) = .ok (some 2) := rfl
  have h : Interchange shop .empty true counting recounting :=
    .trans (.inPlace _) <| .trans (.chooseNot fresh _ _) <|
      .trans (.choose fresh (.setIfEmpty rfl hcount hnothing rfl _) (.refl _)) <|
        .chooseSwitch fresh _ _
  obtain ⟨⟨ms, happlied⟩, ⟨ms', happlied'⟩, hall⟩ := applied_interchange ho rfl hf hf' h [] []
  obtain ⟨-, -, -, hpayload⟩ := hall _ _ _ _ _ _ happlied happlied'
  rw [(happlied.effect ho rfl hf).1] at happlied
  rw [(happlied'.effect ho rfl hf').1] at happlied'
  exact ⟨ms, _, ms', _, happlied, happlied', hpayload⟩

end Activity

end LiveTemplate.Engine
