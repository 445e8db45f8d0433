import LiveTemplate.Proofs.Doubles
import LiveTemplate.Proofs.Notification

/-!
# What comes of folding

What can be folded into what depends on the kinds only (`Kind.FoldsInto`), and what comes of it is
told by a rule for each sort of payload (`FoldsTo`). What is empty leaves the zero of the kind
(`Kind.Zero`). A scalar takes what it is given, which for a whole number is the floor of a double
(`FloorsTo`), or it is switched off, which leaves the zero too. A list takes items in their order, and
of a set it matters only who its members are. The code follows this rule (`fold_eq_some_iff`).

A cell into which another one is folded changes exactly if what comes of it differs from what it
holds; then everybody who observes the cell is told once of the change, and otherwise nobody is told
(`fold_follows`).
-/

namespace LiveTemplate

/-- Whether payloads of a kind are scalars. -/
def Kind.isScalar : Kind → Bool
  | .string | .int | .dbl | .duration | .timestamp => true
  | _ => false

/-- The zero of each kind: no text, no items, the number zero, no time at all, and the point in time
at which the count of seconds begins. -/
inductive Kind.Zero : Kind → Payload → Prop
  | empty : Zero .empty .empty
  | string : Zero .string (.string "")
  | stringList : Zero .stringList (.stringList [])
  | stringSet {items : SortedSet String} (h : ∀ a, a ∉ items) : Zero .stringSet (.stringSet items)
  | int : Zero .int (.int 0)
  | intList : Zero .intList (.intList [])
  | intSet {items : SortedSet Int64} (h : ∀ n, n ∉ items) : Zero .intSet (.intSet items)
  | dbl : Zero .dbl (.dbl 0.0)
  | duration : Zero .duration (.duration 0)
  | timestamp : Zero .timestamp (.timestamp ⟨0, 0⟩)

/-- What can be folded into what: what is empty into anything, scalars of a kind into each other,
whole numbers and doubles into each other, and into collections of texts or of whole numbers what
gives such items. -/
def Kind.FoldsInto (k k' : Kind) : Prop :=
  k = .empty ∨ k = k' ∧ k'.isScalar = true ∨ k = .int ∧ k' = .dbl ∨ k = .dbl ∧ k' = .int ∨
    k ∈ [.string, .stringList, .stringSet] ∧ k' ∈ [.stringList, .stringSet] ∨
    k ∈ [.int, .intList, .intSet] ∧ k' ∈ [.intList, .intSet]

instance (k k' : Kind) : Decidable (k.FoldsInto k') := inferInstanceAs (Decidable (_ ∨ _))

namespace Payload

/-! ### The rule -/

/-- The whole number that a double gives: its floor, or the end of the range that this is beyond;
and zero if it is not a number. -/
inductive FloorsTo (x : Float) : Int64 → Prop
  | finite {v : ℚ} {n : Int64} (hv : Decimal.value? x = some v)
      (hn : n.toInt = max Int64.minValue.toInt (min ⌊v⌋ Int64.maxValue.toInt)) : FloorsTo x n
  | above (h : Decimal.Reading.ofFloat x = .infinite false) : FloorsTo x Int64.maxValue
  | below (h : Decimal.Reading.ofFloat x = .infinite true) : FloorsTo x Int64.minValue
  | notANumber (h : Decimal.Reading.ofFloat x = .notANumber) : FloorsTo x 0

/-- What a scalar is given by another one. -/
inductive Coerces : Payload → Payload → Payload → Prop
  | same {current source : Payload} (hkind : source.kind = current.kind)
      (hscalar : current.kind.isScalar = true) : Coerces current source source
  | floor (n : Int64) {x : Float} {m : Int64} (h : FloorsTo x m) :
      Coerces (.int n) (.dbl x) (.int m)
  | widen (x : Float) (n : Int64) : Coerces (.dbl x) (.int n) (.dbl n.toFloat)

/-- The texts that a payload gives to a collection, in order. -/
inductive GivesStrings : Payload → List String → Prop
  | one (s : String) : GivesStrings (.string s) [s]
  | list (items : List String) : GivesStrings (.stringList items) items
  | set (items : SortedSet String) : GivesStrings (.stringSet items) items.items

/-- The whole numbers that a payload gives to a collection, in order. -/
inductive GivesInts : Payload → List Int64 → Prop
  | one (n : Int64) : GivesInts (.int n) [n]
  | list (items : List Int64) : GivesInts (.intList items) items
  | set (items : SortedSet Int64) : GivesInts (.intSet items) items.items

/-- What becomes of a list that is given items. -/
inductive ListTakes {α : Type} (mode : FoldMode) (current items : List α) : List α → Prop
  | off (htoggle : mode.toggle = true) (heq : current = items) : ListTakes mode current items []
  | replace (hne : mode.toggle = true → current ≠ items) (hreplace : mode.replace = true) :
      ListTakes mode current items items
  | append (hne : mode.toggle = true → current ≠ items) (hreplace : mode.replace = false) :
      ListTakes mode current items (current ++ items)

/-- What becomes of a set that is given items. -/
def SetTakes {α : Type} [Ord α] (mode : FoldMode) (current : SortedSet α) (items : List α)
    (next : SortedSet α) : Prop :=
  ∀ a, a ∈ next ↔
    if mode.toggle then a ∈ current ∧ a ∉ items ∨ a ∈ items ∧ a ∉ current
    else if mode.replace then a ∈ items
    else a ∈ current ∨ a ∈ items

/-- What comes of folding a payload into another one. -/
inductive FoldsTo (mode : FoldMode) : Payload → Payload → Payload → Prop
  | clear {current zero : Payload} (hzero : current.kind.Zero zero) :
      FoldsTo mode current .empty zero
  | off {current source given zero : Payload} (h : Coerces current source given)
      (htoggle : mode.toggle = true) (heq : (given == current) = true)
      (hzero : current.kind.Zero zero) : FoldsTo mode current source zero
  | take {current source given : Payload} (h : Coerces current source given)
      (hne : mode.toggle = true → (given == current) = false) : FoldsTo mode current source given
  | stringList {current items next : List String} {source : Payload}
      (hitems : source.GivesStrings items) (h : ListTakes mode current items next) :
      FoldsTo mode (.stringList current) source (.stringList next)
  | intList {current items next : List Int64} {source : Payload} (hitems : source.GivesInts items)
      (h : ListTakes mode current items next) :
      FoldsTo mode (.intList current) source (.intList next)
  | stringSet {current next : SortedSet String} {items : List String} {source : Payload}
      (hitems : source.GivesStrings items) (h : SetTakes mode current items next) :
      FoldsTo mode (.stringSet current) source (.stringSet next)
  | intSet {current next : SortedSet Int64} {items : List Int64} {source : Payload}
      (hitems : source.GivesInts items) (h : SetTakes mode current items next) :
      FoldsTo mode (.intSet current) source (.intSet next)

/-! ### The rule is followed -/

variable {mode : FoldMode} {current source next : Payload}

theorem zero_iff : current.kind.Zero next ↔ next = current.zero := by
  constructor
  · intro h
    cases current <;> cases h
    case stringSet.stringSet items h =>
      exact congrArg stringSet (SortedSet.ext_of_mem fun a ↦
        iff_of_false (h a) (SortedSet.not_mem_empty a))
    case intSet.intSet items h =>
      exact congrArg intSet (SortedSet.ext_of_mem fun n ↦
        iff_of_false (h n) (SortedSet.not_mem_empty n))
    all_goals rfl
  · rintro rfl
    cases current
    case stringSet => exact .stringSet SortedSet.not_mem_empty
    case intSet => exact .intSet SortedSet.not_mem_empty
    all_goals constructor

/-- **What is empty leaves nothing but the zero.** -/
theorem FoldsTo.zero_of_empty (h : FoldsTo mode current .empty next) : current.kind.Zero next := by
  have hnone : ∀ {given : Payload}, ¬Coerces current .empty given := fun hgiven ↦ by
    cases hgiven with
    | same hkind hscalar =>
      rw [← hkind] at hscalar
      cases hscalar
  cases h with
  | clear hzero => exact hzero
  | off hgiven => exact absurd hgiven hnone
  | take hgiven => exact absurd hgiven hnone
  | stringList hitems => cases hitems
  | intList hitems => cases hitems
  | stringSet hitems => cases hitems
  | intSet hitems => cases hitems

/-- **A scalar that is given what it holds is switched off**, and nothing but the zero is left. -/
theorem FoldsTo.zero_of_off (h : FoldsTo mode current source next) (htoggle : mode.toggle = true)
    (hscalar : current.kind.isScalar = true)
    (heq : ∀ given, Coerces current source given → (given == current) = true) :
    current.kind.Zero next := by
  cases h with
  | clear hzero => exact hzero
  | off _ _ _ hzero => exact hzero
  | take hgiven hne => exact absurd ((hne htoggle).symm.trans (heq _ hgiven)) Bool.false_ne_true
  | stringList => cases hscalar
  | intList => cases hscalar
  | stringSet => cases hscalar
  | intSet => cases hscalar

theorem floorsTo_iff {x : Float} {n : Int64} : FloorsTo x n ↔ n = floorInt64 x := by
  constructor
  · rintro (⟨hv, hn⟩ | h | h | h)
    · rw [← Int64.toInt_inj, hn, Decimal.floorInt64_eq hv, toInt_nearestInt64_eq]
    all_goals simp [floorInt64, h]
  · rintro rfl
    cases hx : Decimal.Reading.ofFloat x with
    | notANumber =>
      rw [floorInt64, hx]
      exact .notANumber hx
    | infinite negative =>
      rw [floorInt64, hx]
      cases negative with
      | false => exact .above hx
      | true => exact .below hx
    | finite negative magnitude =>
      obtain ⟨v, hv⟩ : ∃ v, Decimal.value? x = some v := by
        rw [Decimal.value?, hx]
        exact ⟨_, rfl⟩
      exact .finite hv (by rw [Decimal.floorInt64_eq hv, toInt_nearestInt64_eq])

theorem coerceScalar_eq_some_iff :
    coerceScalar current source = some next ↔ Coerces current source next := by
  constructor
  · intro h
    unfold coerceScalar at h
    split at h <;> cases h
    case h_3 n x => exact .floor n (floorsTo_iff.2 rfl)
    case h_5 x n => exact .widen x n
    all_goals exact .same rfl rfl
  · rintro (⟨hkind, hscalar⟩ | ⟨n, hfloor⟩ | ⟨x, n⟩)
    · cases current <;> cases hscalar <;> cases source <;> cases hkind <;> rfl
    · rw [floorsTo_iff.1 hfloor]
      rfl
    · rfl

theorem strings?_eq_some_iff {items : List String} :
    strings? source = some items ↔ source.GivesStrings items := by
  constructor
  · intro h
    cases source <;> cases h
    · exact .one _
    · exact .list _
    · exact .set _
  · rintro (_ | _ | _) <;> rfl

theorem ints?_eq_some_iff {items : List Int64} :
    ints? source = some items ↔ source.GivesInts items := by
  constructor
  · intro h
    cases source <;> cases h
    · exact .one _
    · exact .list _
    · exact .set _
  · rintro (_ | _ | _) <;> rfl

theorem foldList_eq_iff {α : Type} [BEq α] [LawfulBEq α] {current items next : List α} :
    foldList mode current items = next ↔ ListTakes mode current items next := by
  unfold foldList
  constructor
  · rintro rfl
    split
    next h =>
      rw [Bool.and_eq_true, beq_iff_eq] at h
      exact .off h.1 h.2
    next h =>
      have hne : mode.toggle = true → current ≠ items := fun htoggle heq ↦
        h (by rw [htoggle, heq, beq_self_eq_true]; rfl)
      split
      next hreplace => exact .replace hne hreplace
      next hreplace => exact .append hne (eq_false_of_ne_true hreplace)
  · rintro (⟨htoggle, rfl⟩ | ⟨hne, hreplace⟩ | ⟨hne, hreplace⟩)
    · simp [htoggle]
    · rw [if_neg fun h ↦ ?_, if_pos hreplace]
      rw [Bool.and_eq_true, beq_iff_eq] at h
      exact hne h.1 h.2
    · rw [if_neg fun h ↦ ?_, if_neg (by rw [hreplace]; exact Bool.false_ne_true)]
      rw [Bool.and_eq_true, beq_iff_eq] at h
      exact hne h.1 h.2

theorem foldSet_eq_iff {α : Type} [Ord α] [Std.TransOrd α] [Std.LawfulEqOrd α] [DecidableEq α]
    {current next : SortedSet α} {items : List α} :
    foldSet mode current items = next ↔ SetTakes mode current items next := by
  have htakes : SetTakes mode current items (foldSet mode current items) := by
    intro a
    unfold foldSet
    split
    · rw [SortedSet.mem_symmDiff, SortedSet.mem_ofList]
    · split
      · exact SortedSet.mem_ofList
      · rw [SortedSet.mem_union, SortedSet.mem_ofList]
  constructor
  · rintro rfl
    exact htakes
  · exact fun h ↦ SortedSet.ext_of_mem fun a ↦ (htakes a).trans (h a).symm

/-- **What can be folded into what depends on the kinds only.** -/
theorem isSome_fold_iff :
    (fold mode current source).isSome = true ↔ source.kind.FoldsInto current.kind := by
  have hkinds : (fold mode current source).isSome =
      decide (source.kind.FoldsInto current.kind) := by
    cases source <;> cases current <;> rfl
  rw [hkinds, decide_eq_true_iff]

/-- **The rule is followed.** -/
theorem fold_eq_some_iff : fold mode current source = some next ↔
    FoldsTo mode current source next := by
  constructor
  · intro h
    unfold fold at h
    split at h
    next =>
      cases h
      exact .clear (zero_iff.2 rfl)
    next =>
      split at h
      · cases h
      · obtain ⟨items, hitems, rfl⟩ := Option.map_eq_some_iff.1 h
        exact .stringList (strings?_eq_some_iff.1 hitems) (foldList_eq_iff.1 rfl)
      · obtain ⟨items, hitems, rfl⟩ := Option.map_eq_some_iff.1 h
        exact .intList (ints?_eq_some_iff.1 hitems) (foldList_eq_iff.1 rfl)
      · obtain ⟨items, hitems, rfl⟩ := Option.map_eq_some_iff.1 h
        exact .stringSet (strings?_eq_some_iff.1 hitems) (foldSet_eq_iff.1 rfl)
      · obtain ⟨items, hitems, rfl⟩ := Option.map_eq_some_iff.1 h
        exact .intSet (ints?_eq_some_iff.1 hitems) (foldSet_eq_iff.1 rfl)
      · obtain ⟨given, hgiven, rfl⟩ := Option.map_eq_some_iff.1 h
        have hcoerces := coerceScalar_eq_some_iff.1 hgiven
        split
        next heq =>
          rw [Bool.and_eq_true] at heq
          exact .off hcoerces heq.1 heq.2 (zero_iff.2 rfl)
        next hne =>
          refine .take hcoerces fun htoggle ↦ eq_false_of_ne_true fun heq ↦ hne ?_
          rw [htoggle, heq]
          rfl
  · have hscalar : ∀ {current source given : Payload}, Coerces current source given →
        fold mode current source =
          some (if mode.toggle && given == current then current.zero else given) := by
      intro current source given h
      cases h with
      | same hkind hscalar =>
        cases current <;> cases hscalar <;> cases source <;> cases hkind <;> rfl
      | floor n hfloor =>
        rw [floorsTo_iff.1 hfloor]
        rfl
      | widen => rfl
    intro h
    cases h with
    | clear hzero => exact congrArg some (zero_iff.1 hzero).symm
    | off h htoggle heq hzero =>
      rw [hscalar h, htoggle, heq, zero_iff.1 hzero]
      rfl
    | take h hne =>
      rw [hscalar h, if_neg]
      intro heq
      rw [Bool.and_eq_true] at heq
      exact Bool.false_ne_true ((hne heq.1).symm.trans heq.2)
    | stringList hitems h =>
      cases hitems <;> exact congrArg (some ∘ stringList) (foldList_eq_iff.2 h)
    | intList hitems h =>
      cases hitems <;> exact congrArg (some ∘ intList) (foldList_eq_iff.2 h)
    | stringSet hitems h =>
      cases hitems <;> exact congrArg (some ∘ stringSet) (foldSet_eq_iff.2 h)
    | intSet hitems h =>
      cases hitems <;> exact congrArg (some ∘ intSet) (foldSet_eq_iff.2 h)

end Payload

namespace Session

open Engine

/-- Once both values have been found, for which cells have been made at most, a session that cannot
fold one into the other answers so and stays as it is, and otherwise replies when the work is
done. -/
theorem run_fold {of from_ : Operand} {mode : Payload.FoldMode} {inHand : List CellId}
    {s s' s'' : Session} {target source : CellId} (hof : operand of s = (.ok target, s'))
    (hfrom : operand from_ s' = (.ok source, s'')) :
    s.Extends s'' ∧
      (s''.world.fold target source mode = none →
        (ValueCommand.fold of from_ mode).run inHand s = (.ok (.reply (.flag false)), s'')) ∧
      ∀ w works, s''.world.fold target source mode = some (w, works) →
        (ValueCommand.fold of from_ mode).run inHand s =
          (.ok (.after works (.flag true) [target, source]), { s'' with world := w }) := by
  have hextends := extends_operand of s
  have hextends' := extends_operand from_ s'
  rw [hof] at hextends
  rw [hfrom] at hextends'
  refine ⟨hextends.trans hextends', fun hnone ↦ ?_, fun w works hsome ↦ ?_⟩
  · refine (Act.bind_of_ok hof).trans ((Act.bind_of_ok hfrom).trans ?_)
    refine (Act.bind_of_ok (Act.get_eq s'')).trans ?_
    simp only [hnone]
    rfl
  · refine (Act.bind_of_ok hof).trans ((Act.bind_of_ok hfrom).trans ?_)
    refine (Act.bind_of_ok (Act.get_eq s'')).trans ?_
    simp only [hsome]
    rfl

end Session

namespace Engine

open World

variable {η : Type}

/-! ### Who is told -/

namespace Activity

/-- The observer of a cell that is called at a moment by a pass that has some number of pieces of
work below it. -/
def Moment.tells (c : CellId) (below : Nat) (m : Moment η) : Option (Observer η) :=
  (m.turnOf c below).bind fun _ ↦ m.called c

/-- Those who observed a cell when it changed have been told of the change once, unless they have
stopped observing, in the order in which they came; and nobody else has been told. -/
structure Told (c : CellId) (observers : List (Observer η)) (below : Nat) (ms : List (Moment η))
    (b : Activity η) : Prop where
  inOrder : (ms.filterMap (·.tells c below)).Sublist observers
  atMostOnce : ((ms.filterMap (·.tells c below)).map Observer.ticket).Nodup
  once : ∀ o ∈ observers, b.world.observes c o.ticket = true →
    ((ms.filterMap (·.tells c below)).map Observer.ticket).count o.ticket = 1

variable {may : Activity η → Deed η → Prop} {b : Activity η} {ms : List (Moment η)} {c : CellId}
  {base : List (Work η)} {due : List (Observer η)}

/-- Who is called at a turn of a pass is the one whose turn it is. -/
theorem Pass.tells_eq {rest : List (Observer η)} (h : Pass c base due ms rest) {m : Moment η}
    (hm : m ∈ ms) :
    m.tells c base.length = none ∨ m.tells c base.length = m.turnOf c base.length := by
  unfold Moment.tells
  cases hturn : m.turnOf c base.length with
  | none => exact .inl rfl
  | some o =>
    obtain ⟨w, current, others, -, hcalled⟩ := h.turns m hm o hturn
    rw [Option.bind_some, hcalled]
    split
    · exact .inr rfl
    · exact .inl rfl

theorem filterMap_sublist_filterMap {α β : Type} {f g : α → Option β} {l : List α}
    (h : ∀ a ∈ l, f a = none ∨ f a = g a) : (l.filterMap f).Sublist (l.filterMap g) := by
  induction l with
  | nil => exact .slnil
  | cons a l ih =>
    obtain ⟨ha, hl⟩ := List.forall_mem_cons.1 h
    have hrest := ih hl
    rcases ha with hnone | heq
    · rw [List.filterMap_cons_none hnone, List.filterMap_cons]
      cases g a with
      | none => exact hrest
      | some b => exact hrest.cons b
    · rw [List.filterMap_cons, List.filterMap_cons, heq]
      cases g a with
      | none => exact hrest
      | some b => exact hrest.cons_cons b

/-- **Once a pass is over**, everybody who was due has been called once, or has gone. -/
theorem Pass.told {w : World η} (h : Pass c base due ms [])
    (hhistory : History may ⟨w, .tellCell c none due :: base⟩ ms b) (ho : w.Orderly)
    (hgiven : ∀ o ∈ due, o.ticket < w.nextTicket)
    (hascending : (due.map Observer.ticket).Pairwise (· < ·)) : Told c due base.length ms b := by
  have horder : ms.filterMap (·.turnOf c base.length) = due := by simpa using h.order
  have hinOrder : (ms.filterMap (·.tells c base.length)).Sublist due := by
    have hsub := filterMap_sublist_filterMap fun m hm ↦ h.tells_eq (m := m) hm
    rwa [horder] at hsub
  have honce : ((ms.filterMap (·.tells c base.length)).map Observer.ticket).Nodup :=
    (hascending.sublist (hinOrder.map _)).imp Nat.ne_of_lt
  refine ⟨hinOrder, honce, fun o hmem hstays ↦ ?_⟩
  rw [← horder] at hmem
  obtain ⟨m, hm, hturn⟩ := List.mem_filterMap.1 hmem
  have hobserves : m.before.world.observes c o.ticket = true := by
    obtain ⟨before, later, rfl⟩ := List.append_of_mem hm
    obtain ⟨hbefore, hallowed, hlater⟩ := hhistory.at_moment
    refine eq_true_of_ne_false fun hgone ↦ ?_
    have hticket := Nat.lt_of_lt_of_le (hgiven o (horder ▸ hmem)) (hbefore.run.enlists ho).tickets
    have hgoes := (History.cons hallowed hlater).run.enlists (hbefore.run.orderly ho)
    exact Bool.false_ne_true ((hgoes.stays_gone hticket hgone).symm.trans hstays)
  obtain ⟨w', current, others, rfl, hcalled⟩ := h.turns m hm o hturn
  have htells : Moment.tells c base.length (.turn w' (.tellCell c current (o :: others)) base) =
      some o := by
    rw [Moment.tells, hturn, Option.bind_some, hcalled]
    exact if_pos hobserves
  exact List.count_eq_one_of_mem honce (List.mem_map_of_mem (List.mem_filterMap.2 ⟨_, hm, htells⟩))

end Activity

/-! ### Folding cells -/

namespace World

variable {w w' : World η} {target source : CellId} {mode : Payload.FoldMode}
  {works : List (Work η)}

/-- What is left of a cell that another one was folded into: it is the same if what comes of it is
equal; and otherwise it holds that, and those who observe it are to be told. -/
inductive Refolded (w : World η) (c : CellId) (next : Payload) : World η → List (Work η) → Prop
  | same (heq : (w.payload c == next) = true) : Refolded w c next w []
  | changed (hne : (w.payload c == next) = false) (hcell : w.HasCell c) :
      Refolded w c next (w.put c next) [.tellCell c none (w.observers c)]

/-- A cell that does not hold nothing exists. -/
theorem hasCell_of_payload {c : CellId} (h : w.payload c ≠ .empty) : w.HasCell c := by
  by_contra hcell
  rw [payload, Option.not_isSome_iff_eq_none.1 hcell] at h
  exact h rfl

theorem exists_of_fold (h : w.fold target source mode = some (w', works)) :
    ∃ next, Payload.FoldsTo mode (w.payload target) (w.payload source) next ∧
      w.Refolded target next w' works := by
  obtain ⟨next, hfold, hwrite⟩ := Option.map_eq_some_iff.1 h
  refine ⟨next, Payload.fold_eq_some_iff.1 hfold, ?_⟩
  cases hne : w.payload target == next with
  | true =>
    rw [write_of_eq hne] at hwrite
    cases hwrite
    exact .same hne
  | false =>
    rw [write_of_ne hne] at hwrite
    cases hwrite
    refine .changed hne (hasCell_of_payload fun hempty ↦ ?_)
    -- Nothing but what is empty comes of folding into what is empty.
    have hkind := Payload.kind_fold hfold
    rw [hempty] at hkind hne
    cases next <;> cases hkind
    exact absurd hne nofun

end World

namespace Activity

/-- A payload has been put into a cell instead of what it held. Nothing else has changed; and
whatever is done in the meantime, those who observe the cell have been told of the change once the
work that it leaves is done. -/
structure Replaced (w : World η) (c : CellId) (next : Payload) (w' : World η)
    (works : List (Work η)) : Prop where
  holds : w'.payload c = next
  others : ∀ c' ≠ c, w'.payload c' = w.payload c'
  observers : ∀ c', w'.observers c' = w.observers c'
  told : ∀ (base : List (Work η)) (ms : List (Moment η)) (b : Activity η),
    History anything ⟨w', works ++ base⟩ ms b → (∀ m ∈ ms, base.length < m.height) →
      b.stack = base → Told c (w.observers c) base.length ms b

theorem replaced_put {w : World η} {c : CellId} (ho : w.Orderly) (hr : w.Ranked)
    (hcell : w.HasCell c) (next : Payload) :
    Replaced w c next (w.put c next) [.tellCell c none (w.observers c)] where
  holds := payload_put_self w hcell next
  others := fun _ hne ↦ payload_put_of_ne w c next hne
  observers := observers_put w c next
  told := fun base ms b h habove hdone ↦ by
    have hpassing : Passing c base (w.observers c) ms b := h.passing
    cases hpassing with
    | going above current hpass hstack =>
      -- The work below a pass is not all that is left while it is going on.
      have hlength := congrArg List.length (hdone.symm.trans hstack)
      rw [List.length_append, List.length_cons] at hlength
      omega
    | ended hpass hlater =>
      rcases hlater with ⟨rfl, -⟩ | ⟨m, later, rfl, hm⟩
      · rw [List.append_nil] at h ⊢
        exact hpass.told h (ho.put c next) (hr.given c) (hr.ascending c)
      · -- A moment after the pass is not above the work below it.
        have hheight := habove m (List.mem_append_right _ List.mem_cons_self)
        rw [Moment.height, hm] at hheight
        exact absurd hheight (Nat.lt_irrefl _)

/-- **Folding follows its rule.** Let anything at all have been done. Whether a cell can be folded
into another one depends on the kinds of what they hold. If so, the cell stays of its kind and is
given what the rule says; if this is equal to what it holds, nothing changes and nobody is told, and
otherwise those who observe it are told once. If not, a session answers so, and stays as it is. -/
theorem fold_follows {es : List Happening} {a : Activity η} (h : Run anything ⟨start, []⟩ es a)
    (target source : CellId) (mode : Payload.FoldMode) :
    ((a.world.fold target source mode).isSome = true ↔
        (a.world.payload source).kind.FoldsInto (a.world.payload target).kind) ∧
      (∀ w' works, a.world.fold target source mode = some (w', works) →
        (w'.payload target).kind = (a.world.payload target).kind ∧
          ∃ next, Payload.FoldsTo mode (a.world.payload target) (a.world.payload source) next ∧
            ((a.world.payload target == next) = true ∧ w' = a.world ∧ works = [] ∨
              (a.world.payload target == next) = false ∧
                Replaced a.world target next w' works)) ∧
      ∀ (of from_ : Session.Operand) (inHand : List CellId) (s s' s'' : Session),
        Session.operand of s = (.ok target, s') → Session.operand from_ s' = (.ok source, s'') →
          s.Extends s'' ∧
            (s''.world.fold target source mode = none →
              (Session.ValueCommand.fold of from_ mode).run inHand s =
                (.ok (.reply (.flag false)), s'')) ∧
            ∀ w' works, s''.world.fold target source mode = some (w', works) →
              (Session.ValueCommand.fold of from_ mode).run inHand s =
                (.ok (.after works (.flag true) [target, source]), { s'' with world := w' }) := by
  refine ⟨?_, fun w' works hfold ↦ ?_, fun _ _ _ _ _ _ ↦ Session.run_fold⟩
  · rw [World.fold, Option.isSome_map]
    exact Payload.isSome_fold_iff
  · obtain ⟨next, hrule, hrefolded⟩ := exists_of_fold hfold
    cases hrefolded with
    | same heq => exact ⟨rfl, next, hrule, .inl ⟨heq, rfl, rfl⟩⟩
    | changed hne hcell =>
      have hranked := h.ranked orderly_start (ranked_of_bare fun _ ↦ rfl)
      have hreplaced := replaced_put (h.orderly orderly_start) hranked hcell next
      have hkind := Payload.kind_fold (Payload.fold_eq_some_iff.2 hrule)
      exact ⟨by rw [hreplaced.holds, hkind], next, hrule, .inr ⟨hne, hreplaced⟩⟩

/-! ### A list and a number -/

/-- Two observe a list, and there is a number, a cell that holds nothing and the same number. -/
def gathering : List (Option (Deed Unit)) :=
  [some (.create (.intList [1, 2])), some (.create (.int 3)), some (.observe 0 (.handler ())),
    some (.observe 0 (.handler ())), some (.create .empty), some (.create (.int 3))]

/-- The world in which they have gathered. -/
def gathered : World Unit := (follow gathering ⟨start, []⟩).2.world

/-- The first that is called empties the list, and both are told of this before the second is told
of what was appended. -/
def emptying : List (Option (Deed Unit)) :=
  [none, some (.write 0 (.intList []))] ++ List.replicate 5 none

/-- What is left when the number is folded into the list. -/
def appended : Activity Unit :=
  ⟨gathered.put 0 (.intList [1, 2, 3]), [.tellCell 0 none (gathered.observers 0)]⟩

/-- When the number is folded into the list, each is told once of what was appended, though the list
is empty in the end. What holds nothing empties the list as well, and the number that is toggled by
itself is zero afterwards. -/
theorem fold_follows_emptying :
    gathered.fold 0 1 ⟨false, false⟩ = some (appended.world, appended.stack) ∧
      (follow emptying appended).2.world.payload 0 = .intList [] ∧
      (∀ o ∈ gathered.observers 0,
        (((follow emptying appended).1.filterMap (·.tells 0 0)).map Observer.ticket).count
          o.ticket = 1) ∧
      (∃ w works, gathered.fold 0 2 ⟨false, false⟩ = some (w, works) ∧
        w.payload 0 = .intList []) ∧
      ∃ w works, gathered.fold 1 3 ⟨true, false⟩ = some (w, works) ∧ w.payload 1 = .int 0 := by
  have hgathering : History anything ⟨start, []⟩ _ ⟨gathered, []⟩ :=
    History.ofPlan gathering ⟨start, []⟩ (by decide)
  have hfold : gathered.fold 0 1 ⟨false, false⟩ = some (appended.world, appended.stack) := rfl
  refine ⟨hfold, rfl, fun o ho ↦ ?_, ?_, ?_⟩
  · obtain ⟨-, hgiven, -⟩ := fold_follows hgathering.run 0 1 ⟨false, false⟩
    obtain ⟨-, next, -, ⟨-, -, hworks⟩ | ⟨-, hreplaced⟩⟩ := hgiven _ _ hfold
    · cases hworks
    · have hemptying : History anything appended _ (follow emptying appended).2 :=
        History.ofPlan emptying appended (by decide)
      refine (hreplaced.told [] _ _ hemptying (by decide) rfl).once o ho ?_
      revert o
      decide
  · obtain ⟨hsome, hgiven, -⟩ := fold_follows hgathering.run 0 2 ⟨false, false⟩
    obtain ⟨⟨w, works⟩, hclear⟩ := Option.isSome_iff_exists.1 (hsome.2 (by decide))
    obtain ⟨-, next, hrule, hnext⟩ := hgiven w works hclear
    have hzero : Kind.Zero .intList next := hrule.zero_of_empty
    cases hzero
    rcases hnext with ⟨hsame, -⟩ | ⟨-, hreplaced⟩
    · cases hsame
    · exact ⟨w, works, hclear, hreplaced.holds⟩
  · obtain ⟨hsome, hgiven, -⟩ := fold_follows hgathering.run 1 3 ⟨true, false⟩
    obtain ⟨⟨w, works⟩, hoff⟩ := Option.isSome_iff_exists.1 (hsome.2 (by decide))
    obtain ⟨-, next, hrule, hnext⟩ := hgiven w works hoff
    have hzero : Kind.Zero .int next := hrule.zero_of_off rfl rfl fun given hgiven ↦ by
      cases hgiven
      rfl
    cases hzero
    rcases hnext with ⟨hsame, -⟩ | ⟨-, hreplaced⟩
    · cases hsame
    · exact ⟨w, works, hoff, hreplaced.holds⟩

end Activity

end Engine

end LiveTemplate
