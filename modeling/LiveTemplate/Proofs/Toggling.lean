import Mathlib.Algebra.Ring.Parity
import LiveTemplate.Proofs.Folding

/-!
# Sets that others are folded into

Sets that include the same items are the same (`ext_of_includes`), and what is folded into a set
gives some items and not others. So what comes of a fold can be told item by item
(`includes_of_fold`), and what comes of many by following each item through them
(`Folded.includes_eq`): of toggles it matters only whether an item was given an odd number of times,
of extensions only whether it was given at all. The algebra of folds is what follows from this
(`folded_into_set`).

What is done between one fold and the next is left open, as long as it leaves the set alone, and
each source gives what it holds when it is folded.
-/

namespace LiveTemplate

/-- Whether payloads of a kind are sets. -/
def Kind.isSet : Kind → Bool
  | .stringSet | .intSet => true
  | _ => false

namespace Payload

/-- Whether a payload can be an item of a collection. -/
def isItem : Payload → Bool
  | .string _ | .int _ => true
  | _ => false

/-- Whether an item is in a set after a fold, by whether it was before and whether it is given. -/
def FoldMode.combine (mode : FoldMode) (before given : Bool) : Bool :=
  if mode.toggle then before ^^ given else if mode.replace then given else before || given

/-- Adding to what is there. -/
def FoldMode.extend : FoldMode := ⟨false, false⟩

/-! ### The items of a set -/

variable {p q : Payload}

theorem beq_compare {α : Type} [Ord α] [DecidableEq α] [Std.LawfulEqOrd α] (a b : α) :
    (compare a b == .eq) = decide (b ∈ [a]) := by
  rw [Bool.eq_iff_iff, beq_iff_eq, decide_eq_true_iff, Std.LawfulEqOrd.compare_eq_iff_eq,
    List.mem_singleton, eq_comm]

theorem GivesStrings.includes_string {items : List String} (h : p.GivesStrings items) (t : String) :
    p.includes (.string t) = decide (t ∈ items) := by
  cases h with
  | one s => exact beq_compare s t
  | list => exact List.contains_eq_mem t items
  | set items => exact List.contains_eq_mem t items.items

theorem GivesStrings.includes_int {items : List String} (h : p.GivesStrings items) (n : Int64) :
    p.includes (.int n) = false := by
  cases h <;> rfl

theorem GivesInts.includes_int {items : List Int64} (h : p.GivesInts items) (n : Int64) :
    p.includes (.int n) = decide (n ∈ items) := by
  cases h with
  | one m => exact beq_compare m n
  | list => exact List.contains_eq_mem n items
  | set items => exact List.contains_eq_mem n items.items

theorem GivesInts.includes_string {items : List Int64} (h : p.GivesInts items) (t : String) :
    p.includes (.string t) = false := by
  cases h <;> rfl

/-- **Sets that include the same items are the same.** -/
theorem ext_of_includes (hset : p.kind.isSet = true) (hkind : q.kind = p.kind)
    (h : ∀ i : Payload, i.isItem = true → p.includes i = q.includes i) : p = q := by
  cases p <;> cases hset <;> cases q <;> cases hkind
  next s t =>
    refine congrArg stringSet (SortedSet.ext_of_mem fun a ↦ ?_)
    have ha := h (.string a) rfl
    rwa [(GivesStrings.set s).includes_string, (GivesStrings.set t).includes_string,
      decide_eq_decide] at ha
  next s t =>
    refine congrArg intSet (SortedSet.ext_of_mem fun a ↦ ?_)
    have ha := h (.int a) rfl
    rwa [(GivesInts.set s).includes_int, (GivesInts.set t).includes_int, decide_eq_decide] at ha

theorem isCollection_of_isSet (hset : p.kind.isSet = true) : p.isCollection = true := by
  cases p <;> cases hset <;> rfl

/-- Collections of a kind that are equal are the same. -/
theorem eq_of_beq_collection (hcollection : p.isCollection = true) (hkind : q.kind = p.kind)
    (h : (p == q) = true) : p = q := by
  cases p <;> cases hcollection <;> cases q <;> cases hkind
  · exact congrArg stringList (eq_of_beq h)
  · exact congrArg stringSet (of_decide_eq_true h)
  · exact congrArg intList (eq_of_beq h)
  · exact congrArg intSet (of_decide_eq_true h)

/-! ### A fold -/

variable {mode : FoldMode} {current source next : Payload}

theorem SetTakes.decide_mem {α : Type} [Ord α] [DecidableEq α] {current next : SortedSet α}
    {items : List α} (h : SetTakes mode current items next) (a : α) :
    decide (a ∈ next.items) = mode.combine (decide (a ∈ current.items)) (decide (a ∈ items)) := by
  have ha := h a
  simp only [SortedSet.mem_def] at ha
  rw [FoldMode.combine, Bool.eq_iff_iff, decide_eq_true_iff, ha]
  split
  · by_cases hc : a ∈ current.items <;> by_cases hi : a ∈ items <;> simp [hc, hi]
  · split <;> simp

/-- **Item by item**, a fold into a set keeps, drops or takes what it is given. -/
theorem includes_of_fold (hset : current.kind.isSet = true) (hsource : source ≠ .empty)
    (h : fold mode current source = some next) {i : Payload} (hitem : i.isItem = true) :
    next.includes i = mode.combine (current.includes i) (source.includes i) := by
  have hnothing : mode.combine false false = false := by
    unfold FoldMode.combine
    cases mode.toggle <;> cases mode.replace <;> rfl
  cases fold_eq_some_iff.1 h with
  | clear => exact absurd rfl hsource
  | off hcoerces | take hcoerces =>
    -- A set is no scalar.
    cases hcoerces with
    | same _ hscalar => cases current <;> cases hset <;> cases hscalar
    | floor | widen => cases hset
  | stringList | intList => cases hset
  | @stringSet current next items _ hitems htakes =>
    cases i <;> cases hitem
    · rw [hitems.includes_string, (GivesStrings.set next).includes_string,
        (GivesStrings.set current).includes_string, htakes.decide_mem]
    · rw [hitems.includes_int, (GivesStrings.set next).includes_int,
        (GivesStrings.set current).includes_int, hnothing]
  | @intSet current next items _ hitems htakes =>
    cases i <;> cases hitem
    · rw [hitems.includes_string, (GivesInts.set next).includes_string,
        (GivesInts.set current).includes_string, hnothing]
    · rw [hitems.includes_int, (GivesInts.set next).includes_int,
        (GivesInts.set current).includes_int, htakes.decide_mem]

end Payload

namespace Engine

open Payload (FoldMode eq_of_beq_collection ext_of_includes includes_of_fold isCollection_of_isSet
  isSome_fold_iff)

variable {η : Type}

namespace World

/-! ### Many folds -/

/-- Others are folded into a cell one after the other. What each gives is noted, and how. In between
anything may be done that leaves the cell alone. -/
inductive Folded (c : CellId) : World η → List (Payload × FoldMode) → World η → Prop
  | nil {w w' : World η} (hkept : w'.payload c = w.payload c) : Folded c w [] w'
  | cons {w w₁ w₂ w' : World η} {source : CellId} {mode : FoldMode} {works : List (Work η)}
      {folds : List (Payload × FoldMode)} (hkept : w₁.payload c = w.payload c)
      (hfold : w₁.fold c source mode = some (w₂, works)) (hrest : Folded c w₂ folds w') :
      Folded c w ((w₁.payload source, mode) :: folds) w'

variable {w w' w'' : World η} {c : CellId} {folds folds' : List (Payload × FoldMode)}

/-- A collection that is folded into holds what comes of the fold, and nothing else changes. -/
theorem payload_of_fold (hcollection : (w.payload c).isCollection = true) {source : CellId}
    {mode : FoldMode} {works : List (Work η)} (h : w.fold c source mode = some (w', works)) :
    Payload.fold mode (w.payload c) (w.payload source) = some (w'.payload c) ∧
      ∀ c' ≠ c, w'.payload c' = w.payload c' := by
  obtain ⟨next, hrule, hrefolded⟩ := exists_of_fold h
  have hfold := Payload.fold_eq_some_iff.2 hrule
  cases hrefolded with
  | same heq =>
    have hsame := eq_of_beq_collection hcollection (Payload.kind_fold hfold) heq
    exact ⟨by rw [hfold, hsame], fun _ _ ↦ rfl⟩
  | changed hne hcell =>
    exact ⟨by rw [hfold, Activity.payload_put_self w hcell],
      fun c' hne ↦ payload_put_of_ne w c next hne⟩

/-- A cell that others are folded into keeps its kind, if it is a set. -/
theorem Folded.kind_eq (h : w.Folded c folds w') (hset : (w.payload c).kind.isSet = true) :
    (w'.payload c).kind = (w.payload c).kind := by
  induction h with
  | nil hkept => rw [hkept]
  | cons hkept hfold _ ih =>
    rw [← hkept] at hset ⊢
    have hkind := Payload.kind_fold (payload_of_fold (isCollection_of_isSet hset) hfold).1
    rw [ih (by rw [hkind]; exact hset), hkind]

/-- **Each item is followed through the folds.** -/
theorem Folded.includes_eq (h : w.Folded c folds w') (hset : (w.payload c).kind.isSet = true)
    (hgiven : ∀ f ∈ folds, f.1 ≠ .empty) {i : Payload} (hitem : i.isItem = true) :
    (w'.payload c).includes i =
      folds.foldl (fun before f ↦ f.2.combine before (f.1.includes i))
        ((w.payload c).includes i) := by
  induction h with
  | nil hkept => rw [hkept]; rfl
  | cons hkept hfold _ ih =>
    obtain ⟨hsource, hothers⟩ := List.forall_mem_cons.1 hgiven
    rw [← hkept] at hset ⊢
    have hnext := (payload_of_fold (isCollection_of_isSet hset) hfold).1
    rw [List.foldl_cons, ih (by rw [Payload.kind_fold hnext]; exact hset) hothers,
      includes_of_fold hset hsource hnext hitem]

/-- Two rows of folds that make the same of each item leave the same. -/
theorem Folded.payload_eq (h : w.Folded c folds w') (h' : w.Folded c folds' w'')
    (hset : (w.payload c).kind.isSet = true) (hgiven : ∀ f ∈ folds, f.1 ≠ .empty)
    (hgiven' : ∀ f ∈ folds', f.1 ≠ .empty)
    (hsame : ∀ (i : Payload) (before : Bool), i.isItem = true →
      folds.foldl (fun before f ↦ f.2.combine before (f.1.includes i)) before =
        folds'.foldl (fun before f ↦ f.2.combine before (f.1.includes i)) before) :
    w'.payload c = w''.payload c := by
  have hkind := h.kind_eq hset
  refine ext_of_includes (by rw [hkind]; exact hset) ((h'.kind_eq hset).trans hkind.symm)
    fun i hitem ↦ ?_
  rw [h.includes_eq hset hgiven hitem, h'.includes_eq hset hgiven' hitem, hsame i _ hitem]

/-- Folds of others that can all be folded into a set can be done one after the other. -/
theorem exists_folded (hset : (w.payload c).kind.isSet = true) (fs : List (CellId × FoldMode))
    (hfits : ∀ f ∈ fs, f.1 ≠ c ∧ (w.payload f.1).kind.FoldsInto (w.payload c).kind) :
    ∃ w', w.Folded c (fs.map fun f ↦ (w.payload f.1, f.2)) w' := by
  induction fs generalizing w with
  | nil => exact ⟨w, .nil rfl⟩
  | cons f fs ih =>
    obtain ⟨⟨-, hinto⟩, hrest⟩ := List.forall_mem_cons.1 hfits
    obtain ⟨⟨w', works⟩, hfold⟩ : ∃ r, w.fold c f.1 f.2 = some r := by
      rw [← Option.isSome_iff_exists, World.fold, Option.isSome_map]
      exact isSome_fold_iff.2 hinto
    obtain ⟨hnext, hothers⟩ := payload_of_fold (isCollection_of_isSet hset) hfold
    have hkind := Payload.kind_fold hnext
    obtain ⟨w'', hfolded⟩ := ih (by rw [hkind]; exact hset) fun f hf ↦ by
      obtain ⟨hne, hinto⟩ := hrest f hf
      rw [hothers _ hne, hkind]
      exact ⟨hne, hinto⟩
    have hgives : (fs.map fun f ↦ (w'.payload f.1, f.2)) =
        fs.map fun f ↦ (w.payload f.1, f.2) :=
      List.map_congr_left fun f hf ↦ by rw [hothers _ (hrest f hf).1]
    rw [hgives] at hfolded
    exact ⟨w'', .cons rfl hfold hfolded⟩

/-! ### Toggles -/

/-- What is toggled and how often is all that matters for an item. -/
theorem foldl_toggles (i : Payload) (htoggles : ∀ f ∈ folds, f.2.toggle = true) (before : Bool) :
    folds.foldl (fun before f ↦ f.2.combine before (f.1.includes i)) before =
      (before ^^ decide (Odd (folds.countP (·.1.includes i)))) := by
  induction folds generalizing before with
  | nil => simp
  | cons f folds ih =>
    obtain ⟨htoggle, hrest⟩ := List.forall_mem_cons.1 htoggles
    rw [List.foldl_cons, ih hrest, FoldMode.combine, if_pos htoggle, List.countP_cons]
    cases f.1.includes i with
    | false => rw [Bool.xor_false, if_neg Bool.false_ne_true, Nat.add_zero]
    | true =>
      have hodd : decide (Odd (folds.countP (·.1.includes i) + 1)) =
          !decide (Odd (folds.countP (·.1.includes i))) := by
        rw [← decide_not, decide_eq_decide, Nat.odd_add_one]
      rw [if_pos rfl, hodd, Bool.xor_assoc, Bool.true_xor]

/-- Of extensions it matters only whether an item is given at all. -/
theorem foldl_extensions (i : Payload) (hextends : ∀ f ∈ folds, f.2 = .extend) (before : Bool) :
    folds.foldl (fun before f ↦ f.2.combine before (f.1.includes i)) before =
      (before || folds.any (·.1.includes i)) := by
  induction folds generalizing before with
  | nil => simp
  | cons f folds ih =>
    obtain ⟨hextend, hrest⟩ := List.forall_mem_cons.1 hextends
    rw [List.foldl_cons, ih hrest, hextend, List.any_cons, ← Bool.or_assoc]
    rfl

/-- **Toggles that give each item equally often, up to an even number, leave the same.** -/
theorem Folded.payload_eq_of_toggles (h : w.Folded c folds w') (h' : w.Folded c folds' w'')
    (hset : (w.payload c).kind.isSet = true)
    (htoggles : ∀ f ∈ folds, f.1 ≠ .empty ∧ f.2.toggle = true)
    (htoggles' : ∀ f ∈ folds', f.1 ≠ .empty ∧ f.2.toggle = true)
    (hodd : ∀ i : Payload, i.isItem = true →
      (Odd (folds.countP (·.1.includes i)) ↔ Odd (folds'.countP (·.1.includes i)))) :
    w'.payload c = w''.payload c :=
  h.payload_eq h' hset (fun f hf ↦ (htoggles f hf).1) (fun f hf ↦ (htoggles' f hf).1)
    fun i before hitem ↦ by
      rw [foldl_toggles i fun f hf ↦ (htoggles f hf).2,
        foldl_toggles i fun f hf ↦ (htoggles' f hf).2, decide_eq_decide.2 (hodd i hitem)]

/-- **Extensions that give the same items leave the same.** -/
theorem Folded.payload_eq_of_extensions (h : w.Folded c folds w') (h' : w.Folded c folds' w'')
    (hset : (w.payload c).kind.isSet = true)
    (hextends : ∀ f ∈ folds, f.1 ≠ .empty ∧ f.2 = .extend)
    (hextends' : ∀ f ∈ folds', f.1 ≠ .empty ∧ f.2 = .extend)
    (hany : ∀ i : Payload, i.isItem = true →
      folds.any (·.1.includes i) = folds'.any (·.1.includes i)) :
    w'.payload c = w''.payload c :=
  h.payload_eq h' hset (fun f hf ↦ (hextends f hf).1) (fun f hf ↦ (hextends' f hf).1)
    fun i before hitem ↦ by
      rw [foldl_extensions i fun f hf ↦ (hextends f hf).2,
        foldl_extensions i fun f hf ↦ (hextends' f hf).2, hany i hitem]

/-- **The algebra of folds into a set.** Whatever can be folded into a set can be folded into it one
after the other. To toggle the same twice restores the set, toggles commute with each other and so
do extensions, and to extend by the same twice is to extend by it once, whatever else is asked of
the toggles. After any number of toggles an item has changed sides if it was given an odd number of
times, so what is left depends on this alone. -/
theorem folded_into_set (hset : (w.payload c).kind.isSet = true) :
    (∀ fs : List (CellId × FoldMode),
        (∀ f ∈ fs, f.1 ≠ c ∧ (w.payload f.1).kind.FoldsInto (w.payload c).kind) →
          ∃ w', w.Folded c (fs.map fun f ↦ (w.payload f.1, f.2)) w') ∧
      (∀ b d : Payload, b ≠ .empty → d ≠ .empty →
        (∀ (r r' : Bool) (w' : World η),
          w.Folded c [(b, ⟨true, r⟩), (b, ⟨true, r'⟩)] w' → w'.payload c = w.payload c) ∧
        (∀ (r₁ r₂ r₃ r₄ : Bool) (w' w'' : World η),
          w.Folded c [(b, ⟨true, r₁⟩), (d, ⟨true, r₂⟩)] w' →
            w.Folded c [(d, ⟨true, r₃⟩), (b, ⟨true, r₄⟩)] w'' → w'.payload c = w''.payload c) ∧
        (∀ w' w'' : World η, w.Folded c [(b, .extend), (d, .extend)] w' →
          w.Folded c [(d, .extend), (b, .extend)] w'' → w'.payload c = w''.payload c) ∧
        ∀ w' w'' : World η, w.Folded c [(b, .extend), (b, .extend)] w' →
          w.Folded c [(b, .extend)] w'' → w'.payload c = w''.payload c) ∧
      ∀ (toggles : List (Payload × FoldMode)) (w' : World η), w.Folded c toggles w' →
        (∀ f ∈ toggles, f.1 ≠ .empty ∧ f.2.toggle = true) →
          (∀ i : Payload, i.isItem = true → (w'.payload c).includes i =
            ((w.payload c).includes i ^^ decide (Odd (toggles.countP (·.1.includes i))))) ∧
          ∀ (toggles' : List (Payload × FoldMode)) (w'' : World η), w.Folded c toggles' w'' →
            (∀ f ∈ toggles', f.1 ≠ .empty ∧ f.2.toggle = true) →
            (∀ i : Payload, i.isItem = true →
              (Odd (toggles.countP (·.1.includes i)) ↔ Odd (toggles'.countP (·.1.includes i)))) →
            w'.payload c = w''.payload c := by
  refine ⟨exists_folded hset, fun b d hb hd ↦ ⟨fun r r' w' h ↦ ?_, fun r₁ r₂ r₃ r₄ w' w'' h h' ↦ ?_,
    fun w' w'' h h' ↦ ?_, fun w' w'' h h' ↦ ?_⟩, fun toggles w' h htoggles ↦ ⟨fun i hitem ↦ ?_,
    fun toggles' w'' h' htoggles' hodd ↦ ?_⟩⟩
  · have hkept : w.Folded c [] w := .nil rfl
    refine h.payload_eq_of_toggles hkept hset (by simp [hb]) (by simp) fun i _ ↦ ?_
    cases hgives : b.includes i <;> simp [hgives]
  · refine h.payload_eq_of_toggles h' hset (by simp [hb, hd]) (by simp [hb, hd]) fun i _ ↦ ?_
    have hcount : List.countP (·.1.includes i) [(b, FoldMode.mk true r₁), (d, ⟨true, r₂⟩)] =
        List.countP (·.1.includes i) [(d, FoldMode.mk true r₃), (b, ⟨true, r₄⟩)] := by
      simp only [List.countP_cons, List.countP_nil]
      omega
    rw [hcount]
  · refine h.payload_eq_of_extensions h' hset (by simp [hb, hd]) (by simp [hb, hd]) fun i _ ↦ ?_
    show (b.includes i || (d.includes i || false)) = (d.includes i || (b.includes i || false))
    rw [Bool.or_left_comm]
  · refine h.payload_eq_of_extensions h' hset (by simp [hb]) (by simp [hb]) fun i _ ↦ ?_
    show (b.includes i || (b.includes i || false)) = (b.includes i || false)
    rw [← Bool.or_assoc, Bool.or_self]
  · rw [h.includes_eq hset (fun f hf ↦ (htoggles f hf).1) hitem,
      foldl_toggles i fun f hf ↦ (htoggles f hf).2]
  · exact h.payload_eq_of_toggles h' hset htoggles htoggles' hodd

end World

namespace Activity

open World

/-- A set of texts, a list that repeats one, and a text. -/
def basket : World Unit :=
  (follow [some (.create (.stringSet (.ofList ["x", "y"]))),
    some (.create (.stringList ["y", "z", "y"])), some (.create (.string "x"))] ⟨start, []⟩).2.world

/-- The list is toggled twice, and the text in between. -/
def thrown : List (Payload × FoldMode) :=
  [(.stringList ["y", "z", "y"], ⟨true, false⟩), (.string "x", ⟨true, true⟩),
    (.stringList ["y", "z", "y"], ⟨true, true⟩)]

/-- Nothing is left of a list that was toggled twice, but of the text in between. -/
theorem folded_into_set_basket : ∃ w', basket.Folded 0 thrown w' ∧
    (w'.payload 0).includes (.string "x") = false ∧
    (w'.payload 0).includes (.string "y") = true ∧
    (w'.payload 0).includes (.string "z") = false := by
  have hset : (basket.payload 0).kind.isSet = true := by decide
  obtain ⟨hexists, -, htoggles⟩ := folded_into_set hset
  obtain ⟨w', h⟩ := hexists [(1, ⟨true, false⟩), (2, ⟨true, true⟩), (1, ⟨true, true⟩)] (by decide)
  obtain ⟨hincludes, -⟩ := htoggles thrown w' h (by simp [thrown])
  refine ⟨w', h, ?_, ?_, ?_⟩
  · rw [hincludes _ rfl]
    decide
  · rw [hincludes _ rfl]
    decide
  · rw [hincludes _ rfl]
    decide

end Activity

end Engine

end LiveTemplate
