import LiveTemplate.Engine.Circuit
import Mathlib.Data.List.Basic

/-!
# What circuits hold

A circuit *keeps* a formula when it has its shape and every gate holds what it would put out if it
looked at its inputs now. Building a circuit and changing a leaf of it both leave it in that state
(`keeps_build`, `Keeps.amend`), although `Circuit.amend` lets a gate look again only when it hears
something: the gates that are passed over are those whose inputs are as they were.

A circuit that keeps a formula is as true as the formula is over what the leaves remember
(`Keeps.truth_eq_evalOver`), and no negation in it is without an input (`Keeps.inputs_ne_nil`).
-/

namespace LiveTemplate

namespace Formula

variable {τ : Type}

mutual

/-- The truth of a formula, given the truths of its terms from left to right. -/
def evalOver : Formula τ → List Bool → Bool
  | const b, _ => b
  | not f, truths => !f.evalOver truths
  | and fs, truths => evalAllOver fs truths
  | or fs, truths => evalAnyOver fs truths
  | term _, truths => truths.headD false

/-- Whether every formula of a list is true. -/
def evalAllOver : List (Formula τ) → List Bool → Bool
  | [], _ => true
  | f :: rest, truths => f.evalOver truths && evalAllOver rest (truths.drop f.terms.length)

/-- Whether some formula of a list is true. -/
def evalAnyOver : List (Formula τ) → List Bool → Bool
  | [], _ => false
  | f :: rest, truths => f.evalOver truths || evalAnyOver rest (truths.drop f.terms.length)

end

mutual

/-- Truths beyond the last term are not read. -/
theorem evalOver_map_append (v : τ → Bool) :
    ∀ (f : Formula τ) (more : List Bool), f.evalOver (f.terms.map v ++ more) = f.eval v
  | const _, _ => rfl
  | not f, more => by
    rw [evalOver, eval, terms, evalOver_map_append v f more]
  | and fs, more => by
    rw [evalOver, eval, terms, evalAllOver_map_append v fs more]
  | or fs, more => by
    rw [evalOver, eval, terms, evalAnyOver_map_append v fs more]
  | term _, _ => rfl

theorem evalAllOver_map_append (v : τ → Bool) :
    ∀ (fs : List (Formula τ)) (more : List Bool),
      evalAllOver fs ((allTerms fs).map v ++ more) = evalAll v fs
  | [], _ => rfl
  | f :: rest, more => by
    rw [evalAllOver, evalAll, allTerms, List.map_append, List.append_assoc,
      evalOver_map_append v f, List.drop_left' (List.length_map v),
      evalAllOver_map_append v rest more]

theorem evalAnyOver_map_append (v : τ → Bool) :
    ∀ (fs : List (Formula τ)) (more : List Bool),
      evalAnyOver fs ((allTerms fs).map v ++ more) = evalAny v fs
  | [], _ => rfl
  | f :: rest, more => by
    rw [evalAnyOver, evalAny, allTerms, List.map_append, List.append_assoc,
      evalOver_map_append v f, List.drop_left' (List.length_map v),
      evalAnyOver_map_append v rest more]

end

/-- Over the truths that a valuation gives the terms, a formula has the value it has there. -/
theorem evalOver_map (v : τ → Bool) (f : Formula τ) : f.evalOver (f.terms.map v) = f.eval v := by
  simpa using f.evalOver_map_append v []

end Formula

namespace Engine

namespace Circuit

/-! ### Circuits that keep a formula -/

mutual

/-- A circuit keeps a formula: it has its shape, and each gate holds what it puts out over what its
inputs hold. -/
inductive Keeps : Formula (Term CellId) → Circuit → Prop
  | const (b : Bool) : Keeps (.const b) (.const b)
  | term (live : LiveTerm) : Keeps (.term live.term) (.leaf live)
  | not {f : Formula (Term CellId)} {c : Circuit} {held : Bool} :
      Keeps f c → Gate.negation.output [c.truth] = some held →
        Keeps (.not f) (.gate .negation held [c])
  | and {fs : List (Formula (Term CellId))} {cs : List Circuit} {held : Bool} :
      KeepsAll fs cs → Gate.conjunction.output (cs.map truth) = some held →
        Keeps (.and fs) (.gate .conjunction held cs)
  | or {fs : List (Formula (Term CellId))} {cs : List Circuit} {held : Bool} :
      KeepsAll fs cs → Gate.disjunction.output (cs.map truth) = some held →
        Keeps (.or fs) (.gate .disjunction held cs)

/-- Circuits keep formulas, each its own. -/
inductive KeepsAll : List (Formula (Term CellId)) → List Circuit → Prop
  | nil : KeepsAll [] []
  | cons {f : Formula (Term CellId)} {c : Circuit} {fs : List (Formula (Term CellId))}
      {cs : List Circuit} : Keeps f c → KeepsAll fs cs → KeepsAll (f :: fs) (c :: cs)

end

mutual

/-- **A new circuit keeps its formula.** -/
theorem keeps_build {start : Term CellId → LiveTerm} (hstart : ∀ t, (start t).term = t) :
    ∀ f : Formula (Term CellId), Keeps f (build start f)
  | .const b => .const b
  | .not f => .not (keeps_build hstart f) rfl
  | .and fs => .and (keepsAll_build hstart fs) rfl
  | .or fs => .or (keepsAll_build hstart fs) rfl
  | .term t => by
    have h := Keeps.term (start t)
    rwa [hstart t] at h

theorem keepsAll_build {start : Term CellId → LiveTerm} (hstart : ∀ t, (start t).term = t) :
    ∀ fs : List (Formula (Term CellId)), KeepsAll fs (buildAll start fs)
  | [] => .nil
  | f :: rest => .cons (keeps_build hstart f) (keepsAll_build hstart rest)

end

mutual

theorem leaves_build (start : Term CellId → LiveTerm) :
    ∀ f : Formula (Term CellId), (build start f).leaves = f.terms.map start
  | .const _ => rfl
  | .not f => by
    rw [build, join, leaves, allLeaves, allLeaves, List.append_nil, leaves_build start f,
      Formula.terms]
  | .and fs => by rw [build, join, leaves, allLeaves_build start fs, Formula.terms]
  | .or fs => by rw [build, join, leaves, allLeaves_build start fs, Formula.terms]
  | .term _ => rfl

theorem allLeaves_build (start : Term CellId → LiveTerm) :
    ∀ fs : List (Formula (Term CellId)),
      allLeaves (buildAll start fs) = (Formula.allTerms fs).map start
  | [] => rfl
  | f :: rest => by
    rw [buildAll, allLeaves, leaves_build start f, allLeaves_build start rest, Formula.allTerms,
      List.map_append]

end

mutual

/-- The leaves of a circuit stand for the terms of the formula that it keeps. -/
theorem Keeps.terms_eq : ∀ {f : Formula (Term CellId)} {c : Circuit}, Keeps f c →
    c.leaves.map LiveTerm.term = f.terms
  | _, _, .const _ => rfl
  | _, _, .term _ => rfl
  | _, _, .not h _ => by
    rw [leaves, allLeaves, allLeaves, List.append_nil, h.terms_eq, Formula.terms]
  | _, _, .and h _ => by rw [leaves, h.terms_eq, Formula.terms]
  | _, _, .or h _ => by rw [leaves, h.terms_eq, Formula.terms]

theorem KeepsAll.terms_eq : ∀ {fs : List (Formula (Term CellId))} {cs : List Circuit},
    KeepsAll fs cs → (allLeaves cs).map LiveTerm.term = Formula.allTerms fs
  | _, _, .nil => rfl
  | _, _, .cons h rest => by
    rw [allLeaves, List.map_append, h.terms_eq, rest.terms_eq, Formula.allTerms]

end

/-- How many terms a formula has is how many leaves its circuit has. -/
theorem Keeps.length_terms {f : Formula (Term CellId)} {c : Circuit} (h : Keeps f c) :
    f.terms.length = c.leaves.length := by
  rw [← h.terms_eq, List.length_map]

/-! ### The truth of a circuit -/

mutual

/-- **A circuit that keeps a formula is as true as the formula is** over what the leaves remember,
whatever may lie behind that. -/
theorem Keeps.truth_eq_evalOver : ∀ {f : Formula (Term CellId)} {c : Circuit}, Keeps f c →
    ∀ more : List Bool, c.truth = f.evalOver (c.leaves.map LiveTerm.truth ++ more)
  | _, _, .const _, _ => rfl
  | _, _, .term _, _ => rfl
  | _, _, .not h hout, more => by
    have hheld := Option.some.inj hout
    rw [truth, Formula.evalOver, leaves, allLeaves, allLeaves, List.append_nil,
      ← h.truth_eq_evalOver more]
    exact hheld.symm
  | _, _, .and h hout, more => by
    have hheld := Option.some.inj hout
    rw [truth, Formula.evalOver, leaves, ← h.all_eq_evalAllOver more, ← hheld]
  | _, _, .or h hout, more => by
    have hheld := Option.some.inj hout
    rw [truth, Formula.evalOver, leaves, ← h.any_eq_evalAnyOver more, ← hheld]

theorem KeepsAll.all_eq_evalAllOver : ∀ {fs : List (Formula (Term CellId))} {cs : List Circuit},
    KeepsAll fs cs → ∀ more : List Bool, (cs.map truth).all id =
      Formula.evalAllOver fs ((allLeaves cs).map LiveTerm.truth ++ more)
  | _, _, .nil, _ => rfl
  | _, _, .cons (c := c) h rest, more => by
    rw [List.map_cons, List.all_cons, Formula.evalAllOver, allLeaves, List.map_append,
      List.append_assoc, ← h.truth_eq_evalOver,
      List.drop_left' (by rw [List.length_map, h.length_terms]), ← rest.all_eq_evalAllOver more]
    rfl

theorem KeepsAll.any_eq_evalAnyOver : ∀ {fs : List (Formula (Term CellId))} {cs : List Circuit},
    KeepsAll fs cs → ∀ more : List Bool, (cs.map truth).any id =
      Formula.evalAnyOver fs ((allLeaves cs).map LiveTerm.truth ++ more)
  | _, _, .nil, _ => rfl
  | _, _, .cons (c := c) h rest, more => by
    rw [List.map_cons, List.any_cons, Formula.evalAnyOver, allLeaves, List.map_append,
      List.append_assoc, ← h.truth_eq_evalOver,
      List.drop_left' (by rw [List.length_map, h.length_terms]), ← rest.any_eq_evalAnyOver more]
    rfl

end

/-- If every leaf remembers what holds, so does the circuit. -/
theorem Keeps.truth_eq_eval {f : Formula (Term CellId)} {c : Circuit} (h : Keeps f c)
    {v : Term CellId → Bool} (hv : ∀ live ∈ c.leaves, live.truth = v live.term) :
    c.truth = f.eval v := by
  have hleaves : c.leaves.map LiveTerm.truth = f.terms.map v := by
    rw [← h.terms_eq, List.map_map]
    exact List.map_congr_left hv
  rw [h.truth_eq_evalOver [], List.append_nil, hleaves, Formula.evalOver_map]

/-! ### Changing a leaf -/

/-- Changing an entry of two lists put together changes it in the one in which it lies. -/
theorem modify_append {α : Type} (f : α → α) (l m : List α) (i : Nat) :
    (l ++ m).modify i f =
      if i < l.length then l.modify i f ++ m else l ++ m.modify (i - l.length) f := by
  induction l generalizing i with
  | nil => simp
  | cons a l ih =>
    cases i with
    | zero => simp
    | succ i =>
      rw [List.cons_append, List.modify_succ_cons, ih, List.modify_succ_cons, List.length_cons,
        Nat.add_sub_add_right]
      by_cases h : i < l.length
      · rw [if_pos h, if_pos (Nat.succ_lt_succ h), List.cons_append]
      · rw [if_neg h, if_neg (by omega), List.cons_append]

mutual

theorem leaves_amend (f : LiveTerm → LiveTerm) :
    ∀ (place : Nat) (c : Circuit), (c.amend f place).leaves = c.leaves.modify place f
  | _, const _ => by rw [amend, leaves, List.modify_nil]
  | 0, leaf _ => rfl
  | place + 1, leaf live => by
    rw [amend, if_neg (Nat.succ_ne_zero place), leaves, List.modify_succ_cons, List.modify_nil]
  | place, gate _ _ inputs => by
    rw [amend, leaves, leaves, allLeaves_amendAll f place inputs]

theorem allLeaves_amendAll (f : LiveTerm → LiveTerm) :
    ∀ (place : Nat) (cs : List Circuit),
      allLeaves (amendAll f place cs) = (allLeaves cs).modify place f
  | _, [] => by rw [amendAll, allLeaves, List.modify_nil]
  | place, c :: rest => by
    rw [amendAll, allLeaves, modify_append]
    split
    · rw [allLeaves, leaves_amend f place c]
    · rw [allLeaves, allLeaves_amendAll f _ rest]

end

/-- What the leaves remember after one of them is made to remember something. -/
theorem truths_amend (place : Nat) (b : Bool) (c : Circuit) :
    (c.amend (fun live ↦ { live with truth := b }) place).leaves.map LiveTerm.truth =
      (c.leaves.map LiveTerm.truth).set place b := by
  rw [leaves_amend]
  refine List.ext_getElem? fun i ↦ ?_
  rw [List.getElem?_map, List.getElem?_modify, List.getElem?_set', List.getElem?_map]
  by_cases hi : place = i
  · subst hi
    cases c.leaves[place]? <;> simp
  · cases c.leaves[i]? <;> simp [hi]

theorem leaf?_amend (f : LiveTerm → LiveTerm) (place place' : Nat) (c : Circuit) :
    (c.amend f place).leaf? place' =
      if place = place' then (c.leaf? place').map f else c.leaf? place' := by
  rw [leaf?, leaves_amend, List.getElem?_modify]
  split <;> simp [leaf?]

/-- A gate that puts something out before and after holds what it puts out, whether it looks again
or not. -/
theorem output_heed {g : Gate} {held : Bool} {before after : List Bool}
    (hbefore : g.output before = some held) (hafter : (g.output after).isSome) :
    g.output after = some (g.heed held before after) := by
  rw [Gate.heed]
  split
  · rename_i heq
    rw [heq, hbefore]
  · obtain ⟨b, hb⟩ := Option.isSome_iff_exists.1 hafter
    rw [hb, Option.getD_some]

mutual

/-- **A circuit goes on keeping its formula** when a leaf is changed that stays a leaf of the same
term. -/
theorem Keeps.amend {g : LiveTerm → LiveTerm} (hg : ∀ live, (g live).term = live.term) :
    ∀ {f : Formula (Term CellId)} {c : Circuit} (place : Nat), Keeps f c → Keeps f (c.amend g place)
  | _, _, _, .const b => .const b
  | _, _, 0, .term live => by
    have h := Keeps.term (g live)
    rwa [hg live] at h
  | _, _, _ + 1, .term live => .term live
  | _, _, place, .not (c := c) h hout => by
    rw [Circuit.amend, amendAll]
    split
    · exact .not (h.amend hg place) (output_heed hout rfl)
    · exact .not h (output_heed hout rfl)
  | _, _, place, .and h hout => .and (h.amendAll hg place) (output_heed hout rfl)
  | _, _, place, .or h hout => .or (h.amendAll hg place) (output_heed hout rfl)

theorem KeepsAll.amendAll {g : LiveTerm → LiveTerm} (hg : ∀ live, (g live).term = live.term) :
    ∀ {fs : List (Formula (Term CellId))} {cs : List Circuit} (place : Nat),
      KeepsAll fs cs → KeepsAll fs (Circuit.amendAll g place cs)
  | _, _, _, .nil => .nil
  | _, _, place, .cons h rest => by
    rw [Circuit.amendAll]
    split
    · exact .cons (h.amend hg place) rest
    · exact .cons h (rest.amendAll hg _)

end

/-! ### Gates and their inputs -/

mutual

/-- A circuit and all that it is made of. -/
def parts : Circuit → List Circuit
  | const b => [const b]
  | leaf live => [leaf live]
  | gate g held inputs => gate g held inputs :: allParts inputs

/-- All that a list of circuits is made of. -/
def allParts : List Circuit → List Circuit
  | [] => []
  | c :: rest => c.parts ++ allParts rest

end

mutual

/-- **Every gate of a circuit that keeps a formula puts something out**, and holds it. -/
theorem Keeps.output_eq : ∀ {f : Formula (Term CellId)} {c : Circuit}, Keeps f c →
    ∀ {g : Gate} {held : Bool} {inputs : List Circuit}, gate g held inputs ∈ c.parts →
      g.output (inputs.map truth) = some held
  | _, _, .const _, _, _, _, hmem => by simp [parts] at hmem
  | _, _, .term _, _, _, _, hmem => by simp [parts] at hmem
  | _, _, .not h hout, _, _, _, hmem => by
    rw [parts, allParts, allParts, List.append_nil, List.mem_cons] at hmem
    rcases hmem with heq | hmem
    · cases heq
      exact hout
    · exact h.output_eq hmem
  | _, _, .and h hout, _, _, _, hmem => by
    rw [parts, List.mem_cons] at hmem
    rcases hmem with heq | hmem
    · cases heq
      exact hout
    · exact h.output_eq hmem
  | _, _, .or h hout, _, _, _, hmem => by
    rw [parts, List.mem_cons] at hmem
    rcases hmem with heq | hmem
    · cases heq
      exact hout
    · exact h.output_eq hmem

theorem KeepsAll.output_eq : ∀ {fs : List (Formula (Term CellId))} {cs : List Circuit},
    KeepsAll fs cs → ∀ {g : Gate} {held : Bool} {inputs : List Circuit},
      gate g held inputs ∈ allParts cs → g.output (inputs.map truth) = some held
  | _, _, .nil, _, _, _, hmem => by simp [allParts] at hmem
  | _, _, .cons h rest, _, _, _, hmem => by
    rw [allParts, List.mem_append] at hmem
    rcases hmem with hmem | hmem
    · exact h.output_eq hmem
    · exact rest.output_eq hmem

end

/-- A negation that puts something out has an input. -/
theorem Keeps.inputs_ne_nil {f : Formula (Term CellId)} {c : Circuit} (h : Keeps f c) {held : Bool}
    {inputs : List Circuit} (hmem : gate .negation held inputs ∈ c.parts) : inputs ≠ [] := by
  rintro rfl
  have hout := h.output_eq hmem
  simp [Gate.output] at hout

end Circuit

end Engine

end LiveTemplate
