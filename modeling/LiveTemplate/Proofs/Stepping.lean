import LiveTemplate.Proofs.Serialization
import Mathlib.Logic.Function.Iterate

/-!
# Reading token by token

The reader of token lists as a machine that looks at one token in each step. What it knows between
two steps is a phase: the elements that are open, from the inside outwards, each with what has been
read of it, and the place inside the innermost one. A step passes to the next phase and moves on by
one token, but at the last token it stays where it is (`Cursor.next`).

Nothing in the phases gets smaller while the last token is looked at again and again, so the bound
comes from the kinds of last token. A start tag and an attribute end after two looks at any token,
and the innermost element is closed or refused by any token but a text. Only closing tags can go on
for longer, one open element at a time. Hence a reading is over after at most two steps for each
token, or else it stands on a text inside an element, where it stays (`ended_or_stuck`).
-/

namespace LiveTemplate.Markup

/-! ### Cursors -/

/-- A place in a token list: the token that is looked at, and those behind it. -/
structure Cursor where
  current : Located
  behind : List Located

namespace Cursor

/-- The tokens from here on. -/
def tokens (c : Cursor) : List Located := c.current :: c.behind

/-- One token further, unless this one is the last. -/
def next (c : Cursor) : Cursor :=
  match c.behind with
  | [] => c
  | t :: rest => ⟨t, rest⟩

theorem tokens_next (c : Cursor) : c.next.tokens = advance c.tokens := by
  obtain ⟨t, _ | ⟨u, rest⟩⟩ := c <;> rfl

theorem length_tokens_next_le (c : Cursor) : c.next.tokens.length ≤ c.tokens.length := by
  rw [tokens_next]
  exact length_advance_le _

theorem exists_tokens_eq {ts : List Located} (h : ts ≠ []) : ∃ c : Cursor, c.tokens = ts := by
  obtain ⟨t, rest, rfl⟩ := List.exists_cons_of_ne_nil h
  exact ⟨⟨t, rest⟩, rfl⟩

/-- A list of tokens from its other end. -/
theorem exists_tokens_eq_append (c : Cursor) : ∃ us t, c.tokens = us ++ [t] :=
  ⟨_, _, (List.dropLast_concat_getLast (List.cons_ne_nil c.current c.behind)).symm⟩

end Cursor

/-! ### Phases -/

/-- An element whose end has not come, with what has been read of it. -/
structure Unclosed where
  name : String
  line : Nat
  attrs : List Attribute
  nodes : List Node

namespace Unclosed

variable (u : Unclosed)

/-- An element behind its opening token. -/
def opened (name : String) (line : Nat) : Unclosed := ⟨name, line, [], []⟩

/-- The element, if it ends here. -/
def element : Element := .mk u.name u.attrs u.nodes u.line

/-- Attributes behind those that are there. -/
def addAttrs (attrs : List Attribute) : Unclosed := { u with attrs := u.attrs ++ attrs }

/-- Content behind that which is there. -/
def addNodes (nodes : List Node) : Unclosed := { u with nodes := u.nodes ++ nodes }

@[simp]
theorem addAttrs_nil : u.addAttrs [] = u := by simp [addAttrs]

@[simp]
theorem addAttrs_addAttrs (attrs more : List Attribute) :
    (u.addAttrs attrs).addAttrs more = u.addAttrs (attrs ++ more) := by simp [addAttrs]

@[simp]
theorem addNodes_nil : u.addNodes [] = u := by simp [addNodes]

@[simp]
theorem addNodes_addNodes (nodes more : List Node) :
    (u.addNodes nodes).addNodes more = u.addNodes (nodes ++ more) := by simp [addNodes]

end Unclosed

/-- How far a reading has come. The elements around the innermost open one stand in `outer`, from
the inside outwards. -/
inductive Phase
  /-- Before the root. -/
  | outside
  /-- In the start tag of an element, where an attribute or the end of the tag may come. -/
  | tag (u : Unclosed) (outer : List Unclosed)
  /-- Behind the name of an attribute. -/
  | named (key : String) (u : Unclosed) (outer : List Unclosed)
  /-- Behind the equals sign of an attribute. -/
  | equated (key : String) (u : Unclosed) (outer : List Unclosed)
  /-- Behind a second attribute of one name. -/
  | repeated (key element : String)
  /-- In the content of an element. -/
  | content (u : Unclosed) (outer : List Unclosed)
  /-- Behind the root. -/
  | rooted (root : Element)
  | ended (outcome : Except Fault Element)

namespace Phase

/-- Behind the end of an element. -/
def closed (e : Element) : List Unclosed → Phase
  | [] => .rooted e
  | u :: outer => .content (u.addNodes [.element e]) outer

/-- Refuses at the token that is looked at. -/
def refused (t : Located) (cause : Cause) : Phase := .ended (.error ⟨t.line, cause⟩)

/-- One look at a token. -/
def step (t : Located) : Phase → Phase
  | .outside =>
    match t.token with
    | .openTag name => .tag (.opened name t.line) []
    | .endOfInput => refused t .emptyTemplate
    | other => refused t (.noRoot other)
  | .tag u outer =>
    match t.token with
    | .attrName key => .named key u outer
    | .selfClose => closed u.element outer
    | .tagEnd => .content u outer
    | other => refused t (.strayInTag other u.name)
  | .named key u outer =>
    match t.token with
    | .equals => .equated key u outer
    | other => refused t (.expectedEquals key other)
  | .equated key u outer =>
    match t.token with
    | .attrValue value =>
      if u.attrs.any (·.name == key) then .repeated key u.name
      else .tag (u.addAttrs [⟨key, value⟩]) outer
    | other => refused t (.expectedValue key other)
  -- That a name is taken shows only here, so this token's line is named.
  | .repeated key element => refused t (.repeatedAttribute key element)
  | .content u outer =>
    match t.token with
    | .openTag name => .tag (.opened name t.line) (u :: outer)
    | .text s => .content (u.addNodes [.text s t.line]) outer
    | .closeTag name =>
      if name = u.name then closed u.element outer
      else refused t (.mismatchedClose u.name u.line name)
    | .endOfInput => refused t (.unclosed u.name u.line)
    | other => refused t (.strayInContent other u.name)
  | .rooted root =>
    match t.token with
    | .endOfInput => .ended (.ok root)
    | other => refused t (.afterRoot root.name other)
  | .ended outcome => .ended outcome

/-- A look at each of some tokens. -/
def feed (ts : List Located) (p : Phase) : Phase := ts.foldl (fun p t ↦ p.step t) p

@[simp]
theorem feed_nil (p : Phase) : p.feed [] = p := rfl

@[simp]
theorem feed_cons (t : Located) (ts : List Located) (p : Phase) :
    p.feed (t :: ts) = (p.step t).feed ts := rfl

@[simp]
theorem feed_append (ts us : List Located) (p : Phase) :
    p.feed (ts ++ us) = (p.feed ts).feed us := List.foldl_append

@[simp]
theorem step_ended (t : Located) (outcome : Except Fault Element) :
    (Phase.ended outcome).step t = .ended outcome := rfl

@[simp]
theorem feed_ended (ts : List Located) (outcome : Except Fault Element) :
    (Phase.ended outcome).feed ts = .ended outcome := by
  induction ts with
  | nil => rfl
  | cons t ts ih => exact ih

theorem iterate_step_ended (t : Located) (outcome : Except Fault Element) (k : Nat) :
    (step t)^[k] (.ended outcome) = .ended outcome :=
  Function.iterate_fixed (step_ended t outcome) k

/-- The number of open elements. -/
def depth : Phase → Nat
  | .tag _ outer | .named _ _ outer | .equated _ _ outer | .content _ outer => outer.length + 1
  | _ => 0

theorem depth_closed_le (e : Element) (outer : List Unclosed) :
    (closed e outer).depth ≤ outer.length := by
  cases outer <;> simp [closed, depth]

/-- **One step opens at most one element.** -/
theorem depth_step_le (t : Located) (p : Phase) : (p.step t).depth ≤ p.depth + 1 := by
  obtain ⟨token, line⟩ := t
  cases p with
  | outside => cases token <;> simp [step, depth, refused]
  | tag u outer =>
    cases token with
    | selfClose => exact Nat.le_succ_of_le (Nat.le_succ_of_le (depth_closed_le u.element outer))
    | _ => simp [step, depth, refused]
  | named key u outer => cases token <;> simp [step, depth, refused]
  | equated key u outer =>
    cases token with
    | attrValue value =>
      by_cases htaken : u.attrs.any (·.name == key) <;> simp [step, htaken, depth]
    | _ => simp [step, depth, refused]
  | repeated key element => simp [step, depth, refused]
  | content u outer =>
    cases token with
    | closeTag name =>
      by_cases hname : name = u.name
      · simp only [step, if_pos hname]
        exact Nat.le_succ_of_le (Nat.le_succ_of_le (depth_closed_le u.element outer))
      · simp [step, hname, depth, refused]
    | _ => simp [step, depth, refused]
  | rooted root => cases token <;> simp [step, depth, refused]
  | ended outcome => simp

theorem depth_feed_le (ts : List Located) (p : Phase) :
    (p.feed ts).depth ≤ p.depth + ts.length := by
  induction ts generalizing p with
  | nil => exact Nat.le_refl _
  | cons t ts ih =>
    have hstep := depth_step_le t p
    have hfeed := ih (p.step t)
    rw [feed_cons, List.length_cons]
    omega

/-! ### One token again and again -/

/-- The reading has come to an end. -/
def HasEnded (p : Phase) : Prop := ∃ outcome, p = .ended outcome

theorem hasEnded_ended (outcome : Except Fault Element) : HasEnded (.ended outcome) :=
  ⟨outcome, rfl⟩

theorem HasEnded.iterate {p : Phase} (h : HasEnded p) (t : Located) (k : Nat) :
    HasEnded ((step t)^[k] p) := by
  obtain ⟨outcome, rfl⟩ := h
  exact ⟨outcome, iterate_step_ended t outcome k⟩

/-- A closing tag closes one open element in each step, until it is refused. -/
theorem hasEnded_closeTag (name : String) (line : Nat) (u : Unclosed) (outer : List Unclosed) :
    HasEnded ((step ⟨.closeTag name, line⟩)^[outer.length + 2] (.content u outer)) := by
  induction outer generalizing u with
  | nil =>
    rw [Function.iterate_succ_apply]
    by_cases hname : name = u.name
    · simp only [step, if_pos hname]
      exact hasEnded_ended _
    · simp only [step, if_neg hname]
      exact (hasEnded_ended _).iterate _ _
  | cons v outer ih =>
    rw [Function.iterate_succ_apply]
    by_cases hname : name = u.name
    · simp only [step, if_pos hname]
      exact ih _
    · simp only [step, if_neg hname]
      exact (hasEnded_ended _).iterate _ _

/-- **At one token again and again**, a reading ends after a step for each open element and two
more, unless it takes in the same text in each step. -/
theorem hasEnded_or_text (t : Located) (p : Phase) :
    HasEnded ((step t)^[p.depth + 2] p) ∨
      ∃ s u outer, t.token = .text s ∧ p = .content u outer := by
  -- Two steps settle all but the closing tags, which take one for each open element.
  have htwo : HasEnded ((p.step t).step t) → HasEnded ((step t)^[p.depth + 2] p) := fun h ↦ by
    rw [Function.iterate_add_apply]
    exact h.iterate t _
  obtain ⟨token, line⟩ := t
  cases p with
  | outside => exact .inl (htwo (by cases token <;> exact hasEnded_ended _))
  | tag u outer =>
    refine .inl (htwo ?_)
    cases token with
    | selfClose => cases outer <;> exact hasEnded_ended _
    | _ => exact hasEnded_ended _
  | named key u outer => exact .inl (htwo (by cases token <;> exact hasEnded_ended _))
  | equated key u outer =>
    refine .inl (htwo ?_)
    cases token with
    | attrValue value =>
      by_cases htaken : u.attrs.any (·.name == key)
      · simp only [step, if_pos htaken]
        exact hasEnded_ended _
      · simp only [step, if_neg htaken]
        exact hasEnded_ended _
    | _ => exact hasEnded_ended _
  | repeated key element => exact .inl (htwo (hasEnded_ended _))
  | content u outer =>
    cases token with
    | text s => exact .inr ⟨s, u, outer, rfl, rfl⟩
    | closeTag name =>
      refine .inl ?_
      rw [depth, Nat.add_right_comm, Function.iterate_succ_apply']
      exact (hasEnded_closeTag name line u outer).iterate ⟨.closeTag name, line⟩ 1
    | _ => exact .inl (htwo (hasEnded_ended _))
  | rooted root => exact .inl (htwo (by cases token <;> exact hasEnded_ended _))
  | ended outcome => exact .inl (htwo (hasEnded_ended _))

/-- A text is taken in once more in each step. -/
theorem iterate_step_text (s : String) (line : Nat) (u : Unclosed) (outer : List Unclosed)
    (k : Nat) : (step ⟨.text s, line⟩)^[k] (.content u outer) =
      .content (u.addNodes (List.replicate k (.text s line))) outer := by
  induction k generalizing u with
  | zero => simp
  | succ k ih =>
    rw [Function.iterate_succ_apply, step, ih, Unclosed.addNodes_addNodes]
    rfl

end Phase

/-! ### Readers -/

/-- A place in a token list, and how far the reading has come there. -/
structure Reader where
  cursor : Cursor
  phase : Phase

namespace Reader

variable {r : Reader} {c : Cursor} {p : Phase} {us : List Located} {t : Located}

/-- A reader of a whole template. -/
def start (c : Cursor) : Reader := ⟨c, .outside⟩

/-- One look at a token, and one token further. A reader who is done has no use for the cursor. -/
def step (r : Reader) : Reader := ⟨r.cursor.next, r.phase.step r.cursor.current⟩

/-- On the way to the last token, each token is looked at once. -/
theorem iterate_step_of_append (h : c.tokens = us ++ [t]) :
    step^[us.length] ⟨c, p⟩ = ⟨⟨t, []⟩, p.feed us⟩ := by
  induction us generalizing c p with
  | nil =>
    obtain ⟨current, behind⟩ := c
    cases h
    rfl
  | cons v us ih =>
    obtain ⟨current, behind⟩ := c
    rw [List.cons_append, Cursor.tokens, List.cons.injEq] at h
    obtain ⟨rfl, rfl⟩ := h
    have hnext : (Cursor.next ⟨current, us ++ [t]⟩).tokens = us ++ [t] := by
      rw [Cursor.tokens_next]
      exact advance_cons _ (by simp)
    exact ih hnext

/-- At the last token, that token is looked at in every step. -/
theorem iterate_step_last (t : Located) (p : Phase) (k : Nat) :
    step^[k] ⟨⟨t, []⟩, p⟩ = ⟨⟨t, []⟩, (Phase.step t)^[k] p⟩ := by
  induction k generalizing p with
  | zero => rfl
  | succ k ih => exact ih _

/-- **What a whole run looks at**: each token once, and the last one for ever. -/
theorem iterate_step (h : c.tokens = us ++ [t]) (k : Nat) :
    step^[us.length + k] ⟨c, p⟩ = ⟨⟨t, []⟩, (Phase.step t)^[k] (p.feed us)⟩ := by
  rw [Nat.add_comm, Function.iterate_add_apply, iterate_step_of_append h, iterate_step_last]

/-- Once over, a reading stays over. -/
theorem iterate_step_ended {outcome : Except Fault Element} (h : r.phase = .ended outcome)
    (k : Nat) : (step^[k] r).phase = .ended outcome := by
  induction k generalizing r with
  | zero => exact h
  | succ k ih => exact ih (by rw [step, h, Phase.step_ended])

/-- **A reading has one outcome.** -/
theorem outcome_unique {j k : Nat} {x y : Except Fault Element}
    (hx : (step^[j] r).phase = .ended x) (hy : (step^[k] r).phase = .ended y) : x = y := by
  have hxk := iterate_step_ended hx k
  have hyj := iterate_step_ended hy j
  rw [← Function.iterate_add_apply] at hxk hyj
  rw [Nat.add_comm, hyj, Phase.ended.injEq] at hxk
  exact hxk.symm

/-- The reader stands on a last token that is text, in the content of an element. -/
def Stuck (r : Reader) : Prop :=
  ∃ s line u outer, r = ⟨⟨⟨.text s, line⟩, []⟩, .content u outer⟩

theorem Stuck.iterate (h : Stuck r) (k : Nat) : Stuck (step^[k] r) := by
  obtain ⟨s, line, u, outer, rfl⟩ := h
  rw [iterate_step_last, Phase.iterate_step_text]
  exact ⟨s, line, _, outer, rfl⟩

/-- A reading that gets stuck is never over. -/
theorem Stuck.not_ended {j k : Nat} {x : Except Fault Element} (h : Stuck (step^[j] r)) :
    (step^[k] r).phase ≠ .ended x := by
  intro hended
  have hlater := iterate_step_ended hended j
  obtain ⟨s, line, u, outer, hstuck⟩ := h.iterate k
  rw [← Function.iterate_add_apply] at hlater hstuck
  rw [Nat.add_comm, hstuck] at hlater
  cases hlater

/-- **A reading ends or gets stuck.** It is over after two steps for each token, or else it stands
on the last token, a text inside an element, as soon as it comes there. -/
theorem ended_or_stuck (h : c.tokens = us ++ [t]) :
    (∃ x, (step^[2 * c.tokens.length] (start c)).phase = .ended x) ∨
      Stuck (step^[us.length] (start c)) := by
  obtain hended | ⟨s, u, outer, hs, hp⟩ := Phase.hasEnded_or_text t (Phase.outside.feed us)
  · left
    have hdepth : (Phase.outside.feed us).depth ≤ us.length := by
      simpa [Phase.depth] using Phase.depth_feed_le us .outside
    obtain ⟨spare, hspare⟩ := Nat.exists_eq_add_of_le hdepth
    have hsteps : 2 * c.tokens.length =
        us.length + (spare + ((Phase.outside.feed us).depth + 2)) := by
      rw [h, List.length_append, List.length_singleton]
      omega
    obtain ⟨x, hx⟩ := hended.iterate t spare
    refine ⟨x, ?_⟩
    rw [hsteps, start, iterate_step h, Function.iterate_add_apply]
    exact hx
  · right
    obtain ⟨token, line⟩ := t
    cases hs
    rw [start, iterate_step_of_append h, hp]
    exact ⟨s, line, u, outer, rfl⟩

end Reader

end LiveTemplate.Markup
