import LiveTemplate.Proofs.Ending
import LiveTemplate.Proofs.Rounds

/-!
# The shape of scanned tokens

The tokens of a source text are texts, end tags and start tags, with the end of input behind them
(`Piece`). Each start tag is its opening token, parts of attributes in any order and number, and one
token that ends the tag. So the reader of elements never meets a token of a start tag in the content
of an element: while it reads what was scanned, its phase and the flag of the scanner at the token
that it looks at agree (`Reader.Fits`).
-/

namespace LiveTemplate.Markup

/-! ### Pieces -/

/-- A token may stand between the opening token of a start tag and its end. -/
def Token.IsPart : Token → Prop
  | .attrName name => IsName name
  | .equals | .attrValue _ => True
  | _ => False

/-- A text, an end tag or a start tag. -/
inductive Piece
  | text (content : String)
  | closeTag (name : String)
  | startTag (name : String) (parts : List Token) (last : Token)

/-- The tokens of a piece. -/
def Piece.tokens : Piece → List Token
  | .text content => [.text content]
  | .closeTag name => [.closeTag name]
  | .startTag name parts last => .openTag name :: (parts ++ [last])

/-- A text is not empty, names are of name characters, and a start tag is whole. -/
def Piece.Proper : Piece → Prop
  | .text content => content ≠ ""
  | .closeTag name => IsName name
  | .startTag name parts last =>
    IsName name ∧ (∀ t ∈ parts, t.IsPart) ∧ (last = .tagEnd ∨ last = .selfClose)

/-- Pieces with the end of input behind them. -/
def InPieces (ts : List Token) : Prop :=
  ∃ pieces : List Piece, (∀ p ∈ pieces, p.Proper) ∧
    ts = pieces.flatMap Piece.tokens ++ [.endOfInput]

theorem InPieces.cons {p : Piece} (hp : p.Proper) {ts : List Token} (h : InPieces ts) :
    InPieces (p.tokens ++ ts) := by
  obtain ⟨pieces, hproper, rfl⟩ := h
  refine ⟨p :: pieces, fun q hq ↦ ?_, by rw [List.flatMap_cons, List.append_assoc]⟩
  rcases List.mem_cons.1 hq with rfl | hq
  · exact hp
  · exact hproper q hq

/-- The rest of a start tag, and pieces behind it. -/
def InRestOfTag (ts : List Token) : Prop :=
  ∃ parts last rest, (∀ t ∈ parts, t.IsPart) ∧ (last = .tagEnd ∨ last = .selfClose) ∧
    InPieces rest ∧ ts = parts ++ last :: rest

theorem InRestOfTag.cons {t : Token} (ht : t.IsPart) {ts : List Token} (h : InRestOfTag ts) :
    InRestOfTag (t :: ts) := by
  obtain ⟨parts, last, rest, hparts, hlast, hrest, rfl⟩ := h
  exact ⟨t :: parts, last, rest, List.forall_mem_cons.2 ⟨ht, hparts⟩, hlast, hrest, rfl⟩

theorem InRestOfTag.openTag {name : String} (hname : IsName name) {ts : List Token}
    (h : InRestOfTag ts) : InPieces (.openTag name :: ts) := by
  obtain ⟨parts, last, rest, hparts, hlast, hrest, rfl⟩ := h
  have hwhole := hrest.cons (p := .startTag _ parts last) ⟨hname, hparts, hlast⟩
  rwa [Piece.tokens, List.cons_append, List.append_assoc] at hwhole

/-- **Tokens along which the flag is turned are pieces**, behind the rest of a start tag if it is
set at first. -/
theorem Shaped.inPieces {inTag : Bool} {ts : List Token} (h : Shaped inTag ts) :
    match inTag with
    | false => InPieces ts
    | true => InRestOfTag ts := by
  induction h with
  | endOfInput => exact ⟨[], nofun, rfl⟩
  | cons hturns _ ih =>
    cases hturns with
    | text hne => exact InPieces.cons (p := .text _) hne ih
    | closeTag hname => exact InPieces.cons (p := .closeTag _) hname ih
    | openTag hname => exact ih.openTag hname
    | attrName hname => exact ih.cons (t := .attrName _) hname
    | equals => exact ih.cons (t := .equals) trivial
    | attrValue value => exact ih.cons (t := .attrValue value) trivial
    | tagEnd => exact ⟨[], _, _, nofun, .inl rfl, ih, rfl⟩
    | selfClose => exact ⟨[], _, _, nofun, .inr rfl, ih, rfl⟩

/-! ### The reader -/

/-- A token may stand in the content of an element, or end the input there. -/
def Token.MayBeContent : Token → Prop
  | .openTag _ | .text _ | .closeTag _ | .endOfInput => True
  | _ => False

/-- The cause is a token in the content of an element that cannot stand there. -/
def Cause.IsStrayContent : Cause → Prop
  | .strayInContent _ _ => True
  | _ => False

namespace Phase

/-- Whether a reader in this phase is in a start tag, unless it is done. -/
def inTag? : Phase → Option Bool
  | .outside | .content _ _ | .rooted _ => some false
  | .tag _ _ | .named _ _ _ | .equated _ _ _ | .repeated _ _ => some true
  | .ended _ => none

theorem inTag?_closed (e : Element) (outer : List Unclosed) :
    (closed e outer).inTag? = some false := by
  cases outer <;> rfl

/-- **A look at a token turns the flag of the reader** as it turns that of the scanner, or else the
token is refused; but not as stray content. -/
theorem inTag?_step {t : Located} {p : Phase} {b b' : Bool} (hp : p.inTag? = some b)
    (ht : t.token.Turns b b') : (p.step t).inTag? = some b' ∨
      ∃ cause : Cause, p.step t = refused t cause ∧ ¬cause.IsStrayContent := by
  obtain ⟨token, line⟩ := t
  cases p with
  | outside =>
    cases hp
    cases ht with
    | openTag => exact .inl rfl
    | _ => exact .inr ⟨_, rfl, not_false⟩
  | tag u outer =>
    cases hp
    cases ht with
    | attrName => exact .inl rfl
    | tagEnd => exact .inl rfl
    | selfClose => exact .inl (inTag?_closed _ _)
    | _ => exact .inr ⟨_, rfl, not_false⟩
  | named key u outer =>
    cases hp
    cases ht with
    | equals => exact .inl rfl
    | _ => exact .inr ⟨_, rfl, not_false⟩
  | equated key u outer =>
    cases hp
    cases ht with
    | attrValue value =>
      refine .inl ?_
      show (if _ then _ else _ : Phase).inTag? = _
      split <;> rfl
    | _ => exact .inr ⟨_, rfl, not_false⟩
  | repeated key element =>
    cases hp
    exact .inr ⟨_, rfl, not_false⟩
  | content u outer =>
    cases hp
    cases ht with
    | openTag => exact .inl rfl
    | text => exact .inl rfl
    | @closeTag name =>
      by_cases hname : name = u.name
      · refine .inl ?_
        rw [show (Phase.content u outer).step ⟨.closeTag name, line⟩ = closed u.element outer from
          if_pos hname]
        exact inTag?_closed _ _
      · exact .inr ⟨_, if_neg hname, not_false⟩
  | rooted root =>
    cases hp
    cases ht <;> exact .inr ⟨_, rfl, not_false⟩
  | ended outcome => cases hp

/-- At the end of input every reader is done. -/
theorem step_endOfInput {p : Phase} (hp : p.inTag? = some false) (line : Nat) :
    ∃ outcome, p.step ⟨.endOfInput, line⟩ = .ended outcome ∧
      ∀ fault, outcome = .error fault → ¬fault.cause.IsStrayContent := by
  cases p with
  | outside => exact ⟨_, rfl, fun fault h ↦ by cases h; exact not_false⟩
  | content u outer => exact ⟨_, rfl, fun fault h ↦ by cases h; exact not_false⟩
  | rooted root => exact ⟨_, rfl, nofun⟩
  | _ => cases hp

end Phase

namespace Reader

/-- The flag of the reader is that of the scanner at the token that is looked at, or the reader is
done and has not met stray content. -/
structure Fits (r : Reader) : Prop where
  shaped : ∀ b, r.phase.inTag? = some b → Shaped b (r.cursor.tokens.map (·.token))
  cause : ∀ fault, r.phase = .ended (.error fault) → ¬fault.cause.IsStrayContent

variable {r : Reader}

theorem fits_of_ended {outcome : Except Fault Element} (hr : r.phase = .ended outcome)
    (hcause : ∀ fault, outcome = .error fault → ¬fault.cause.IsStrayContent) : r.Fits where
  shaped := fun b hb ↦ by
    rw [hr] at hb
    cases hb
  cause := fun fault hfault ↦ by
    rw [hr] at hfault
    cases hfault
    exact hcause fault rfl

/-- **The flags stay in agreement.** -/
theorem Fits.step (h : r.Fits) : r.step.Fits := by
  obtain ⟨⟨t, behind⟩, p⟩ := r
  cases hp : p.inTag? with
  | none =>
    cases p with
    | ended outcome =>
      refine fits_of_ended rfl fun fault hfault ↦ h.cause fault ?_
      rw [hfault]
    | _ => cases hp
  | some b =>
    have hshaped : Shaped b (t.token :: behind.map (·.token)) := h.shaped b hp
    obtain ⟨rfl, hend, -⟩ | ⟨b', hturns, hrest⟩ := hshaped.of_cons
    · obtain ⟨token, line⟩ := t
      cases hend
      obtain ⟨outcome, houtcome, hcause⟩ := Phase.step_endOfInput hp line
      exact fits_of_ended houtcome hcause
    · obtain hflag | ⟨cause, hrefused, hcause⟩ := Phase.inTag?_step hp hturns
      · refine ⟨fun b'' hb ↦ ?_, fun fault hfault ↦ ?_⟩
        · obtain rfl : b' = b'' := Option.some.inj (hflag.symm.trans hb)
          -- Something follows, so the reader does not stay at the token.
          have hne : behind ≠ [] := fun hnil ↦ hrest.ne_nil (by rw [hnil]; rfl)
          obtain ⟨next, more, rfl⟩ := List.exists_cons_of_ne_nil hne
          exact hrest
        · have hdone : (p.step t).inTag? = none := by
            rw [show p.step t = _ from hfault]
            rfl
          rw [hflag] at hdone
          cases hdone
      · refine fits_of_ended hrefused fun fault hfault ↦ ?_
        cases hfault
        exact hcause

theorem Fits.iterate (h : r.Fits) (k : Nat) : (Reader.step^[k] r).Fits := by
  induction k generalizing r with
  | zero => exact h
  | succ k ih => exact ih h.step

theorem fits_start {c : Cursor} (h : Shaped false (c.tokens.map (·.token))) : (start c).Fits where
  shaped := fun b hb ↦ by
    cases hb
    exact h
  cause := nofun

theorem Fits.mayBeContent (h : r.Fits) {u : Unclosed} {outer : List Unclosed}
    (hcontent : r.phase = .content u outer) : r.cursor.current.token.MayBeContent := by
  obtain ⟨⟨⟨token, line⟩, behind⟩, p⟩ := r
  obtain rfl : p = .content u outer := hcontent
  obtain ⟨-, rfl, -⟩ | ⟨b, hturns, -⟩ := (h.shaped false rfl).of_cons
  · trivial
  · cases hturns <;> trivial

theorem Fits.not_stuck (h : r.Fits) : ¬r.Stuck := by
  rintro ⟨s, line, u, outer, rfl⟩
  obtain ⟨-, hend, -⟩ | ⟨b, -, hrest⟩ := (h.shaped false rfl).of_cons
  · cases hend
  · exact hrest.ne_nil rfl

end Reader

/-- What the tokens of a source text are like. -/
structure TagShaped (ts : List Located) : Prop where
  pieces : InPieces (ts.map (·.token))
  /-- In the content of an element the reader meets only what may stand there. -/
  mayBeContent : ∀ c : Cursor, c.tokens = ts → ∀ k u outer,
    (Reader.step^[k] (.start c)).phase = .content u outer →
      (Reader.step^[k] (.start c)).cursor.current.token.MayBeContent
  /-- If there is no element, the tokens are refused, but not for stray content. -/
  refused : ∀ failure, Element.ofTokens ts = .error failure →
    ∃ fault, failure = .refused fault ∧ ¬fault.cause.IsStrayContent

theorem tagShaped_of_shaped {ts : List Located} (h : Shaped false (ts.map (·.token))) :
    TagShaped ts where
  pieces := h.inPieces
  mayBeContent := by
    rintro c rfl k u outer hcontent
    exact ((Reader.fits_start h).iterate k).mayBeContent hcontent
  refused := by
    intro failure hfailure
    have hne : ts ≠ [] := fun hnil ↦ h.ne_nil (by rw [hnil]; rfl)
    obtain ⟨c, rfl⟩ := Cursor.exists_tokens_eq hne
    have hfits := Reader.fits_start h
    have hcomes := comesTo_ofTokens c
    rw [hfailure] at hcomes
    cases hcomes with
    | refused hreaches hended =>
      obtain ⟨k, rfl⟩ := hreaches
      exact ⟨_, rfl, (hfits.iterate k).cause _ hended⟩
    | endless hreaches hstuck =>
      obtain ⟨k, rfl⟩ := hreaches
      exact absurd hstuck (hfits.iterate k).not_stuck

/-- **Tags are whole** in what is scanned: the tokens are texts that are not empty, end tags and
start tags, each with just one end, and the end of input behind them. The scanner always advances,
and is done after as many rounds as there are characters. The reader never meets a token of a start
tag in the content of an element. -/
theorem tags_are_whole (source : String) :
    (∀ (s s' : Scanner) (here : List Located), s.rest ≠ [] → s.step = .ok (here, s') →
      ∃ piece, piece ≠ [] ∧ s.rest = piece ++ s'.rest) ∧
    Token.scan source =
      (Scanner.start source).rounds source.toList.length >>= Scanner.finish ∧
    ∀ ts, Token.scan source = .ok ts → TagShaped ts := by
  refine ⟨fun s s' here hs hstep ↦ (Scanner.passes_of_step hs hstep).piece,
    Scanner.scan_eq_rounds (s := .start source) _ (Nat.le_refl _),
    fun ts hts ↦ tagShaped_of_shaped (shaped_of_scan hts)⟩

/-- A tag with an end and a tag inside its value, a comment with a tag inside it, and an empty
element. -/
theorem tags_are_whole_hidden :
    let source := "<a b='></b>'>x<!-- <c> --><d/></a>"
    let ts : List Located := [⟨.openTag "a", 1⟩, ⟨.attrName "b", 1⟩, ⟨.equals, 1⟩,
      ⟨.attrValue "></b>", 1⟩, ⟨.tagEnd, 1⟩, ⟨.text "x", 1⟩, ⟨.openTag "d", 1⟩, ⟨.selfClose, 1⟩,
      ⟨.closeTag "a", 1⟩, ⟨.endOfInput, 1⟩]
    Token.scan source = .ok ts ∧ TagShaped ts ∧
      ∃ (s' : Scanner) (here : List Located), (Scanner.start source).rest ≠ [] ∧
        (Scanner.start source).step = .ok (here, s') ∧
        ∃ piece, piece ≠ [] ∧ (Scanner.start source).rest = piece ++ s'.rest := by
  intro source ts
  have hscan : Token.scan source = .ok ts := by decide +kernel
  have hstart : (Scanner.start source).rest ≠ [] := by decide
  have hstep : (Scanner.start source).step =
      .ok ([⟨.openTag "a", 1⟩], ⟨true, 1, " b='></b>'>x<!-- <c> --><d/></a>".toList⟩) := by
    decide +kernel
  obtain ⟨hadvances, -, hshaped⟩ := tags_are_whole source
  exact ⟨hscan, hshaped ts hscan, _, _, hstart, hstep, hadvances _ _ _ hstart hstep⟩

end LiveTemplate.Markup
