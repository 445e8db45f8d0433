import LiveTemplate.Markup.Element
import LiveTemplate.Markup.Lexer

/-!
# Elements of a token list

`Element.ofTokens` reads a token list as one element followed by the end of input. The reader stands
on one token at a time and never moves past the last one, so a list that does not end in the end of
input is read as if its last token were repeated for ever. The one list of tokens this can keep busy
is one whose last token is text in the content of an element; its outcome is `endless`. Every other
reading consumes tokens and ends.
-/

namespace LiveTemplate.Markup

/-- How a token list can fail to be an element. -/
inductive Failure
  | refused (fault : Fault)
  /-- The last token is text inside an element, so the end of the content never comes. -/
  | endless
  deriving Repr, DecidableEq

/-- Refuses a token list at a line. -/
def refuse {α : Type} (line : Nat) (cause : Cause) : Except Failure α :=
  .error (.refused ⟨line, cause⟩)

/-- One token further, unless the list is at its last token. -/
def advance : List Located → List Located
  | [] => []
  | [t] => [t]
  | _ :: rest => rest

theorem length_advance_le (ts : List Located) : (advance ts).length ≤ ts.length := by
  match ts with
  | [] => simp [advance]
  | [_] => simp [advance]
  | _ :: _ :: _ => simp [advance]

/-- A start tag behind its name: its attributes, whether the element ends with it, and what
follows. -/
structure StartTag (n : Nat) where
  attrs : List Attribute
  isEmpty : Bool
  rest : List Located
  length_le : rest.length ≤ n

/-- Reads attributes up to the end of a start tag. `seen` holds the attributes before. -/
def startTag (element : String) (seen : List Attribute) (ts : List Located) :
    Except Failure (StartTag ts.length) :=
  match ts with
  | [] => refuse 0 (.strayInTag .endOfInput element)
  | ⟨.attrName key, line⟩ :: rest =>
    match rest with
    | [] => refuse line (.expectedEquals key (.attrName key))
    | ⟨.equals, eqLine⟩ :: afterEq =>
      match afterEq with
      | [] => refuse eqLine (.expectedValue key .equals)
      | ⟨.attrValue value, valueLine⟩ :: afterValue =>
        -- The reader has passed the value when it finds the name taken.
        let here := (afterValue.head?.map (·.line)).getD valueLine
        if seen.any (·.name == key) then refuse here (.repeatedAttribute key element)
        else
          match afterValue with
          | [] => refuse valueLine (.strayInTag (.attrValue value) element)
          | next :: more => do
            let tag ← startTag element (seen ++ [⟨key, value⟩]) (next :: more)
            pure ⟨tag.attrs, tag.isEmpty, tag.rest, by
              have := tag.length_le
              simp only [List.length_cons] at *
              omega⟩
      | ⟨other, otherLine⟩ :: _ => refuse otherLine (.expectedValue key other)
    | ⟨other, otherLine⟩ :: _ => refuse otherLine (.expectedEquals key other)
  | ⟨.selfClose, line⟩ :: rest =>
    .ok ⟨seen, true, advance (⟨.selfClose, line⟩ :: rest), length_advance_le _⟩
  | ⟨.tagEnd, line⟩ :: rest =>
    .ok ⟨seen, false, advance (⟨.tagEnd, line⟩ :: rest), length_advance_le _⟩
  | ⟨other, line⟩ :: _ => refuse line (.strayInTag other element)
termination_by ts.length
decreasing_by
  simp only [List.length_cons]
  omega

/-- Content and what follows the end tag that closes it. -/
structure Content (n : Nat) where
  nodes : List Node
  rest : List Located
  length_le : rest.length ≤ n

/-- Reads the content of an element up to its end tag. -/
def content (element : String) (opened : Nat) (ts : List Located) :
    Except Failure (Content ts.length) :=
  match ts with
  | [] => refuse 0 (.unclosed element opened)
  | ⟨.openTag name, line⟩ :: rest =>
    match rest with
    | [] => refuse line (.strayInTag (.openTag name) name)
    | next :: more => do
      let tag ← startTag name [] (next :: more)
      if tag.isEmpty then
        let others ← content element opened tag.rest
        pure ⟨.element (.mk name tag.attrs [] line) :: others.nodes, others.rest, by
          have h₁ := tag.length_le
          have h₂ := others.length_le
          simp only [List.length_cons] at *
          omega⟩
      else
        let inner ← content name line tag.rest
        let others ← content element opened inner.rest
        pure ⟨.element (.mk name tag.attrs inner.nodes line) :: others.nodes, others.rest, by
          have h₁ := tag.length_le
          have h₂ := inner.length_le
          have h₃ := others.length_le
          simp only [List.length_cons] at *
          omega⟩
  | ⟨.text text, line⟩ :: rest =>
    match rest with
    | [] => .error .endless
    | next :: more => do
      let others ← content element opened (next :: more)
      pure ⟨.text text line :: others.nodes, others.rest, by
        have := others.length_le
        simp only [List.length_cons] at *
        omega⟩
  | ⟨.closeTag name, line⟩ :: rest =>
    if name = element then
      .ok ⟨[], advance (⟨.closeTag name, line⟩ :: rest), length_advance_le _⟩
    else refuse line (.mismatchedClose element opened name)
  | ⟨.endOfInput, line⟩ :: _ => refuse line (.unclosed element opened)
  | ⟨other, line⟩ :: _ => refuse line (.strayInContent other element)
termination_by ts.length
decreasing_by
  · have := tag.length_le
    simp only [List.length_cons] at *
    omega
  · have := tag.length_le
    simp only [List.length_cons] at *
    omega
  · have h₁ := tag.length_le
    have h₂ := inner.length_le
    simp only [List.length_cons] at *
    omega
  · simp

/-- Reads the element that an opening token begins, from the token behind it. -/
def Element.afterOpen (name : String) (line : Nat) (ts : List Located) :
    Except Failure (Element × List Located) := do
  let tag ← startTag name [] ts
  if tag.isEmpty then pure (.mk name tag.attrs [] line, tag.rest)
  else
    let inner ← content name line tag.rest
    pure (.mk name tag.attrs inner.nodes line, inner.rest)

/-- The element that a token list denotes, if nothing but the end of input follows it. -/
def Element.ofTokens (ts : List Located) : Except Failure Element :=
  match ts with
  | [] => refuse 0 .emptyTemplate
  | ⟨.openTag name, line⟩ :: rest => do
    let (root, after) ← Element.afterOpen name line (advance (⟨.openTag name, line⟩ :: rest))
    -- Only the end may follow: a template has a single root.
    match after with
    | ⟨.endOfInput, _⟩ :: _ => pure root
    | ⟨other, otherLine⟩ :: _ => refuse otherLine (.afterRoot root.name other)
    | [] => refuse line (.afterRoot root.name .endOfInput)
  | ⟨.endOfInput, line⟩ :: _ => refuse line .emptyTemplate
  | ⟨other, line⟩ :: _ => refuse line (.noRoot other)

instance : Nonempty Fault := ⟨⟨0, .emptyTemplate⟩⟩

/-- Takes in a text behind the content read so far, and then the same text again: what is left to do
for a reader who stands on a text and cannot leave it. -/
def takeAgain (text : String) (line : Nat) (nodes : List Node) : Fault :=
  Id.run <| repeatM (fun nodes => pure (.inl (.text text line :: nodes))) nodes

/-- The refusal of a failed reading. An endless reading never comes to one, so whoever asks for it
waits for as long as the text at the end of the list is read. Tokens made from a source text end in
the end of input, so their readings are never endless. -/
def Failure.fault : Failure → Fault
  | .refused fault => fault
  | .endless => takeAgain "" 0 []

/-- The element that a source text denotes. -/
def Element.parse (file source : String) : Except TemplateError Element :=
  match Token.scan source with
  | .error fault => .error ⟨file, fault⟩
  | .ok tokens => (Element.ofTokens tokens).mapError fun failure => ⟨file, failure.fault⟩

end LiveTemplate.Markup
