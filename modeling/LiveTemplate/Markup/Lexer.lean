import LiveTemplate.Markup.Reference

/-!
# Tokens of a source text

`Token.scan` reads a source text as tokens. Outside a tag, comments and processing instructions are
skipped, `<` begins a tag, and anything else is text up to the next `<`; text that is all blank
gives no token. Inside a tag, blanks are skipped until `>` or `/>`.

A line is one more than the number of line feeds before the place it names. Each part of the
recursion hands on the text that is left and its line, and the text that is left gets shorter.
-/

namespace LiveTemplate.Markup

/-- The characters of a name at the front of a text. -/
def nameOf (s : List Char) : List Char := s.takeWhile isNameChar

/-- What follows a name at the front of a text. -/
def afterName (s : List Char) : List Char := s.dropWhile isNameChar

theorem length_dropWhile_le {α : Type} (p : α → Bool) (l : List α) :
    (l.dropWhile p).length ≤ l.length := by
  simpa using (List.dropWhile_sublist p).length_le

/-- The text up to the next tag. -/
def runOf (s : List Char) : List Char := s.takeWhile (· != '<')

/-- What follows the text up to the next tag. -/
def afterRun (s : List Char) : List Char := s.dropWhile (· != '<')

/-- The token of the text between two tags, if it is not all blank. Its line is that of its first
character that is not blank. -/
def textToken? (line : Nat) (raw : List Char) : Except Fault (List Located) :=
  let trimmed := Text.trim raw
  let start := line + Text.newlines (raw.takeWhile Text.isBlank)
  if trimmed.isEmpty then .ok []
  else match decode trimmed with
    | .ok content => .ok [⟨.text (String.ofList content), start⟩]
    | .error cause => .error ⟨start, cause⟩

/-- The value of an attribute from behind its opening quote, and what follows the closing one. -/
def quotedValue (line : Nat) (quote : Char) (s : List Char) :
    Except Fault (String × Nat × { rest : List Char // rest.length ≤ s.length }) :=
  match _h : Text.splitAt? [quote] s with
  | none => .error ⟨line, .unterminatedValue⟩
  | some (raw, rest) =>
    match decode raw with
    | .ok value =>
      .ok (String.ofList value, Text.newlines raw, ⟨rest, Text.length_of_splitAt? _h⟩)
    | .error cause => .error ⟨line, cause⟩

mutual

/-- The tokens of a text that starts outside a tag, on the given line. -/
def scanContent (line : Nat) (s : List Char) : Except Fault (List Located) :=
  match s with
  | [] => .ok [⟨.endOfInput, line⟩]
  -- A comment or an instruction hides whatever stands in it, so they come before tags.
  | '<' :: '!' :: '-' :: '-' :: body =>
    match _h : Text.splitAt? ['-', '-', '>'] body with
    | none => .error ⟨line, .unterminatedComment⟩
    | some (skipped, rest) => scanContent (line + Text.newlines skipped) rest
  | '<' :: '?' :: body =>
    match _h : Text.splitAt? ['?', '>'] body with
    | none => .error ⟨line, .unterminatedInstruction⟩
    | some (skipped, rest) => scanContent (line + Text.newlines skipped) rest
  | '<' :: '/' :: body =>
    let name := nameOf body
    if name.isEmpty then .error ⟨line, .missingCloseName⟩
    else
      let blanks := (afterName body).takeWhile Text.isBlank
      match _h : (afterName body).dropWhile Text.isBlank with
      | '>' :: rest => do
        let tokens ← scanContent (line + Text.newlines blanks) rest
        pure (⟨.closeTag (String.ofList name), line⟩ :: tokens)
      | _ => .error ⟨line, .unendedCloseTag (String.ofList name)⟩
  | '<' :: body =>
    let name := nameOf body
    if name.isEmpty then .error ⟨line, .missingOpenName⟩
    else do
      let tokens ← scanTag line (afterName body)
      pure (⟨.openTag (String.ofList name), line⟩ :: tokens)
  | c :: body => do
    let raw := c :: runOf body
    let here ← textToken? line raw
    let tokens ← scanContent (line + Text.newlines raw) (afterRun body)
    pure (here ++ tokens)
termination_by s.length
decreasing_by
  · have := Text.length_of_splitAt? _h
    simp only [List.length_cons]
    omega
  · have := Text.length_of_splitAt? _h
    simp only [List.length_cons]
    omega
  · have h₁ := length_dropWhile_le Text.isBlank (afterName body)
    have h₂ := length_dropWhile_le isNameChar body
    have h₃ := congrArg List.length _h
    simp only [afterName, List.length_cons] at *
    omega
  · have := length_dropWhile_le isNameChar body
    simp only [afterName, List.length_cons]
    omega
  · have := length_dropWhile_le (· != '<') body
    simp only [afterRun, List.length_cons]
    omega

/-- The tokens of a text that starts inside a start tag, on the given line. -/
def scanTag (line : Nat) (s : List Char) : Except Fault (List Located) :=
  match s with
  | [] => .error ⟨line, .unterminatedTag⟩
  | c :: body =>
    if Text.isBlank c then scanTag (if c = '\n' then line + 1 else line) body
    else if c = '>' then do
      let tokens ← scanContent line body
      pure (⟨.tagEnd, line⟩ :: tokens)
    -- A slash ends the tag of an empty element, and only right in front of `>`.
    else if c = '/' then
      match body with
      | '>' :: rest => do
        let tokens ← scanContent line rest
        pure (⟨.selfClose, line⟩ :: tokens)
      | _ => .error ⟨line, .loneSlash⟩
    else if c = '=' then do
      let tokens ← scanTag line body
      pure (⟨.equals, line⟩ :: tokens)
    else if c = '"' ∨ c = '\x27' then do
      -- The token has the line of the opening quote, though the value may go on for lines.
      let (value, lines, rest) ← quotedValue line c body
      let tokens ← scanTag (line + lines) rest.1
      pure (⟨.attrValue value, line⟩ :: tokens)
    else if isNameChar c then do
      let tokens ← scanTag line (afterName body)
      pure (⟨.attrName (String.ofList (c :: nameOf body)), line⟩ :: tokens)
    else .error ⟨line, .strayCharacter c⟩
termination_by s.length
decreasing_by
  · simp
  · simp
  · simp only [List.length_cons]
    omega
  · simp
  · have := rest.2
    simp only [List.length_cons]
    omega
  · have := length_dropWhile_le isNameChar body
    simp only [afterName, List.length_cons]
    omega

end

/-- The tokens of a source text, ending in the end of input. -/
def Token.scan (source : String) : Except Fault (List Located) := scanContent 1 source.toList

end LiveTemplate.Markup
