import LiveTemplate.Toml.Scalar
import LiveTemplate.Toml.Tree

/-!
# Reading a configuration

`Toml.parse?` reads a whole document, line by line: a header, which opens a table, or a key with a
value, which goes into the table that was opened last. Values are nested less than 80 deep, and so are
tables.
-/

namespace LiveTemplate.Toml

/-! ### Blanks and lines -/

/-- The blanks within a line. -/
def isBlank (c : Char) : Bool := c == ' ' || c == '\t'

/-- Drops the blanks a text begins with. -/
def skipBlanks (s : List Char) : List Char := s.dropWhile isBlank

/-- Whether a character may stand in a comment or in a text on one line. -/
def isPrintable (c : Char) : Bool := c == '\t' || (0x20 ≤ c.toNat && c.toNat != 0x7F)

/-- What follows a line break that a text begins with. -/
def newline? : List Char → Option (List Char)
  | '\n' :: rest => some rest
  | '\r' :: '\n' :: rest => some rest
  | _ => none

/-- What follows the blanks and the comment that a text begins with. -/
def skipComment (s : List Char) : List Char :=
  match skipBlanks s with
  | '#' :: rest => rest.dropWhile isPrintable
  | other => other

/-- What follows the end of a line: blanks, a comment, and a line break or the end of the text. -/
def endLine? (s : List Char) : Option (List Char) :=
  match skipComment s with
  | [] => some []
  | other => newline? other

/-- Drops blanks, comments and line breaks. -/
def skipLines : Nat → List Char → List Char
  | 0, s => s
  | fuel + 1, s =>
    match newline? (skipComment s) with
    | some rest => skipLines fuel rest
    | none => skipComment s

/-! ### Texts -/

/-- The character with a code in hexadecimal digits, unless there is none. -/
def coded? (digits : List Char) : Option Char := do
  let n ← Decimal.digits? 16 digits
  if n.isValidChar then pure (Char.ofNat n) else none

/-- The character after a backslash, and what follows it. -/
def escaped? : List Char → Option (Char × List Char)
  | 'b' :: rest => some ('\x08', rest)
  | 't' :: rest => some ('\t', rest)
  | 'n' :: rest => some ('\n', rest)
  | 'f' :: rest => some ('\x0c', rest)
  | 'r' :: rest => some ('\r', rest)
  | '"' :: rest => some ('"', rest)
  | '\\' :: rest => some ('\\', rest)
  | 'u' :: a :: b :: c :: d :: rest => (coded? [a, b, c, d]).map fun x => (x, rest)
  | 'U' :: a :: b :: c :: d :: e :: f :: g :: h :: rest =>
    (coded? [a, b, c, d, e, f, g, h]).map fun x => (x, rest)
  | _ => none

/-- A text in double quotes up to the closing one, and what follows it. -/
def quoted? : Nat → List Char → Option (List Char × List Char)
  | 0, _ => none
  | _ + 1, [] => none
  | fuel + 1, c :: rest =>
    if c = '"' then some ([], rest)
    else if c = '\\' then do
      let (x, more) ← escaped? rest
      let (text, after) ← quoted? fuel more
      pure (x :: text, after)
    else if isPrintable c then do
      let (text, after) ← quoted? fuel rest
      pure (c :: text, after)
    else none

/-- A text in single quotes up to the closing one, and what follows it. -/
def literal? (s : List Char) : Option (List Char × List Char) :=
  let text := s.takeWhile fun c => isPrintable c && c != '\''
  match s.dropWhile fun c => isPrintable c && c != '\'' with
  | '\'' :: rest => some (text, rest)
  | _ => none

/-- How many quotes a text begins with, up to five. -/
def quotes (q : Char) (s : List Char) : Nat := ((s.takeWhile (· == q)).take 5).length

/-- Drops blanks and line breaks. -/
def skipBlankLines : List Char → List Char
  | ' ' :: rest => skipBlankLines rest
  | '\t' :: rest => skipBlankLines rest
  | '\n' :: rest => skipBlankLines rest
  | '\r' :: '\n' :: rest => skipBlankLines rest
  | other => other

/-- What follows a backslash at the end of a line: the text goes on after the blanks and line breaks
that come next. -/
def continued? (s : List Char) : Option (List Char) := (newline? (skipBlanks s)).map skipBlankLines

/-- A text of several lines up to its three closing quotes, and what follows it. Two quotes more may
stand in front of the closing ones. Escapes are read if `escapes`. -/
def lines? (q : Char) (escapes : Bool) : Nat → List Char → Option (List Char × List Char)
  | 0, _ => none
  | _ + 1, [] => none
  | fuel + 1, c :: rest =>
    if c = q then
      let n := quotes q (c :: rest)
      if 3 ≤ n then some (List.replicate (n - 3) q, (c :: rest).drop n)
      else do
        let (text, after) ← lines? q escapes fuel rest
        pure (c :: text, after)
    else if c = '\\' ∧ escapes = true then
      match continued? rest with
      | some more => lines? q escapes fuel more
      | none => do
        let (x, more) ← escaped? rest
        let (text, after) ← lines? q escapes fuel more
        pure (x :: text, after)
    else
      match newline? (c :: rest) with
      | some more => do
        let (text, after) ← lines? q escapes fuel more
        pure ('\n' :: text, after)
      | none =>
        if isPrintable c then do
          let (text, after) ← lines? q escapes fuel rest
          pure (c :: text, after)
        else none

/-- The beginning of a text of several lines: a line break right at its start does not count. -/
def startLines (s : List Char) : List Char := (newline? s).getD s

/-- A text, and what follows it. -/
def text? (s : List Char) : Option (List Char × List Char) :=
  match s with
  | '"' :: '"' :: '"' :: rest => lines? '"' true (rest.length + 1) (startLines rest)
  | '\'' :: '\'' :: '\'' :: rest => lines? '\'' false (rest.length + 1) (startLines rest)
  | '"' :: rest => quoted? (rest.length + 1) rest
  | '\'' :: rest => literal? rest
  | _ => none

/-! ### Keys -/

/-- Whether a character may stand in a key that is not quoted. -/
def isBare (c : Char) : Bool := c.isAlphanum || c == '-' || c == '_'

/-- A part of a key, and what follows it. -/
def keyPart? (s : List Char) : Option (String × List Char) :=
  match s with
  | '"' :: rest => (quoted? (rest.length + 1) rest).map fun r => (String.ofList r.1, r.2)
  | '\'' :: rest => (literal? rest).map fun r => (String.ofList r.1, r.2)
  | _ =>
    let part := s.takeWhile isBare
    if part.isEmpty then none else some (String.ofList part, s.dropWhile isBare)

/-- The parts of a key with dots between them, and what follows it; blanks around a part do not
count. -/
def keyParts? : Nat → List Char → Option (List String × List Char)
  | 0, _ => none
  | fuel + 1, s => do
    let (part, after) ← keyPart? (skipBlanks s)
    match skipBlanks after with
    | '.' :: more =>
      let (parts, rest) ← keyParts? fuel more
      pure (part :: parts, rest)
    | more => pure ([part], more)

/-- A key as the parts on its way and its last part, and what follows it. A key has less than 80
parts. -/
def key? (s : List Char) : Option (List String × String × List Char) := do
  let (parts, rest) ← keyParts? (s.length + 1) s
  let last ← parts.getLast?
  if parts.length < 80 then pure (parts.dropLast, last, rest) else none

/-! ### Values -/

/-- A reader: what it reads, and what follows that. -/
abbrev Reader (α : Type) := List Char → Option (α × List Char)

/-- A key and its value with an equals sign between them. -/
def pair? (read : Reader Value) : Reader (List String × String × Value) := fun s => do
  let (path, key, rest) ← key? s
  match rest with
  | '=' :: more =>
    let (v, after) ← read (skipBlanks more)
    pure ((path, key, v), after)
  | _ => none

/-- The items of an array up to its closing bracket. -/
def items? (read : Reader Value) : Nat → Reader (List Value)
  | 0, _ => none
  | fuel + 1, s =>
    match skipLines (s.length + 1) s with
    | ']' :: rest => some ([], rest)
    | start => do
      let (v, after) ← read start
      match skipLines (after.length + 1) after with
      | ',' :: more =>
        let (rest, done) ← items? read fuel more
        pure (v :: rest, done)
      | ']' :: more => pure ([v], more)
      | _ => none

/-- The entries of a table on one line up to its closing brace, at least one. -/
def entries? (read : Reader Value) : Nat → Entries → Reader Entries
  | 0, _, _ => none
  | fuel + 1, before, s => do
    let ((path, key, v), after) ← pair? read s
    let entries ← addValue path key v .opened before
    match skipBlanks after with
    | ',' :: more => entries? read fuel entries more
    | '\x7d' :: more => pure (entries, more)
    | _ => none

/-- Whether a character may stand in a word that is not quoted. -/
def isWordPart (c : Char) : Bool := isBare c || c == '+' || c == '.' || c == ':'

/-- A word that is not quoted, and what follows it. A date and a time may have a blank between
them. -/
def word (s : List Char) : List Char × List Char :=
  let first := s.takeWhile isWordPart
  let rest := s.dropWhile isWordPart
  match rest with
  | ' ' :: d :: more =>
    if isDate first && d.isDigit then
      (first ++ ' ' :: (d :: more).takeWhile isWordPart, (d :: more).dropWhile isWordPart)
    else (first, rest)
  | _ => (first, rest)

/-- A value, and what follows it. `depth` bounds the nesting. -/
def value? : Nat → Reader Value
  | 0, _ => none
  | depth + 1, s =>
    match s with
    | '[' :: rest =>
      if depth = 0 then none
      else (items? (value? depth) (rest.length + 1) rest).map fun r => (.array r.1, r.2)
    | '\x7b' :: rest =>
      if depth = 0 then none
      else match skipBlanks rest with
        | '\x7d' :: after => some (.table [], after)
        | start =>
          (entries? (value? depth) (start.length + 1) [] start).map fun r =>
            (.table (valuesOf r.1), r.2)
    | '"' :: _ => (text? s).map fun r => (.text (String.ofList r.1), r.2)
    | '\'' :: _ => (text? s).map fun r => (.text (String.ofList r.1), r.2)
    | _ =>
      let (w, rest) := word s
      (word? w).map fun v => (v, rest)

/-! ### Documents -/

/-- A document as far as it has been read: the table that was opened last, and all entries. -/
structure Draft where
  current : List String
  entries : Entries

/-- Reads a header up to its closing brackets. -/
def header? (close : List Char) (s : List Char) : Option (List String × String × List Char) := do
  let (path, key, rest) ← key? s
  if close.isPrefixOf rest then pure (path, key, rest.drop close.length) else none

/-- Reads a line, and what follows it. -/
def line? (d : Draft) (s : List Char) : Option (Draft × List Char) :=
  match s with
  | '[' :: '[' :: rest => do
    let (path, key, after) ← header? [']', ']'] rest
    let entries ← openOneMore path key d.entries
    pure (⟨path ++ [key], entries⟩, ← endLine? after)
  | '[' :: rest => do
    let (path, key, after) ← header? [']'] rest
    let entries ← openTable path key d.entries
    pure (⟨path ++ [key], entries⟩, ← endLine? after)
  | _ => do
    let ((path, key, v), after) ← pair? (value? 80) s
    let entries ← addIn d.current path key v d.entries
    pure ({ d with entries }, ← endLine? after)

/-- Reads lines up to the end of the text. -/
def document? : Nat → Draft → List Char → Option Draft
  | 0, _, _ => none
  | fuel + 1, d, s =>
    match skipLines (s.length + 1) s with
    | [] => some d
    | start => do
      let (d', rest) ← line? d start
      document? fuel d' rest

/-- The text without the mark that tells the order of its bytes. -/
def withoutMark : List Char → List Char
  | '\ufeff' :: rest => rest
  | other => other

/-- The entries that a document denotes. -/
def parse? (source : String) : Option (List (String × Value)) :=
  let s := withoutMark source.toList
  (document? (s.length + 1) ⟨[], []⟩ s).map fun d => valuesOf d.entries

end LiveTemplate.Toml
