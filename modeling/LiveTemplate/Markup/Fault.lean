import LiveTemplate.Markup.Token

/-!
# What can be wrong with a template

The causes for which a template is refused before its elements are given a meaning, each with its
wording, and the place that a refusal names.
-/

namespace LiveTemplate.Markup

/-- Why a template is refused. -/
inductive Cause
  | unterminatedReference
  | unknownReference (name : String)
  | unterminatedComment
  | unterminatedInstruction
  | unterminatedTag
  | unterminatedValue
  | loneSlash
  | strayCharacter (c : Char)
  | missingCloseName
  | missingOpenName
  | unendedCloseTag (name : String)
  | expectedEquals (attr : String) (got : Token)
  | expectedValue (attr : String) (got : Token)
  | repeatedAttribute (attr element : String)
  | strayInTag (got : Token) (element : String)
  | mismatchedClose (element : String) (opened : Nat) (got : String)
  | unclosed (element : String) (opened : Nat)
  | strayInContent (got : Token) (element : String)
  | afterRoot (element : String) (got : Token)
  | emptyTemplate
  | noRoot (got : Token)
  | unreadable (reason : String)
  deriving Repr, DecidableEq

/-- The wording of a cause. -/
def Cause.message : Cause → String
  | .unterminatedReference => "unterminated entity reference"
  | .unknownReference name => "unknown entity '&" ++ name ++ ";'"
  | .unterminatedComment => "unterminated comment"
  | .unterminatedInstruction => "unterminated processing instruction"
  | .unterminatedTag => "unterminated tag at end of input"
  | .unterminatedValue => "unterminated attribute value"
  | .loneSlash => "expected '>' after '/'"
  | .strayCharacter c => "unexpected character '" ++ c.toString ++ "' in tag"
  | .missingCloseName => "expected tag name after '</'"
  | .missingOpenName => "expected tag name after '<'"
  | .unendedCloseTag name => "expected '>' to close '</" ++ name ++ "'"
  | .expectedEquals attr got =>
    "expected '=' after attribute '" ++ attr ++ "', got " ++ got.describe
  | .expectedValue attr got =>
    "expected quoted value for attribute '" ++ attr ++ "', got " ++ got.describe
  | .repeatedAttribute attr element =>
    "duplicate attribute '" ++ attr ++ "' on <" ++ element ++ ">"
  | .strayInTag got element => "unexpected " ++ got.describe ++ " in start tag <" ++ element ++ ">"
  | .mismatchedClose element opened got =>
    "mismatched closing tag: expected </" ++ element ++ "> (opened on line " ++ toString opened ++
      "), got </" ++ got ++ ">"
  | .unclosed element opened =>
    "unclosed element <" ++ element ++ "> opened on line " ++ toString opened
  | .strayInContent got element =>
    "unexpected " ++ got.describe ++ " in content of <" ++ element ++ ">"
  | .afterRoot element got =>
    "unexpected content after root element <" ++ element ++ ">: " ++ got.describe
  | .emptyTemplate => "empty template: expected a root element"
  | .noRoot got => "expected root element, got " ++ got.describe
  | .unreadable reason => "cannot read template: " ++ reason

/-- A refusal: the line of a template and the cause found there. -/
structure Fault where
  line : Nat
  cause : Cause
  deriving Repr, DecidableEq

/-- A refusal with the file it concerns. -/
structure TemplateError where
  file : String
  fault : Fault
  deriving Repr, DecidableEq

namespace TemplateError

/-- The line that a refusal names. -/
def line (e : TemplateError) : Nat := e.fault.line

/-- The wording of a refusal, without its place. -/
def message (e : TemplateError) : String := e.fault.cause.message

/-- A refusal as it is shown: file, line, wording. -/
def display (e : TemplateError) : String :=
  e.file ++ ":" ++ toString e.line ++ ": " ++ e.message

end TemplateError

end LiveTemplate.Markup
