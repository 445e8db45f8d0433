import LiveTemplate.Text.Blank
import LiveTemplate.Text.Quoted

/-!
# Tokens of the markup

A template is read as a sequence of tokens, each with the line on which it starts. A start tag is
spread over several: its name, a name, an equals sign and a value for each attribute, and its end.
-/

namespace LiveTemplate.Markup

/-- A piece of markup. -/
inductive Token
  /-- `<name`: a start tag begins. -/
  | openTag (name : String)
  /-- `</name>`: an end tag. -/
  | closeTag (name : String)
  /-- The name of an attribute. -/
  | attrName (name : String)
  /-- The equals sign between the name and the value of an attribute. -/
  | equals
  /-- The value of an attribute, without its quotes and with its references resolved. -/
  | attrValue (value : String)
  /-- `>`: a start tag ends, and content follows. -/
  | tagEnd
  /-- `/>`: a start tag ends, and the element with it. -/
  | selfClose
  /-- Text between tags, trimmed and with its references resolved. -/
  | text (content : String)
  /-- The end of the template. -/
  | endOfInput
  deriving Repr, DecidableEq

/-- A token as it is written in a message. -/
def Token.describe : Token → String
  | .openTag name => "Open(" ++ Text.quote name ++ ")"
  | .closeTag name => "Close(" ++ Text.quote name ++ ")"
  | .attrName name => "AttrName(" ++ Text.quote name ++ ")"
  | .equals => "Eq"
  | .attrValue value => "AttrValue(" ++ Text.quote value ++ ")"
  | .tagEnd => "TagEnd"
  | .selfClose => "SelfClose"
  | .text content => "Text(" ++ Text.quote content ++ ")"
  | .endOfInput => "Eof"

/-- A token and the line on which it starts. -/
structure Located where
  token : Token
  line : Nat
  deriving Repr, DecidableEq

/-- The characters of the names of elements and attributes: ASCII letters and digits and four
marks. -/
def isNameChar (c : Char) : Bool :=
  c.isAlphanum || c == '-' || c == '_' || c == ':' || c == '.'

end LiveTemplate.Markup
