/-!
# Elements

The tree that a template denotes: elements with their attributes in the order of the source, and
text between them. Nothing is interpreted here; a name is a name.
-/

namespace LiveTemplate.Markup

/-- A name and a value on a start tag. -/
structure Attribute where
  name : String
  value : String
  deriving Repr, DecidableEq

mutual

/-- An element, with the line of its start tag. -/
inductive Element
  | mk (name : String) (attrs : List Attribute) (children : List Node) (line : Nat)

/-- What an element may contain. -/
inductive Node
  | element (e : Element)
  | text (content : String) (line : Nat)

end

namespace Element

/-- The name of an element. -/
def name : Element → String
  | mk name _ _ _ => name

/-- The attributes of an element. -/
def attrs : Element → List Attribute
  | mk _ attrs _ _ => attrs

/-- The content of an element. -/
def children : Element → List Node
  | mk _ _ children _ => children

/-- The line on which an element starts. -/
def line : Element → Nat
  | mk _ _ _ line => line

/-- The value of an attribute. -/
def attr? (e : Element) (key : String) : Option String :=
  (e.attrs.find? (·.name == key)).map (·.value)

end Element

namespace Node

/-- The node as an element. -/
def element? : Node → Option Element
  | element e => some e
  | text .. => none

/-- The node as text. -/
def text? : Node → Option String
  | element _ => none
  | text content _ => some content

end Node

namespace Element

/-- The elements directly inside an element. -/
def elements (e : Element) : List Element := e.children.filterMap Node.element?

/-- The texts directly inside an element, separated by blanks. -/
def text (e : Element) : String := " ".intercalate (e.children.filterMap Node.text?)

/-- Whether there is text directly inside an element. -/
def hasText (e : Element) : Bool := e.children.any fun n => n.text?.isSome

mutual

/-- The number of elements of a tree, the root included. -/
def count : Element → Nat
  | mk _ _ children _ => 1 + countAll children

/-- The number of elements in some content. -/
def countAll : List Node → Nat
  | [] => 0
  | .element e :: rest => e.count + countAll rest
  | .text .. :: rest => countAll rest

end

end Element

end LiveTemplate.Markup
