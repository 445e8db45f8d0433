import LiveTemplate.Json.Basic
import LiveTemplate.Markup.Element
import LiveTemplate.Text.Quoted

/-!
# Elements written out

An element as a document, and as lines of text, one for each element and for each text in it.
-/

namespace LiveTemplate.Markup

mutual

/-- The fields of an element as a document. -/
def Element.jsonFields : Element → List (String × Json)
  | ⟨name, attrs, children, line⟩ =>
    [("name", .string name),
      ("attrs", .array (attrs.map fun a =>
        .object [("name", .string a.name), ("value", .string a.value)])),
      ("children", .array (nodesJson children)), ("line", .ofNat line)]

/-- What is inside an element as documents. -/
def nodesJson : List Node → List Json
  | [] => []
  | .element e :: rest => .object (("kind", .string "element") :: e.jsonFields) :: nodesJson rest
  | .text s line :: rest =>
    .object [("kind", .string "text"), ("text", .string s), ("line", .ofNat line)] ::
      nodesJson rest

end

/-- An element as a document. -/
def Element.toJson (e : Element) : Json := .object e.jsonFields

/-- The blanks in front of a line. -/
def indentation (depth : Nat) : String := String.ofList (List.replicate (2 * depth) ' ')

/-- An attribute in a line. -/
def Attribute.written (a : Attribute) : String := " " ++ a.name ++ "=\"" ++ a.value ++ "\""

mutual

/-- The lines of an element at a depth. -/
def Element.lines (depth : Nat) : Element → List String
  | ⟨name, attrs, children, line⟩ =>
    (indentation depth ++ "<" ++ name ++ String.join (attrs.map Attribute.written) ++ ">  (line " ++
      toString line ++ ")") :: nodesLines (depth + 1) children

/-- The lines of what is inside an element. -/
def nodesLines (depth : Nat) : List Node → List String
  | [] => []
  | .element e :: rest => e.lines depth ++ nodesLines depth rest
  | .text s _ :: rest => (indentation depth ++ Text.quote s) :: nodesLines depth rest

end

end LiveTemplate.Markup
