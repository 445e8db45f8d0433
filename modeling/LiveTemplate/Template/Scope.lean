import LiveTemplate.Markup.Element
import LiveTemplate.Problem

/-!
# Reading elements

What every reader of elements needs: the file an element stands in, the globals it may refer to, and
checks on its attributes and on the number of its children. An element is checked before anything
inside it is read, and the first misuse found is reported with its place.
-/

namespace LiveTemplate.Template

open Markup

/-- What is known where an element is read. -/
structure Scope where
  file : String
  globals : List String

namespace Scope

/-- Refuses an element. -/
def refuse {α : Type} (s : Scope) (e : Element) (misuse : Misuse) : Except Problem α :=
  .error (.misused s.file e.line e.name misuse)

/-- What was found, or a misuse of the element. -/
def expect {α : Type} (s : Scope) (e : Element) (misuse : Misuse) (found : Option α) :
    Except Problem α :=
  match found with
  | some a => .ok a
  | none => s.refuse e misuse

/-- The value of an attribute that must be there. -/
def attr (s : Scope) (e : Element) (key : String) : Except Problem String :=
  s.expect e (.missingAttribute key) (e.attr? key)

/-- The elements inside an element that must not hold text. -/
def elements (s : Scope) (e : Element) : Except Problem (List Element) :=
  if e.hasText then s.refuse e (.unexpectedText e.text) else .ok e.elements

/-- Refuses an element for the number of its children, or for text among them. -/
def wrongCount {α : Type} (s : Scope) (e : Element) (expected : Nat) : Except Problem α :=
  if e.hasText then s.refuse e (.unexpectedText e.text)
  else s.refuse e (.wrongCount expected e.elements.length)

/-- Accepts an element without content. -/
def childless (s : Scope) (e : Element) : Except Problem Unit :=
  match e.children with
  | [] => .ok ()
  | _ => s.wrongCount e 0

end Scope

end LiveTemplate.Template
