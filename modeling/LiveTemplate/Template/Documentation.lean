import LiveTemplate.Expr.Documentation
import LiveTemplate.Template.Document

/-!
# Documentation of a document

The interactions that a template declares, as text. A watched global is shown with what it holds at
first.
-/

namespace LiveTemplate.Template

/-- What a watch sees at first. -/
def Watched.payload (globals : OrderedMap Payload) : Watched → Payload
  | .own p => p
  | .shared key => (globals.get? key).getD .empty

/-- The interactions of a document, line by line. -/
def Document.documentation (d : Document) : String :=
  (Interactions.outline id (Watched.payload d.globals) d.interactions).render

end LiveTemplate.Template
