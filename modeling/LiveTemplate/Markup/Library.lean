import LiveTemplate.Markup.Parser

/-!
# Templates by path

A library holds templates under paths. Two paths are the same when they have the same parts: a
repeated or final slash does not count, nor does a part `.` behind another part.
-/

namespace LiveTemplate.Markup

/-- A path as its parts. -/
structure PathParts where
  rooted : Bool
  parts : List String
  deriving Repr, DecidableEq

/-- Cuts a text at every slash. -/
def splitSlashes (s : List Char) : List (List Char) :=
  s.foldr (fun c acc => match acc with
    | [] => [[c]]
    | part :: rest => if c = '/' then [] :: part :: rest else (c :: part) :: rest) [[]]

/-- The parts of a path. A part `.` counts only in front of a path that is not rooted. -/
def PathParts.ofString (path : String) : PathParts :=
  let rooted := path.toList.head? == some '/'
  let pieces := splitSlashes path.toList
  let leadingDot := !rooted && pieces.head? == some ['.']
  let proper := pieces.filter fun piece => !piece.isEmpty && piece != ['.']
  ⟨rooted, ((if leadingDot then [['.']] else []) ++ proper).map String.ofList⟩

/-- Templates under their paths, the latest first. -/
structure Library where
  templates : List (PathParts × String)

namespace Library

/-- The library without templates. -/
def empty : Library := ⟨[]⟩

/-- Puts a template under a path, in the place of any other there. -/
def insert (library : Library) (path source : String) : Library :=
  ⟨(PathParts.ofString path, source) :: library.templates⟩

/-- The template under a path. -/
def find? (library : Library) (path : String) : Option String :=
  library.templates.lookup (PathParts.ofString path)

/-- The element that the template under a path denotes. A path without a template is refused at line
zero. -/
def load (library : Library) (path : String) : Except TemplateError Element :=
  match library.find? path with
  | some source => Element.parse path source
  | none => .error ⟨path, ⟨0, .unreadable ("file not found: " ++ path)⟩⟩

end Library

end LiveTemplate.Markup
