import LiveTemplate.Markup.Library

/-!
# Files

Where the command line finds what it is asked to read. `Directory` holds files in memory and finds
them as a file system would: a part `.` of a path stays where it is, `..` goes back, and every part but
the last must be a directory. Outside of it there are only the directories on the way up.
-/

namespace LiveTemplate.Cli

/-- Why a file cannot be read. -/
inductive ReadFailure
  | missing
  | notADirectory
  | aDirectory
  /-- The bytes are no text. -/
  | notText
  | other (message : String)
  deriving Repr, DecidableEq

/-- The wording of a failure. -/
def ReadFailure.message : ReadFailure → String
  | .missing => "No such file or directory (os error 2)"
  | .notADirectory => "Not a directory (os error 20)"
  | .aDirectory => "Is a directory (os error 21)"
  | .notText => "stream did not contain valid UTF-8"
  | .other message => message

/-- A way to read files by path. -/
abbrev Files := String → Except ReadFailure String

/-- The text of some bytes. -/
def decodeText (bytes : ByteArray) : Except ReadFailure String :=
  match String.fromUTF8? bytes with
  | some s => .ok s
  | none => .error .notText

/-- Files under their paths, each path as its parts. -/
structure Directory where
  files : List (List String × ByteArray)

namespace Directory

/-- The parts of a path in which something stands. -/
def partsOf (path : String) : List String :=
  (Markup.splitSlashes path.toList).filterMap fun part =>
    if part.isEmpty then none else some (String.ofList part)

/-- The directory of some files; of two files at one place the later stays. -/
def ofList (files : List (String × ByteArray)) : Directory :=
  ⟨files.reverse.map fun f => (partsOf f.1, f.2)⟩

/-- Whether there is a file at a place. -/
def hasFile (d : Directory) (place : List String) : Bool := d.files.any fun f => f.1 == place

/-- Whether there is a directory at a place: at the top, and wherever something stands below. -/
def hasDirectory (d : Directory) (place : List String) : Bool :=
  place.isEmpty || d.files.any fun f => place.isPrefixOf f.1 && place.length < f.1.length

/-- What is found outside of a directory. -/
def outside (parts : List String) : ReadFailure :=
  if parts.all fun part => part = "." || part = ".." then .aDirectory else .missing

/-- The place that a path leads to from another place. -/
def walk (d : Directory) (place : List String) : List String → Except ReadFailure (List String)
  | [] => .ok place
  | part :: rest =>
    if d.hasDirectory place then
      if part = "." then d.walk place rest
      else if part = ".." then
        if place.isEmpty then .error (outside rest) else d.walk place.dropLast rest
      else d.walk (place ++ [part]) rest
    else if d.hasFile place then .error .notADirectory
    else .error .missing

/-- Reads the file at a path. -/
def read (d : Directory) : Files := fun path => do
  if path.startsWith "/" then .error (outside (partsOf path))
  else
    -- A final slash asks for a directory.
    let ending := if path.endsWith "/" then ["."] else []
    let place ← d.walk [] (partsOf path ++ ending)
    match d.files.lookup place with
    | some bytes => decodeText bytes
    | none => if d.hasDirectory place then .error .aDirectory else .error .missing

end Directory

end LiveTemplate.Cli
