import LiveTemplate.Cli.AllowLists
import LiveTemplate.Cli.Arguments
import LiveTemplate.Markup.Written
import LiveTemplate.Simulation.Report
import LiveTemplate.Template.Documentation

/-!
# Running a command line

What a command line writes, and the code it ends with: zero if all is well, one if a file or a template
is not, two if the command line is not.
-/

namespace LiveTemplate.Cli

open Template

/-- What comes of a command line. -/
structure Outcome where
  code : Nat
  stdout : String
  stderr : String
  deriving Repr, DecidableEq

/-- How to call the program. -/
def usageText : String :=
  "Usage: traceviz [--output text|json] [--quiet] [-v] COMMAND\n\n" ++
    "  tree FILE                     print the element tree of a template\n" ++
    "  check FILE [--actions PAIRS] [--reactions PAIRS] [--watches KINDS] [--config FILE]\n" ++
    "                                check the interactions of a template\n" ++
    "  doc FILE                      print the interactions of a template\n" ++
    "  simulate FILE --script FILE   play a script against a template\n"

/-- The name of the program and its version. -/
def versionText : String := "traceviz 0.1.0\n"

/-- Lines with their line breaks. -/
def unlines (lines : List String) : String := String.join (lines.map (· ++ "\n"))

/-- The outcome if no command is run. -/
def Stop.outcome : Stop → Outcome
  | .usage e => ⟨2, "", "error: " ++ e.message ++ "\n"⟩
  | .help => ⟨0, usageText, ""⟩
  | .version => ⟨0, versionText, ""⟩

namespace Invocation

/-- A message for standard error. -/
def complaint (i : Invocation) (message : String) : String :=
  if i.quiet then ""
  else
    match i.style with
    | .text => message ++ "\n"
    | .json => (Json.object [("error", .string message)]).compact ++ "\n"

/-- The outcome if an input is refused. -/
def refuse (i : Invocation) (e : InputError) : Outcome := ⟨1, "", i.complaint e.message⟩

/-- The outcome if a template is refused. -/
def refuseTemplate (i : Invocation) (e : LoadError) : Outcome :=
  match i.style with
  | .json => ⟨1, "", e.toJson.pretty ++ "\n"⟩
  | .text => ⟨1, "", if i.quiet then "" else "error: " ++ e.display ++ "\n"⟩

/-- The text of a template. -/
def readTemplate (files : Files) (path : String) : Except LoadError String :=
  (files path).mapError fun reason => .template ⟨path, ⟨0, .unreadable reason.message⟩⟩

/-- The document of a template. -/
def load (files : Files) (path : String) : Except LoadError Document := do
  Document.load path (← readTemplate files path)

/-- Prints the element tree of a template. -/
def tree (i : Invocation) (files : Files) (path : String) : Outcome :=
  let parsed := do
    let source ← readTemplate files path
    (Markup.Element.parse path source).mapError LoadError.template
  match parsed with
  | .error e => i.refuseTemplate e
  | .ok root =>
    match i.style with
    | .json => ⟨0, root.toJson.pretty ++ "\n", ""⟩
    | .text => ⟨0, unlines (root.lines 0), ""⟩

/-- Prints the interactions of a template. -/
def doc (i : Invocation) (files : Files) (path : String) : Outcome :=
  match load files path with
  | .error e => i.refuseTemplate e
  | .ok d =>
    match i.style with
    | .json =>
      ⟨0, (Json.record [("file", .string path), ("interactions", .string d.documentation)]).pretty ++
        "\n", ""⟩
    | .text => ⟨0, d.documentation, ""⟩

/-- How many declarations of each sort there are, and whether they are checked. -/
def counts (d : Document) (lists : AllowLists) : List (String × Nat × Bool) :=
  [("actions", d.interactions.actions.length, lists.actions.isSome),
    ("reactions", d.interactions.reactions.length, lists.reactions.isSome),
    ("watches", d.interactions.watches.length, lists.watches.isSome)]

/-- The verdict on a template as a document. -/
def verdictJson (path : String) (d : Document) (lists : AllowLists) (problems : List Problem) :
    Json :=
  .record <|
    [("file", .string path), ("valid", .bool problems.isEmpty), ("globals", .ofNat d.globals.size),
      ("errors", .array (problems.map Problem.toJson))] ++
    (counts d lists).map fun (name, count, checked) =>
      (name, Json.record [("declared", .ofNat count), ("checked", .bool checked)])

/-- The verdict on a template as lines of text. -/
def verdictLines (path : String) (d : Document) (lists : AllowLists) (problems : List Problem) :
    List String :=
  [(if problems.isEmpty then "ok" else "FAILED") ++ ": " ++ path,
    "  globals: " ++ toString d.globals.size] ++
    (counts d lists).map fun (name, count, checked) =>
      "  " ++ name ++ ": " ++ toString count ++ " (" ++
        (if checked then "checked" else "not checked") ++ ")"

/-- Checks a template against allow-lists. -/
def checkAgainst (i : Invocation) (files : Files) (path : String) (lists : AllowLists) : Outcome :=
  match load files path with
  | .error e => i.refuseTemplate e
  | .ok d =>
    let problems := lists.problems d.interactions
    let code := if problems.isEmpty then 0 else 1
    match i.style with
    | .json => ⟨code, (verdictJson path d lists problems).pretty ++ "\n", ""⟩
    | .text =>
      ⟨code, if i.quiet then "" else unlines (verdictLines path d lists problems),
        String.join (problems.map fun p => i.complaint p.display)⟩

/-- The allow-lists of a command line and its configuration. -/
def allowLists (files : Files) (actions reactions watches config : Option String) :
    Except InputError AllowLists := do
  let given ← AllowLists.ofFlags actions reactions watches
  match config with
  | none => pure given
  | some path => pure (given.merge (← AllowLists.ofConfig files path))

/-- The script in a file. -/
def readScript (files : Files) (path : String) : Except InputError Simulation.Script := do
  let source ← readInput files .script path
  match Simulation.Script.parse? source with
  | some script => pure script
  | none => .error (.invalid .script path)

/-- Plays a script against a template. -/
def simulate (i : Invocation) (files : Files) (path scriptPath : String) : Outcome :=
  match readScript files scriptPath with
  | .error e => i.refuse e
  | .ok script =>
    match load files path with
    | .error e => i.refuseTemplate e
    | .ok d =>
      let reports := Simulation.play d script
      let code := if Simulation.failed reports then 1 else 0
      match i.style with
      | .json => ⟨code, (Simulation.reportsJson reports).pretty ++ "\n", ""⟩
      | .text => ⟨code, if i.quiet then "" else unlines (Simulation.reportLines reports), ""⟩

/-- Runs a command. -/
def run (i : Invocation) (files : Files) : Outcome :=
  match i.command with
  | .tree file => i.tree files file
  | .check file actions reactions watches config =>
    match allowLists files actions reactions watches config with
    | .error e => i.refuse e
    | .ok lists => i.checkAgainst files file lists
  | .doc file => i.doc files file
  | .simulate file script => i.simulate files file script

/-- The files that a command may read. -/
def inputs (i : Invocation) : List String :=
  match i.command with
  | .tree file => [file]
  | .check file _ _ _ config => file :: config.toList
  | .doc file => [file]
  | .simulate file script => [file, script]

end Invocation

/-- Runs a command line. -/
def run (args : List String) (files : Files) : Outcome :=
  match parseArguments args with
  | .error stop => stop.outcome
  | .ok i => i.run files

end LiveTemplate.Cli
