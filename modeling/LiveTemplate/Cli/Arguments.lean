/-!
# Arguments

The words of a command line, read from the first to the last. Some options may stand before the
command as well as after it; given in both places, the later one counts. An option is given at most
once in either place. A word that begins with a dash is an option, unless it is the dash alone or stands
behind `--`.
-/

namespace LiveTemplate.Cli

/-- How results are written. -/
inductive Style
  | text
  | json
  deriving Repr, DecidableEq

/-- What is asked for. -/
inductive Command
  | tree (file : String)
  | check (file : String) (actions reactions watches config : Option String)
  | doc (file : String)
  | simulate (file script : String)
  deriving Repr, DecidableEq

/-- A command, and how its results are to be written. -/
structure Invocation where
  command : Command
  style : Style
  quiet : Bool
  deriving Repr, DecidableEq

/-- What is wrong with a command line. -/
inductive UsageError
  | unknownCommand (word : String)
  | unknownWord (word : String)
  | repeated (option : String)
  | withoutValue (option : String)
  | withValue (option : String)
  | badValue (option value : String)
  | absent (what : String)
  deriving Repr, DecidableEq

/-- The wording of a usage error. -/
def UsageError.message : UsageError → String
  | .unknownCommand word => "unrecognized subcommand '" ++ word ++ "'"
  | .unknownWord word => "unexpected argument '" ++ word ++ "' found"
  | .repeated option => "the argument '" ++ option ++ "' cannot be used multiple times"
  | .withoutValue option => "a value is required for '" ++ option ++ "' but none was supplied"
  | .withValue option => "the argument '" ++ option ++ "' takes no value"
  | .badValue option value => "invalid value '" ++ value ++ "' for '" ++ option ++ "'"
  | .absent what => "the following required arguments were not provided: " ++ what

/-- Why no command is run. -/
inductive Stop
  | usage (e : UsageError)
  /-- The usage is asked for. -/
  | help
  /-- The version is asked for. -/
  | version
  deriving Repr, DecidableEq

/-- The words of a command line before its command, or after it. -/
structure Words where
  style : Option Style
  quiet : Bool
  options : List (String × String)
  files : List String
  deriving Repr, DecidableEq

namespace Words

/-- No words. -/
def none : Words := ⟨.none, false, [], []⟩

/-- Takes an option with a value. -/
def addOption (w : Words) (option value : String) : Except Stop Words :=
  if option = "--output" then
    if w.style.isSome then .error (.usage (.repeated option))
    else if value = "text" then .ok { w with style := some .text }
    else if value = "json" then .ok { w with style := some .json }
    else .error (.usage (.badValue option value))
  else if (w.options.lookup option).isSome then .error (.usage (.repeated option))
  else if (option = "--config" ∨ option = "--script") ∧ value = "" then
    .error (.usage (.withoutValue option))
  else .ok { w with options := w.options ++ [(option, value)] }

/-- Takes a file, if there is none yet. -/
def addFile (w : Words) (file : String) : Except Stop Words :=
  if !w.files.isEmpty then .error (.usage (.unknownWord file))
  else if file = "" then .error (.usage (.withoutValue "<FILE>"))
  else .ok { w with files := [file] }

/-- Takes a file from the words behind `--`. -/
def addFiles (w : Words) (files : List String) : Except Stop Words := files.foldlM addFile w

/-- Takes an option without a value. -/
def addFlag (atStart : Bool) (w : Words) (flag : String) : Except Stop Words :=
  match flag with
  | "--quiet" =>
    if w.quiet then .error (.usage (.repeated flag)) else .ok { w with quiet := true }
  | "--verbose" => .ok w
  | "--help" => .error .help
  | "--version" => if atStart then .error .version else .error (.usage (.unknownWord flag))
  | _ => .error (.usage (.unknownWord flag))

/-- Takes the letters of a word behind its dash, each an option. -/
def addLetters (atStart : Bool) (w : Words) (word : String) : List Char → Except Stop Words
  | [] => .ok w
  | 'v' :: rest => w.addLetters atStart word rest
  | 'h' :: _ => .error .help
  | 'V' :: rest =>
    if atStart then .error .version else .error (.usage (.unknownWord (String.ofList ('V' :: rest))))
  | _ => .error (.usage (.unknownWord word))

end Words

/-- Whether a word is an option or looks like one. -/
def isDashed (word : String) : Bool := word.startsWith "-" && word != "-"

/-- The name of a long option, and the value behind an equals sign. -/
def splitOption (word : String) : String × Option String :=
  let name := word.toList.takeWhile (· != '=')
  match word.toList.dropWhile (· != '=') with
  | [] => (word, none)
  | _ :: value => (String.ofList name, some (String.ofList value))

/-- The long options without a value. -/
def flags (atStart : Bool) : List String :=
  ["--quiet", "--verbose", "--help"] ++ if atStart then ["--version"] else []

/-- Reads words up to the first that is neither an option nor the value of one, which `take` takes if
it can. `atStart` says whether the command is still to come; `valued` are the options with a value. -/
def readWords (atStart : Bool) (valued : List String) (w : Words) :
    List String → Except Stop (Words × List String)
  | [] => .ok (w, [])
  | word :: rest =>
    -- Behind two dashes every word is a file, and before the command there are no files.
    if word = "--" then
      if atStart then
        match rest with
        | [] => .error (.usage (.absent "<COMMAND>"))
        | next :: _ => .error (.usage (.unknownWord next))
      else (w.addFiles rest).map fun w' => (w', [])
    else if word.startsWith "--" then
      let (name, attached) := splitOption word
      if valued.contains name then
        match attached with
        | some value => do readWords atStart valued (← w.addOption name value) rest
        | none =>
          match rest with
          | [] => .error (.usage (.withoutValue name))
          | value :: more =>
            -- A word that looks like an option is no value.
            if isDashed value then .error (.usage (.withoutValue name))
            else do readWords atStart valued (← w.addOption name value) more
      else if (flags atStart).contains name && attached.isSome then
        .error (.usage (.withValue name))
      else do readWords atStart valued (← w.addFlag atStart name) rest
    else if isDashed word then do
      readWords atStart valued (← w.addLetters atStart word (word.toList.drop 1)) rest
    else if atStart then .ok (w, word :: rest)
    else do readWords atStart valued (← w.addFile word) rest

/-- The names of the commands. -/
def commandNames : List String := ["tree", "check", "doc", "simulate"]

/-- The options with a value that a command has. -/
def optionsOf (name : String) : List String :=
  match name with
  | "check" => ["--output", "--actions", "--reactions", "--watches", "--config"]
  | "simulate" => ["--output", "--script"]
  | _ => ["--output"]

/-- The command that words after its name make up. -/
def commandOf (name : String) (w : Words) : Except Stop Command :=
  match w.files with
  | [] => .error (.usage (.absent "<FILE>"))
  | file :: _ =>
    let option := fun key => w.options.lookup key
    match name with
    | "tree" => .ok (.tree file)
    | "check" =>
      .ok (.check file (option "--actions") (option "--reactions") (option "--watches")
        (option "--config"))
    | "doc" => .ok (.doc file)
    | _ =>
      match option "--script" with
      | some script => .ok (.simulate file script)
      | none => .error (.usage (.absent "--script"))

/-- What comes of asking for the usage of a command. -/
def helpFor (words : List String) : Stop :=
  match words with
  | [] => .help
  | [name] => if ("help" :: commandNames).contains name then .help else .usage (.unknownCommand name)
  | name :: next :: _ =>
    if ("help" :: commandNames).contains name then .usage (.unknownCommand next)
    else .usage (.unknownCommand name)

/-- What a command line asks for. -/
def parseArguments (args : List String) : Except Stop Invocation := do
  let (before, rest) ← readWords true ["--output"] .none args
  match rest with
  | [] => .error (.usage (.absent "<COMMAND>"))
  | "help" :: words => .error (helpFor words)
  | name :: words =>
    if commandNames.contains name then
      let (after, _) ← readWords false (optionsOf name) .none words
      let command ← commandOf name after
      pure ⟨command, (after.style.or before.style).getD .text, before.quiet || after.quiet⟩
    else .error (.usage (.unknownCommand name))

end LiveTemplate.Cli
