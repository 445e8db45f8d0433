import LiveTemplate.Wire.Basic

/-!
# Problems

What can go wrong once a template has been read: while its elements are given a meaning, or while
values, predicates and updates are at work. A problem knows its cause; from the cause follow how
severe it is, which part of the system speaks, and in what words.
-/

namespace LiveTemplate

/-- How much of the system a problem takes down. -/
inductive Severity
  /-- What declares the broken part does not work; the rest does. -/
  | error
  /-- Nothing can be built. -/
  | fatal
  deriving Repr, DecidableEq

/-- The name of a severity. -/
def Severity.name : Severity → String
  | .error => "ERROR"
  | .fatal => "FATAL"

/-- What may be declared in the interactions of a template. -/
inductive Declaration
  | action
  | reaction
  | watch
  deriving Repr, DecidableEq

/-- The name of a declaration. -/
def Declaration.name : Declaration → String
  | .action => "action"
  | .reaction => "reaction"
  | .watch => "watch"

/-- Names in quotes, separated by commas. -/
def quotedNames (names : List String) : String :=
  Text.commaSeparated (names.map fun s => "'" ++ s ++ "'")

/-- What is wrong with an element of a template. -/
inductive Misuse
  | missingAttribute (name : String)
  | unexpectedText (text : String)
  | wrongCount (expected got : Nat)
  | tooFewChildren (name : String) (got : Nat)
  | notARoot
  | notASection
  | repeatedSection
  | notADeclaration
  | notAGlobalEntry
  | notAValueMap
  | notAnEntry
  | notAValue
  | notAPredicate
  | notAnUpdate
  | notThen
  | notElse
  | notCase
  | noTarget
  | noCase
  | ifShape (got : Nat)
  | notTextOnly
  | unreadableText (text : String)
  | unreadableNumber (attr : String)
  | unreadableDelay (raw : String)
  | notAString
  | notAnInt
  | unknownGlobal (key : String)
  | repeatedGlobal (key : String)
  | repeatedKey (key : String)
  deriving Repr, DecidableEq

/-- The wording of a misuse. -/
def Misuse.message : Misuse → String
  | .missingAttribute name => "missing attribute '" ++ name ++ "'"
  | .unexpectedText text => "unexpected text '" ++ text ++ "'"
  | .wrongCount expected got =>
    "expected " ++ toString expected ++ " child element(s), got " ++ toString got
  | .tooFewChildren name got =>
    "<" ++ name ++ "> needs at least two children, got " ++ toString got
  | .notARoot => "root must be <traceviz> or <interactions>"
  | .notASection => "expected <global-state> or <interactions>"
  | .repeatedSection => "may appear only once"
  | .notADeclaration => "expected <action>, <reaction> or <watch>"
  | .notAGlobalEntry => "expected <value-map> or <value>"
  | .notAValueMap => "expected <value-map>"
  | .notAnEntry => "expected <value key=...>"
  | .notAValue => "expected a value"
  | .notAPredicate => "expected a predicate"
  | .notAnUpdate => "expected an update"
  | .notThen => "expected <then>"
  | .notElse => "expected <else>"
  | .notCase => "expected <case>"
  | .noTarget => "expected at least one target"
  | .noCase => "expected at least one <case>"
  | .ifShape got =>
    "expected a predicate, <then> and optional <else>, got " ++ toString got ++ " child element(s)"
  | .notTextOnly => "expected text content only"
  | .unreadableText text => "cannot parse '" ++ text ++ "'"
  | .unreadableNumber attr => "attribute '" ++ attr ++ "' is not a number"
  | .unreadableDelay raw => "since-ms '" ++ raw ++ "' is not a duration in ms"
  | .notAString => "expected <string>"
  | .notAnInt => "expected <int>"
  | .unknownGlobal key => "unknown global '" ++ key ++ "'"
  | .repeatedGlobal key => "global value '" ++ key ++ "' is declared more than once"
  | .repeatedKey key => "duplicate key '" ++ key ++ "'"

/-- Something that went wrong. -/
inductive Problem
  /-- An element of a template does not mean anything. -/
  | misused (file : String) (line : Nat) (element : String) (misuse : Misuse)
  /-- The interactions at a line of a template declare something twice. -/
  | repeatedInTemplate (file : String) (line : Nat) (what : Declaration) (name : String)
  | kindMismatch (given held : Kind)
  | misfit (misfit : Wire.Misfit)
  | missingKey (severity : Severity) (key : String) (keys : List String)
  | otherKind (key : String) (held : Kind) (expected : String)
  | kindClash (key : String) (first second : Kind)
  | unterminatedFormat (format : String)
  | frozenGlobals (key : String)
  | repeatedGlobal (key : String)
  | unknownGlobal (key : String)
  | tooFewChildren (name : String) (got : Nat)
  | unresolvedOperand (term reference locals : String)
  | unresolvedTarget (update reference : String)
  | cannotFold (update : String) (source target : Kind)
  | repeatedDeclaration (what : Declaration) (name : String)
  | unansweredWatches (names : List String)
  | unsupported (what : Declaration) (offenders supported : List String)
  | cannotAssign (given : Kind) (key : String) (held : Kind)
  /-- A problem that was reported from outside. -/
  | reported (severity : Severity) (source message : String)
  deriving Repr, DecidableEq

namespace Problem

/-- How severe a problem is. -/
def severity : Problem → Severity
  | misused .. => .fatal
  | repeatedInTemplate .. => .fatal
  | kindMismatch .. => .error
  | misfit .. => .error
  | missingKey severity _ _ => severity
  | otherKind .. => .fatal
  | kindClash .. => .fatal
  | unterminatedFormat .. => .error
  | frozenGlobals .. => .fatal
  | repeatedGlobal .. => .fatal
  | unknownGlobal .. => .fatal
  | tooFewChildren .. => .fatal
  | unresolvedOperand .. => .error
  | unresolvedTarget .. => .fatal
  | cannotFold .. => .error
  | repeatedDeclaration .. => .fatal
  | unansweredWatches .. => .error
  | unsupported .. => .error
  | cannotAssign .. => .error
  | reported severity _ _ => severity

/-- The part of the system that speaks. -/
def source : Problem → String
  | misused .. => "template"
  | repeatedInTemplate .. => "template"
  | kindMismatch .. => "value"
  | misfit .. => "wire"
  | missingKey .. => "value_map"
  | otherKind .. => "value_map"
  | kindClash .. => "value_map"
  | unterminatedFormat .. => "value_map"
  | frozenGlobals .. => "global_state"
  | repeatedGlobal .. => "global_state"
  | unknownGlobal .. => "global_state"
  | tooFewChildren .. => "predicate"
  | unresolvedOperand .. => "predicate"
  | unresolvedTarget .. => "update"
  | cannotFold .. => "update"
  | repeatedDeclaration .. => "interactions"
  | unansweredWatches .. => "interactions"
  | unsupported .. => "interactions"
  | cannotAssign .. => "simulate"
  | reported _ source _ => source

/-- The wording of a problem. -/
def message : Problem → String
  | misused file line element misuse =>
    file ++ ":" ++ toString line ++ ": <" ++ element ++ ">: " ++ misuse.message
  | repeatedInTemplate file line what name =>
    file ++ ":" ++ toString line ++ ": " ++ what.name ++ " '" ++ name ++
      "' is declared more than once"
  | kindMismatch given held =>
    "cannot assign " ++ given.name ++ " to a " ++ held.name ++ " value"
  | misfit m => m.message
  | missingKey _ key keys =>
    "key '" ++ key ++ "' not found in value map " ++ Text.braced keys
  | otherKind key held expected =>
    "key '" ++ key ++ "' holds a " ++ held.name ++ " value, expected " ++ expected
  | kindClash key first second =>
    "key '" ++ key ++ "' is " ++ first.name ++ " in one map and " ++ second.name ++ " in another"
  | unterminatedFormat format => "unterminated '$(' in format string '" ++ format ++ "'"
  | frozenGlobals key => "cannot add '" ++ key ++ "' after global state is published"
  | repeatedGlobal key => "global value '" ++ key ++ "' is declared more than once"
  | unknownGlobal key => "no global value named '" ++ key ++ "'"
  | tooFewChildren name got => "<" ++ name ++ "> needs at least two children, got " ++ toString got
  | unresolvedOperand term reference locals =>
    "<" ++ term ++ ">: " ++ reference ++ " does not resolve in local map " ++ locals
  | unresolvedTarget update reference =>
    "<" ++ update ++ ">: target " ++ reference ++ " does not resolve"
  | cannotFold update source target =>
    "<" ++ update ++ ">: cannot fold " ++ source.name ++ " into " ++ target.name
  | repeatedDeclaration what name => what.name ++ " '" ++ name ++ "' is declared more than once"
  | unansweredWatches names => "no callback for watch " ++ quotedNames names
  | unsupported what offenders supported =>
    "unsupported " ++ what.name ++ " " ++ quotedNames offenders ++ " (supported: " ++
      quotedNames supported ++ ")"
  | cannotAssign given key held =>
    "cannot assign " ++ given.name ++ " to global '" ++ key ++ "' of type " ++ held.name
  | reported _ _ message => message

/-- Whether nothing can be built after a problem. -/
def isFatal (p : Problem) : Bool := p.severity = .fatal

/-- A problem as it is shown. -/
def display (p : Problem) : String :=
  p.severity.name ++ " [" ++ p.source ++ "] " ++ p.message

/-- A problem as a document. -/
def toJson (p : Problem) : Json :=
  .record [("message", .string p.message), ("source", .string p.source),
    ("severity", .string p.severity.name)]

end Problem

end LiveTemplate
