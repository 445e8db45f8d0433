import LiveTemplate.Markup.Parser
import LiveTemplate.Template.Expression

/-!
# Documents

What a template means: its global state, key by key, and its interactions. The global state is read
first, so that every reference to a global can be checked.

A source text that does not denote a document is either no element at all or an element that is
misused; `LoadError` keeps the two apart.
-/

namespace LiveTemplate.Template

open Markup

/-- A template that has been given its meaning. -/
structure Document where
  globals : OrderedMap Payload
  interactions : Interactions Payload Watched

namespace Scope

/-- Adds a declared global to those before it. -/
def addGlobal (s : Scope) (globals : OrderedMap Payload) (e : Element) :
    Except Problem (OrderedMap Payload) := do
  let (key, value) ← s.entry s.literal e
  if globals.has key then s.refuse e (.repeatedGlobal key) else pure (globals.insert key value)

/-- The globals declared in an element, in maps or one by one. -/
def globalState (s : Scope) (e : Element) : Except Problem (OrderedMap Payload) := do
  let items ← s.elements e
  items.foldlM (fun globals item =>
    match item.name with
    | "value-map" => do
      let entries ← s.elements item
      entries.foldlM s.addGlobal globals
    | "value" => s.addGlobal globals item
    | _ => s.refuse item .notAGlobalEntry) .empty

/-- An action. -/
def action (s : Scope) (e : Element) : Except Problem (Action Payload) := do
  let target ← s.attr e "target"
  let kind ← s.attr e "type"
  let _ ← s.elements e
  let us ← s.updates e.children
  pure ⟨target, kind, us⟩

/-- A reaction. -/
def reaction (s : Scope) (e : Element) : Except Problem (Reaction Payload) := do
  let target ← s.attr e "target"
  let kind ← s.attr e "type"
  match e.children with
  | [.element child] => (s.predicate child).map fun p => ⟨target, kind, p⟩
  | _ => s.wrongCount e 1

/-- A watch. -/
def watch (s : Scope) (e : Element) : Except Problem (Watch Watched) := do
  let kind ← s.attr e "type"
  match e.children with
  | [.element child] => (s.valueMap child).map fun args => ⟨kind, args⟩
  | _ => s.wrongCount e 1

/-- The interactions declared in an element, no binding twice. -/
def interactions (s : Scope) (e : Element) : Except Problem (Interactions Payload Watched) := do
  let items ← s.elements e
  let declared ← items.foldlM (fun (i : Interactions Payload Watched) item =>
    match item.name with
    | "action" => (s.action item).map fun a => { i with actions := i.actions ++ [a] }
    | "reaction" => (s.reaction item).map fun r => { i with reactions := i.reactions ++ [r] }
    | "watch" => (s.watch item).map fun w => { i with watches := i.watches ++ [w] }
    | _ => s.refuse item .notADeclaration) .empty
  match declared.repeated? with
  | some (what, name) => .error (.repeatedInTemplate s.file e.line what name)
  | none => pure declared

/-- The sections of a template: its global state and its interactions, each at most once. -/
def sections (s : Scope) (e : Element) : Except Problem (Option Element × Option Element) := do
  let items ← s.elements e
  items.foldlM (fun (found : Option Element × Option Element) item =>
    match item.name with
    | "global-state" =>
      if found.1.isSome then s.refuse item .repeatedSection else pure (some item, found.2)
    | "interactions" =>
      if found.2.isSome then s.refuse item .repeatedSection else pure (found.1, some item)
    | _ => s.refuse item .notASection) (none, none)

end Scope

/-- The document that an element denotes: a whole template, or interactions without state. -/
def Document.ofElement (file : String) (root : Element) : Except Problem Document := do
  let start : Scope := ⟨file, []⟩
  let (state, interactions) ← match root.name with
    | "interactions" => pure (none, some root)
    | "traceviz" => start.sections root
    | _ => start.refuse root .notARoot
  -- The state is read before the interactions, wherever it stands.
  let globals ← match state with
    | some e => start.globalState e
    | none => pure .empty
  match interactions with
  | some e => ((⟨file, globals.keys⟩ : Scope).interactions e).map fun i => ⟨globals, i⟩
  | none => pure ⟨globals, .empty⟩

/-- Why a source text denotes no document. -/
inductive LoadError
  | template (e : TemplateError)
  | configuration (p : Problem)

/-- A failure as it is shown. -/
def LoadError.display : LoadError → String
  | template e => e.display
  | configuration p => p.display

/-- A failure as a document of its own. -/
def LoadError.toJson : LoadError → Json
  | template e =>
    .record [("file", .string e.file), ("line", .ofNat e.line), ("message", .string e.message)]
  | configuration p => p.toJson

/-- The document that a source text denotes. -/
def Document.load (file source : String) : Except LoadError Document :=
  match Element.parse file source with
  | .error e => .error (.template e)
  | .ok root => (Document.ofElement file root).mapError .configuration

end LiveTemplate.Template
