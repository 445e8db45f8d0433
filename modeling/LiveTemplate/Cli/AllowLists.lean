import LiveTemplate.Cli.Files
import LiveTemplate.Expr.Interactions
import LiveTemplate.Text.Blank
import LiveTemplate.Toml.Reader

/-!
# Allow-lists

What a host supports: pairs of a target and a kind for actions and for reactions, and kinds for
watches. A list that nobody gives is not checked; lists from the command line and from a configuration
are put together.
-/

namespace LiveTemplate.Cli

/-- The lists that are given. -/
structure AllowLists where
  actions : Option (List (String × String))
  reactions : Option (List (String × String))
  watches : Option (List String)
  deriving Repr, DecidableEq

/-- What an input file is for. -/
inductive Purpose
  | script
  | config
  deriving Repr, DecidableEq

/-- The name of a purpose. -/
def Purpose.name : Purpose → String
  | .script => "script"
  | .config => "config"

/-- Why a command fails before it looks at a template. -/
inductive InputError
  | badPair (item : String)
  | unreadable (purpose : Purpose) (path : String) (reason : ReadFailure)
  | invalid (purpose : Purpose) (path : String)
  deriving Repr, DecidableEq

/-- The wording of an input error. -/
def InputError.message : InputError → String
  | .badPair item => "invalid pair '" ++ item ++ "', expected target:type"
  | .unreadable purpose path reason =>
    "cannot read " ++ purpose.name ++ " '" ++ path ++ "': " ++ reason.message
  | .invalid purpose path =>
    "invalid " ++ purpose.name ++ " '" ++ path ++ "': not a valid " ++ purpose.name

/-- Reads an input file. -/
def readInput (files : Files) (purpose : Purpose) (path : String) : Except InputError String :=
  (files path).mapError (.unreadable purpose path)

/-- The pair that an item denotes: two names with a colon between them, the first colon if there are
several. -/
def pairOf (item : String) : Except InputError (String × String) :=
  let target := item.toList.takeWhile (· != ':')
  match item.toList.dropWhile (· != ':') with
  | _ :: kind =>
    if target.isEmpty || kind.isEmpty then .error (.badPair item)
    else .ok (String.ofList target, String.ofList kind)
  | [] => .error (.badPair item)

/-- The pairs that several items denote. -/
def pairsOf (items : List String) : Except InputError (List (String × String)) := items.mapM pairOf

/-- Cuts a text at every comma. -/
def splitCommas (s : List Char) : List (List Char) :=
  s.foldr (fun c acc => match acc with
    | [] => [[c]]
    | piece :: rest => if c = ',' then [] :: piece :: rest else (c :: piece) :: rest) [[]]

/-- The items of a list with commas between them; blanks around an item do not count, nor do empty
items. -/
def itemsOf (s : String) : List String :=
  (splitCommas s.toList).filterMap fun piece =>
    let item := Text.trim piece
    if item.isEmpty then none else some (String.ofList item)

namespace AllowLists

/-- The lists of texts, before pairs are looked for in them. -/
structure Raw where
  actions : Option (List String)
  reactions : Option (List String)
  watches : Option (List String)

/-- No lists. -/
def Raw.none : Raw := ⟨.none, .none, .none⟩

/-- The lists with the pairs in them. -/
def ofRaw (r : Raw) : Except InputError AllowLists := do
  let actions ← r.actions.mapM pairsOf
  let reactions ← r.reactions.mapM pairsOf
  pure ⟨actions, reactions, r.watches⟩

/-- The lists that a command line gives. -/
def ofFlags (actions reactions watches : Option String) : Except InputError AllowLists :=
  ofRaw ⟨actions.map itemsOf, reactions.map itemsOf, watches.map itemsOf⟩

/-- The texts in an array of texts. -/
def texts? (v : Toml.Value) : Option (List String) := do (← v.items?).mapM Toml.Value.text?

/-- The list under a key of a table; it may be left out. -/
def list? (entries : List (String × Toml.Value)) (key : String) :
    Option (Option (List String)) :=
  match entries.lookup key with
  | none => some none
  | some v => (texts? v).map some

/-- The lists in the table `supported` of a configuration, which may be left out. It may also be an
array of the three lists; of a moment nothing is known. -/
def raw? (entries : List (String × Toml.Value)) : Option Raw :=
  match entries.lookup "supported" with
  | none => some .none
  | some (.table lists) => do
    pure ⟨← list? lists "actions", ← list? lists "reactions", ← list? lists "watches"⟩
  | some (.array (actions :: reactions :: watches :: _)) => do
    pure ⟨some (← texts? actions), some (← texts? reactions), some (← texts? watches)⟩
  | some .moment => some .none
  | some _ => none

/-- The lists that a configuration gives. -/
def ofConfig (files : Files) (path : String) : Except InputError AllowLists := do
  let source ← readInput files .config path
  match (Toml.parse? source).bind raw? with
  | some r => ofRaw r
  | none => .error (.invalid .config path)

/-- Two lists together, if both are given. -/
def join {α : Type} : Option (List α) → Option (List α) → Option (List α)
  | some a, some b => some (a ++ b)
  | some a, none => some a
  | none, other => other

/-- The lists of two sources together. -/
def merge (a b : AllowLists) : AllowLists :=
  ⟨join a.actions b.actions, join a.reactions b.reactions, join a.watches b.watches⟩

/-- The problem that a check ended with, if it was made and failed. -/
def verdict {α : Type} (check : α → Except Problem Unit) : Option α → List Problem
  | none => []
  | some supported =>
    match check supported with
    | .ok _ => []
    | .error p => [p]

/-- The problems of interactions with the lists, at most one for each list. -/
def problems {α β : Type} (lists : AllowLists) (i : Interactions α β) : List Problem :=
  verdict i.checkActions lists.actions ++ verdict i.checkReactions lists.reactions ++
    verdict i.checkWatches lists.watches

end AllowLists

end LiveTemplate.Cli
