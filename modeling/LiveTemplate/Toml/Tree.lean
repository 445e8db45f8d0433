import LiveTemplate.Toml.Value

/-!
# Tables under construction

A table of a TOML document is put together from lines that may lie far apart, and there are rules on
what a later line may add to. A header opens a table once, and may open a table that so far exists only
because it lies on the path to another one. A dotted key adds to tables that dotted keys made, and to
no others. What is written as a value is closed.
-/

namespace LiveTemplate.Toml

/-- How a table came about. -/
inductive Origin
  /-- By a header of its own, or as the whole document. -/
  | opened
  /-- On the path of a header. -/
  | passed
  /-- On the path of a dotted key. -/
  | dotted
  deriving Repr, DecidableEq

/-- What stands under a key. -/
inductive Node
  | value (v : Value)
  | table (origin : Origin) (entries : List (String × Node))
  /-- Tables under one key, each opened by a header, the latest first. -/
  | tables (latest : List (String × Node)) (earlier : List (List (String × Node)))

/-- The entries of a table. -/
abbrev Entries := List (String × Node)

/-- Puts a node under a key, in its place if the key is there. -/
def Entries.set (key : String) (n : Node) : Entries → Entries
  | [] => [(key, n)]
  | (k, m) :: rest => if k = key then (k, n) :: rest else (k, m) :: set key n rest

/-- The origin of a table that is made on the way. -/
def madeBy (byDots : Bool) : Origin := if byDots then .dotted else .passed

/-- Changes the table at the end of a path, which is made if it is not there. Of tables under one key
the latest is meant. A dotted key does not enter a table that has a header. -/
def descend (byDots : Bool) (change : Origin → Entries → Option Entries) :
    List String → Origin → Entries → Option Entries
  | [], origin, entries => change origin entries
  | key :: path, _, entries =>
    match entries.lookup key with
    | none => do
      let made ← descend byDots change path (madeBy byDots) []
      pure (Entries.set key (.table (madeBy byDots) made) entries)
    | some (.value _) => none
    | some (.table origin inner) =>
      -- A table with a header of its own takes keys below that header only.
      if byDots ∧ origin = .opened then none
      else do
        let changed ← descend byDots change path origin inner
        pure (Entries.set key (.table origin changed) entries)
    | some (.tables latest earlier) => do
      let changed ← descend byDots change path .opened latest
      pure (Entries.set key (.tables changed earlier) entries)

/-- Adds a value under a dotted key: under its last part, in the table that the parts before it lead
to. That table is made of dots exactly if there are such parts, and does not have the key yet. -/
def addValue (path : List String) (key : String) (v : Value) :
    Origin → Entries → Option Entries :=
  descend true (fun origin entries =>
    if (origin == .dotted) = path.isEmpty ∨ (entries.lookup key).isSome then none
    else some (Entries.set key (.value v) entries)) path

/-- Opens a table by a header. -/
def openTable (path : List String) (key : String) : Entries → Option Entries :=
  descend false (fun _ entries =>
    match entries.lookup key with
    | none => some (Entries.set key (.table .opened []) entries)
    | some (.table .passed inner) => some (Entries.set key (.table .opened inner) entries)
    | some _ => none) path .opened

/-- Opens one more of the tables under a key by a header. -/
def openOneMore (path : List String) (key : String) : Entries → Option Entries :=
  descend false (fun _ entries =>
    match entries.lookup key with
    | none => some (Entries.set key (.tables [] []) entries)
    | some (.tables latest earlier) =>
      some (Entries.set key (.tables [] (latest :: earlier)) entries)
    | some _ => none) path .opened

/-- Adds a value in the table that was opened last. -/
def addIn (current path : List String) (key : String) (v : Value) : Entries → Option Entries :=
  descend false (addValue path key v) current .opened

mutual

/-- The value that a node has become. -/
def Node.toValue : Node → Value
  | .value v => v
  | .table _ entries => .table (valuesOf entries)
  | .tables latest earlier => .array (tablesOf earlier ++ [.table (valuesOf latest)])

/-- The values that the nodes of a table have become. -/
def valuesOf : List (String × Node) → List (String × Value)
  | [] => []
  | (key, n) :: rest => (key, n.toValue) :: valuesOf rest

/-- The values that tables have become, the earliest first. -/
def tablesOf : List (List (String × Node)) → List Value
  | [] => []
  | entries :: rest => tablesOf rest ++ [.table (valuesOf entries)]

end

end LiveTemplate.Toml
