import LiveTemplate.Expr.Interactions
import LiveTemplate.Value.Maps

/-!
# Inspection

Declarations written on one line, constructor by constructor, for whoever wants to see how they are
built. References are in their short form, and texts in quotes.
-/

namespace LiveTemplate

namespace Inspection

/-- A constructor with its arguments in parentheses. -/
def applied (name : String) (args : List String) : String :=
  name ++ "(" ++ Text.commaSeparated args ++ ")"

/-- A constructor with named fields. -/
def fields (name : String) (entries : List (String × String)) : String :=
  name ++ " \x7b " ++ Text.commaSeparated (entries.map fun e => e.1 ++ ": " ++ e.2) ++ " \x7d"

/-- The constructor of an assignment. -/
def assignment : Assignment → String
  | .set => "Set"
  | .setIfEmpty => "SetIfEmpty"
  | .setOrClear => "SetOrClear"
  | .toggle => "Toggle"
  | .extend => "Extend"

variable {α : Type}

/-- A term. -/
def term (literalText : α → String) : Term (Reference α) → String
  | .relation .equals left right =>
    applied "Equals" [left.describe literalText, right.describe literalText]
  | .relation .lessThan left right =>
    applied "LessThan" [left.describe literalText, right.describe literalText]
  | .relation .greaterThan left right =>
    applied "GreaterThan" [left.describe literalText, right.describe literalText]
  | .relation .includes left right =>
    fields "Includes" [("container", left.describe literalText),
      ("item", right.describe literalText)]
  | .relation .prefixOf left right =>
    applied "PrefixOf" [left.describe literalText, right.describe literalText]
  | .changed operand window =>
    fields "Changed" [("value", operand.describe literalText),
      ("since_ms", toString window.toNat)]

mutual

/-- A predicate. -/
def predicate (literalText : α → String) : Predicate α → String
  | .const b => if b then "True" else "False"
  | .not f => applied "Not" [predicate literalText f]
  | .and fs => applied "And" [Text.listed (predicates literalText fs)]
  | .or fs => applied "Or" [Text.listed (predicates literalText fs)]
  | .term t => term literalText t

/-- A list of predicates. -/
def predicates (literalText : α → String) : List (Predicate α) → List String
  | [] => []
  | f :: rest => predicate literalText f :: predicates literalText rest

end

mutual

/-- An update. -/
def update (literalText : α → String) : Update α → String
  | .assign a target source =>
    fields (assignment a) [("target", target.describe literalText),
      ("source", source.describe literalText)]
  | .clear targets => applied "Clear" [Text.listed (targets.map (Reference.describe literalText))]
  | .sequence us => applied "Do" [Text.listed (updates literalText us)]
  | .when condition us =>
    fields "If" [("predicate", predicate literalText condition),
      ("then", Text.listed (updates literalText us)), ("otherwise", "None")]
  | .choose condition us otherwise =>
    fields "If" [("predicate", predicate literalText condition),
      ("then", Text.listed (updates literalText us)),
      ("otherwise", applied "Some" [Text.listed (updates literalText otherwise)])]
  | .switch cs => applied "Switch" [Text.listed (cases literalText cs)]

/-- A list of updates. -/
def updates (literalText : α → String) : List (Update α) → List String
  | [] => []
  | u :: rest => update literalText u :: updates literalText rest

/-- A list of cases. -/
def cases (literalText : α → String) : List (Case α) → List String
  | [] => []
  | .mk condition us :: rest =>
    fields "Case" [("predicate", predicate literalText condition),
      ("updates", Text.listed (updates literalText us))] :: cases literalText rest

end

/-- A truth. -/
def truth (b : Bool) : String := if b then "true" else "false"

/-- A value. -/
def value (p : Payload) : String := applied "Value" [p.describe]

/-- A map of values. -/
def valueMap (m : OrderedMap Payload) : String := "ValueMap" ++ m.describe id

/-- A signal. -/
def signal (b : Bool) : String := applied "BoolStream" [truth b]

/-- A subscription, by whether it has something to end. -/
def subscription (active : Bool) : String := fields "Subscription" [("active", truth active)]

/-- The global state. -/
def globals (published : Bool) (m : OrderedMap Payload) : String :=
  fields "GlobalState" [("published", truth published),
    ("values", Text.braced (m.entries.map fun e => Text.quote e.1 ++ ": " ++ value e.2))]

/-- Interactions, given what each value holds. -/
def interactions (payload : α → Payload) (i : Interactions α α) : String :=
  let text := fun a => (payload a).describe
  let actions := i.actions.map fun a =>
    fields "Action" [("target", Text.quote a.target), ("kind", Text.quote a.kind),
      ("updates", Text.listed (updates text a.updates))]
  let reactions := i.reactions.map fun r =>
    fields "Reaction" [("target", Text.quote r.target), ("kind", Text.quote r.kind),
      ("predicate", predicate text r.predicate)]
  let watches := i.watches.map fun w =>
    fields "Watch" [("kind", Text.quote w.kind),
      ("args", valueMap (w.args.map payload))]
  "Interactions \x7b " ++ Text.commaSeparated
    ["actions: " ++ Text.listed actions, "reactions: " ++ Text.listed reactions,
      "watches: " ++ Text.listed watches, ".."] ++ " \x7d"

end Inspection

end LiveTemplate
