import LiveTemplate.Expr.Interactions

/-!
# Documentation

Predicates, updates and interactions as outlines: a heading, and what belongs to it one level deeper.
A writer puts an outline down one heading to a line, indented by two blanks for each level.
-/

namespace LiveTemplate

/-- A text that is written line by line, and the level of the next line. -/
structure Writer where
  text : String
  depth : Nat

namespace Writer

/-- Nothing is written yet. -/
def start : Writer := ⟨"", 0⟩

/-- Writes a line at the present level. -/
def line (w : Writer) (s : String) : Writer :=
  { w with text := w.text ++ String.ofList (List.replicate (2 * w.depth) ' ') ++ s ++ "\n" }

/-- Writes a heading, and one level deeper what `body` writes. -/
def nested (w : Writer) (heading : String) (body : Writer → Writer) : Writer :=
  let below := w.line heading
  let behind := body { below with depth := below.depth + 1 }
  { behind with depth := behind.depth - 1 }

end Writer

/-- A heading and what belongs to it. -/
inductive Outline
  | node (heading : String) (parts : List Outline)

namespace Outline

/-- A heading with nothing below it. -/
def leaf (heading : String) : Outline := node heading []

mutual

/-- Writes an outline. -/
def write : Outline → Writer → Writer
  | node heading parts, w => w.nested heading (writeAll parts)

/-- Writes several outlines, one below the other. -/
def writeAll : List Outline → Writer → Writer
  | [], w => w
  | o :: rest, w => writeAll rest (o.write w)

end

/-- An outline as text. -/
def render (o : Outline) : String := (o.write .start).text

end Outline

/-- A reference in an outline. -/
def Reference.outline {α : Type} (literalText : α → String) (r : Reference α) : Outline :=
  .leaf (r.describe literalText)

/-- A term in an outline: its name over its operands. -/
def Term.outline {α : Type} (literalText : α → String) : Term (Reference α) → Outline
  | .relation r left right =>
    .node r.name [left.outline literalText, right.outline literalText]
  | .changed operand window =>
    let heading :=
      if window = 0 then "changed" else "changed since " ++ toString window.toNat ++ "ms"
    .node heading [operand.outline literalText]

namespace Formula

variable {α : Type}

mutual

/-- A predicate in an outline. -/
def outline (literalText : α → String) : Predicate α → Outline
  | .const b => .leaf (if b then "true" else "false")
  | .not f => .node "not" [outline literalText f]
  | .and fs => .node "and" (outlineAll literalText fs)
  | .or fs => .node "or" (outlineAll literalText fs)
  | .term t => t.outline literalText

/-- A list of predicates in an outline. -/
def outlineAll (literalText : α → String) : List (Predicate α) → List Outline
  | [] => []
  | f :: rest => outline literalText f :: outlineAll literalText rest

end

end Formula

namespace Update

variable {α : Type}

mutual

/-- An update in an outline. -/
def outline (literalText : α → String) : Update α → Outline
  | .assign a target source =>
    .node a.name [target.outline literalText, source.outline literalText]
  | .clear targets => .node "clear" (targets.map (Reference.outline literalText))
  | .sequence updates => .node "do" (outlineAll literalText updates)
  | .when condition updates =>
    .node "if" [condition.outline literalText, .node "then" (outlineAll literalText updates)]
  | .choose condition updates otherwise =>
    .node "if" [condition.outline literalText, .node "then" (outlineAll literalText updates),
      .node "else" (outlineAll literalText otherwise)]
  | .switch cases => .node "switch" (outlineCases literalText cases)

/-- A list of updates in an outline. -/
def outlineAll (literalText : α → String) : List (Update α) → List Outline
  | [] => []
  | u :: rest => u.outline literalText :: outlineAll literalText rest

/-- A list of cases in an outline. -/
def outlineCases (literalText : α → String) : List (Case α) → List Outline
  | [] => []
  | .mk condition updates :: rest =>
    .node "case" (condition.outline literalText :: outlineAll literalText updates) ::
      outlineCases literalText rest

end

end Update

namespace Interactions

/-- An argument of a watch in an outline: its key, its kind and what it holds. -/
def argumentOutline (entry : String × Payload) : Outline :=
  .leaf ("arg " ++ entry.1 ++ ": " ++ entry.2.kind.name ++ " = " ++ entry.2.display)

/-- Interactions in an outline, given what each literal and each watched value holds. -/
def outline {α β : Type} (literal : α → Payload) (watched : β → Payload)
    (i : Interactions α β) : Outline :=
  let text := fun a => (literal a).describe
  .node "interactions" <|
    (i.actions.map fun a =>
      .node ("action " ++ a.target ++ "/" ++ a.kind) (Update.outlineAll text a.updates)) ++
    (i.reactions.map fun r =>
      .node ("reaction " ++ r.target ++ "/" ++ r.kind) [Formula.outline text r.predicate]) ++
    (i.watches.map fun w =>
      .node ("watch " ++ w.kind) ((w.args.map watched).entries.map argumentOutline))

end Interactions

end LiveTemplate
