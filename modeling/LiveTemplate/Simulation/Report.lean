import LiveTemplate.Json.Writer
import LiveTemplate.Simulation.Play
import LiveTemplate.Wire.StringTable

/-!
# Reports of a simulation

What is reported of the steps of a script, as lines of text or as a document. Steps are counted from
one.
-/

namespace LiveTemplate.Simulation

/-- A truth in a report. -/
def truthText (b : Bool) : String := if b then "true" else "false"

namespace Report

/-- The lines of the report of step `n`. -/
def lines (n : Nat) (r : Report) : List String :=
  ("step " ++ toString n ++ ": " ++ r.label) ::
    (r.answer.toList.map fun b => "  matched: " ++ truthText b) ++
    (r.problems.map fun p => "  error: " ++ p.display) ++
    r.globals.entries.map fun e => "  " ++ e.1 ++ ": " ++ e.2.kind.name ++ " = " ++ e.2.display

/-- The report of step `n` as a document. -/
def toJson (n : Nat) (r : Report) : Json :=
  .record [("step", .ofNat n), ("action", .string r.label),
    ("matched", (r.answer.map Json.bool).getD .null),
    ("errors", .array (r.problems.map Problem.toJson)),
    ("globals", .record (r.globals.entries.map fun e => (e.1, e.2.toTagged.toJson)))]

end Report

/-- Reports with the numbers of their steps. -/
def numbered (reports : List Report) : List (Nat × Report) :=
  reports.zipIdx.map fun e => (e.2 + 1, e.1)

/-- Reports as lines of text. -/
def reportLines (reports : List Report) : List String :=
  (numbered reports).flatMap fun e => e.2.lines e.1

/-- Reports as a document. -/
def reportsJson (reports : List Report) : Json :=
  .record [("steps", .array ((numbered reports).map fun e => e.2.toJson e.1))]

/-- Whether a problem was reported. -/
def failed (reports : List Report) : Bool := reports.any fun r => !r.problems.isEmpty

end LiveTemplate.Simulation
