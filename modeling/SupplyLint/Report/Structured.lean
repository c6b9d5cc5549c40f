import SupplyLint.Scan.Outcome
import SupplyLint.Value.Json

/-! The report as JSON, with one entry for each repository and the number of all findings. -/
set_option autoImplicit false

namespace SupplyLint.Report.Structured

def optionalInt : Option Int → Json
  | none => .null
  | some n => .ofInt n

def detailsJson (details : Keyed String String) : Json :=
  .object (details.map fun detail => (detail.1, .string detail.2))

/-- A finding; the name of its step may have no JSON form. -/
def findingJson (finding : Finding) : Except Fault Json := do
  let stepName ← finding.stepName.toJson
  return .object
    [("rule_id", .string finding.rule), ("severity", .string finding.severity.text),
     ("title", .string finding.title), ("message", .string finding.message),
     ("file_path", .string finding.path), ("job", .string finding.job),
     ("job_index", optionalInt finding.jobIndex), ("step", optionalInt finding.step),
     ("step_name", stepName), ("line_number", optionalInt finding.line),
     ("details", detailsJson finding.details)]

def problemJson (problem : Problem) : Json :=
  .object
    [("kind", .string problem.kind.text), ("file_path", .string problem.path),
     ("location", .string problem.location), ("message", .string problem.message)]

def failureJson : Option Failure → Json
  | none => .null
  | some failure => .string failure.message

def outcomeJson (outcome : Outcome) : Except Fault Json := do
  let findings ← outcome.findings.mapM findingJson
  return .object
    [("repository", .string outcome.repository), ("pipelines", .ofNat outcome.pipelines),
     ("error", failureJson outcome.failure),
     ("errors", .array (outcome.problems.map problemJson)), ("findings", .array findings)]

def total (outcomes : List Outcome) : Nat :=
  outcomes.foldl (fun count outcome => count + outcome.findings.length) 0

def text (outcomes : List Outcome) : Except Fault String := do
  let repositories ← outcomes.mapM outcomeJson
  return (Json.object
    [("total", .ofNat (total outcomes)), ("repositories", .array repositories)]).text

end SupplyLint.Report.Structured
