import SupplyLint.Scan.Outcome
import SupplyLint.Text.Code
import SupplyLint.Text.Split

/-! The report for a terminal, with colours. -/
set_option autoImplicit false

namespace SupplyLint.Report.Console

open SupplyLint.Text

def style (code : String) : String :=
  "\x1b[" ++ code ++ "m"

def bold : String := style "1"

def reset : String := style "0"

def colour : Severity → String
  | .critical => style "91"
  | .high => style "31"
  | .medium => style "33"
  | .low => style "36"
  | .note => style "2"

def emphasized (text : String) : String :=
  bold ++ text ++ reset

/-- The name of a severity in capitals, padded to the longest of them. -/
def label : Severity → String
  | .critical => "CRITICAL"
  | .high => "HIGH    "
  | .medium => "MEDIUM  "
  | .low => "LOW     "
  | .note => "NOTE    "

def badge (severity : Severity) : String :=
  colour severity ++ emphasized ("[" ++ label severity ++ "]")

def repeated (c : Char) (count : Nat) : String :=
  String.ofList (List.replicate count c)

def location (finding : Finding) : String :=
  match finding.line with
  | none => finding.path
  | some line => if line = 0 then finding.path else finding.path ++ ":" ++ toString line

def countLines (findings : List Finding) : List String :=
  Severity.all.filterMap fun severity =>
    match findings.countP (·.severity = severity) with
    | 0 => none
    | count => some ("      " ++ badge severity ++ " × " ++ toString count)

/-- The lines for the job and the step of a finding; the name of the step may have no text. -/
def placeLines (finding : Finding) : Except Fault (List String) := do
  let job := if finding.job = "" then [] else ["      Job:   " ++ finding.job]
  match finding.step with
  | none => return job
  | some step =>
    let name ← finding.stepName.toText
    return job ++ ["      Step:  " ++ toString step ++ " (" ++ name ++ ")"]

def findingLines (number : Nat) (finding : Finding) : Except Fault (List String) := do
  let place ← placeLines finding
  return ["", "    " ++ badge finding.severity ++ " #" ++ toString number ++ ": " ++
      emphasized finding.title,
    "      Rule:  " ++ finding.rule, "      File:  " ++ location finding] ++
    place ++
    (finding.evidence.map fun detail => "      " ++ detail.1 ++ ": " ++ detail.2) ++
    "" :: (splitAll '\n' finding.message).map ("      " ++ ·)

def summaryLines (outcome : Outcome) : List String :=
  ("    " ++ toString outcome.pipelines ++ " pipeline(s) scanned") ::
    outcome.problems.map fun problem => "    Warning: " ++ problem.text

def findingsLines (findings : List Finding) : Except Fault (List String) := do
  if findings.isEmpty then return ["    ✅ No security issues found!"]
  else
    let shown ← findings.zipIdx.mapM fun entry => findingLines (entry.2 + 1) entry.1
    return ["    Found " ++ emphasized (toString findings.length) ++ " issue(s):"] ++
      countLines findings ++ ["    " ++ repeated '-' 54] ++ shown.flatten

def outcomeLines (outcome : Outcome) : Except Fault (List String) := do
  let shown ← match outcome.failure with
    | some failure => pure ["    Scan failed: " ++ failure.message]
    | none => (findingsLines outcome.findings).map (summaryLines outcome ++ ·)
  return ("  " ++ emphasized ("Repository: " ++ outcome.repository)) :: shown ++ [""]

def ruler : String :=
  emphasized (repeated '=' 60)

def text (outcomes : List Outcome) : Except Fault String := do
  let nothing := if outcomes.isEmpty then ["  No repositories scanned.", ""] else []
  let shown ← outcomes.mapM outcomeLines
  return "\n".intercalate
    (["", ruler, emphasized "  Pipeline Security Report", ruler, ""] ++ nothing ++
      shown.flatten ++ [ruler, ""])

/-- The report on all repositories, which is printed in bytes. -/
def report (outcomes : List Outcome) : Except Fault String := do
  let text ← text outcomes
  match surrogateRun? text with
  | some run => throw (.unencodable run)
  | none => return text

end SupplyLint.Report.Console
