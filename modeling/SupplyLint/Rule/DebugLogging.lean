import SupplyLint.Finding
import SupplyLint.Text.Blank
import SupplyLint.Text.Case

/-! Debug logging that is left on. It prints details of the environment and output of commands that
are masked otherwise. -/
set_option autoImplicit false

namespace SupplyLint.Rule.DebugLogging

open SupplyLint.Text

def id : String := "debug_enabled"

def debugVariables : List String :=
  ["ACTIONS_RUNNER_DEBUG", "ACTIONS_STEP_DEBUG", "CI_DEBUG_SERVICES", "CI_DEBUG_TRACE"]

/-- Whether a value turns something on. Blanks, then quotes, around a text and its case do not
count. -/
def isTruthy : Value → Except Fault Bool
  | .bool b => .ok b
  | value => do
    let word := lower (trimChars ['\'', '"'] (trim (← value.toText)))
    return ["true", "1", "yes"].contains word

def isEnabled (env : Keyed String Value) (name : String) : Except Fault Bool :=
  (env.get? name).elim (.ok false) isTruthy

def enabled (env : Keyed String Value) : Except Fault (List String) :=
  debugVariables.filterM (isEnabled env)

def findingsFor (pipeline : Pipeline) (job : Option Job) (step : Option Step)
    (env : Keyed String Value) : Except Fault (List Finding) := do
  match ← enabled env with
  | [] => return []
  | names =>
    return [Finding.make id "Debug logging enabled"
      (", ".intercalate names ++
        " turns on verbose runner logs that may expose secrets.")
      pipeline job step [("variables", ",".intercalate names)]]

def jobFindings (pipeline : Pipeline) (job : Job) : Except Fault (List Finding) := do
  let own ← findingsFor pipeline (some job) none job.env
  let steps ← job.steps.mapM fun step => findingsFor pipeline (some job) (some step) step.env
  return own ++ steps.flatten

def check (pipeline : Pipeline) : Except Fault (List Finding) := do
  let shared ← findingsFor pipeline none none pipeline.env
  let jobs ← pipeline.orderedJobs.mapM (jobFindings pipeline)
  return shared ++ jobs.flatten

end SupplyLint.Rule.DebugLogging
