import SupplyLint.Pipeline.Basic
import SupplyLint.Value.Text

/-! Findings: what a rule has to say about a pipeline, a job or a step, with the place and the
evidence. Findings are ordered by job, step, rule and evidence; what has no job or step comes
first. -/
set_option autoImplicit false

namespace SupplyLint

inductive Severity
  | critical
  | high
  | medium
  | low
  | note
  deriving DecidableEq

namespace Severity

def all : List Severity :=
  [critical, high, medium, low, note]

def rank : Severity → Nat
  | note => 0
  | low => 1
  | medium => 2
  | high => 3
  | critical => 4

def text : Severity → String
  | critical => "critical"
  | high => "high"
  | medium => "medium"
  | low => "low"
  | note => "note"

def ofText? (name : String) : Option Severity :=
  all.find? (·.text == name)

theorem ofText?_text (severity : Severity) : ofText? severity.text = some severity := by
  cases severity <;> decide

end Severity

abbrev Evidence := List (String × String)

def compareDetail : String × String → String × String → Ordering :=
  compareLex (fun x y => Text.compareText x.1 y.1) fun x y => Text.compareText x.2 y.2

structure Finding where
  rule : String
  title : String
  message : String
  path : String
  job : String := ""
  jobIndex : Option Int := none
  step : Option Int := none
  stepName : Value := .text ""
  evidence : Evidence := []
  severity : Severity := .low
  line : Option Int := none

namespace Finding

/-- An index by which findings are ordered; having none comes before the index zero. -/
def place (index : Option Int) : Int :=
  index.getD (-1)

def compare : Finding → Finding → Ordering :=
  compareLex (compareOn fun finding => place finding.jobIndex)
    (compareLex (compareOn fun finding => place finding.step)
      (compareLex (compareOn fun finding => finding.rule)
        fun x y => List.compareLex compareDetail x.evidence y.evidence))

/-- The order of the findings of a repository: by file, and in a file as in a pipeline. -/
def compareByPath : Finding → Finding → Ordering :=
  compareLex (compareOn fun finding => finding.path) compare

def sorted (findings : List Finding) : List Finding :=
  findings.mergeSort fun x y => (compare x y).isLE

def sortedByPath (findings : List Finding) : List Finding :=
  findings.mergeSort fun x y => (compareByPath x y).isLE

/-- The name of a step: its own, or the action that it calls, or its position. -/
def nameOfStep (step : Step) : Value :=
  let byPosition : Value := .text ("step " ++ toString step.position)
  if step.name.present then step.name
  else match step.action with
    | .uses text _ _ => if text = "" then byPosition else .text text
    | .run _ _ => byPosition

/-- A finding about a pipeline, or about one of its jobs or steps. A job is reported in the file
that it is written in, under the name that it has there. -/
def make (rule title message : String) (pipeline : Pipeline) (job : Option Job) (step : Option Step)
    (evidence : Evidence) : Finding :=
  { rule := rule
    title := title
    message := message
    path := match job with
      | some job => if job.originPath = "" then pipeline.path else job.originPath
      | none => pipeline.path
    job := match job with
      | some job => if job.originName = "" then job.name else job.originName
      | none => ""
    jobIndex := job.map (·.index)
    step := step.map (·.position)
    stepName := (step.map nameOfStep).getD (.text "")
    evidence := evidence.mergeSort fun x y => (compareDetail x y).isLE
    line := match step with
      | some step => step.line
      | none => job.bind (·.line) }

end Finding

end SupplyLint
