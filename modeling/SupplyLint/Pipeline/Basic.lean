import SupplyLint.Package.Reference

/-! Pipelines, whatever platform they are written for: what starts them, their jobs, and the steps
of each job. Some fields are kept as the document gives them and need not be texts. -/
set_option autoImplicit false

namespace SupplyLint

/-- A platform without a name here is one that no configuration format is known for. -/
inductive Platform
  | github
  | gitlab
  | other (value : Value)

def Platform.isGithub : Platform → Bool
  | .github => true
  | _ => false

def Platform.isGitlab : Platform → Bool
  | .gitlab => true
  | _ => false

structure Trigger where
  event : String
  branches : List String := []
  paths : List String := []

inductive Action
  | uses (text : String) (package : Option PackageRef) (arguments : Entries)
  | run (script shell : Value)

structure Step where
  position : Int
  action : Action
  name : Value := .null
  env : Keyed String Value := []
  line : Option Int := none

/-- A job. `name` is unique in its pipeline; `originPath` and `originName` say where the job is
written and under which name. -/
structure Job where
  name : String
  index : Int
  steps : List Step := []
  labels : Value := .list []
  permissions : Option (Keyed String String) := none
  env : Keyed String Value := []
  needs : List String := []
  images : List PackageRef := []
  uses : Option String := none
  package : Option PackageRef := none
  originPath : String := ""
  originName : String := ""
  line : Option Int := none

def Job.stepsAfter (job : Job) (position : Int) : List Step :=
  job.steps.filter fun step => position < step.position

abbrev Jobs := Keyed String Job

/-- The jobs by their index; of one index, in the order of the list. -/
def Jobs.ordered (jobs : Jobs) : List Job :=
  jobs.values.mergeSort fun x y => x.index ≤ y.index

structure Pipeline where
  platform : Platform
  path : String
  name : Value := .null
  triggers : List Trigger := []
  jobs : Jobs := []
  permissions : Option (Keyed String String) := none
  env : Keyed String Value := []
  includes : List PackageRef := []

namespace Pipeline

def events (pipeline : Pipeline) : List String :=
  pipeline.triggers.map (·.event)

def orderedJobs (pipeline : Pipeline) : List Job :=
  pipeline.jobs.ordered

end Pipeline

end SupplyLint
