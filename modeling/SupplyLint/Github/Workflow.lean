import SupplyLint.Github.Job
import SupplyLint.Pipeline.Needs

/-! GitHub workflows and actions as pipelines. A job that calls a workflow of the same repository is
followed by the jobs of that workflow, under `<caller>/<job>`; calls are followed as far as the
chain of files allows, and never back into a file that the chain already holds. -/
set_option autoImplicit false

namespace SupplyLint.Github

open SupplyLint.Text

def isActionMetadata (path : String) : Bool :=
  let name := afterLast '/' path
  name == "action.yml" || name == "action.yaml"

/-- The keys of a workflow that are known: the words, and `on` read as a truth value. -/
def isWorkflowKey : Value → Bool
  | .bool b => b
  | key => isKnownKey workflowKeys key

/-- The field for the triggers, which may be read as a truth value. -/
def triggerField (raw : Entries) : Value :=
  if Value.hasField raw "on" then Value.field raw "on"
  else (Keyed.get? raw (.bool true)).getD .null

/-- The workflow of the same repository that a job calls. -/
def callTarget (job : Job) : Option String :=
  job.uses.bind fun uses =>
    (afterPrefix? ['.', '/'] uses.toList).map fun target => beforeFirst '@' (String.ofList target)

/-- A job of a called workflow among the jobs of the caller. Without permissions of its own it has
those of its workflow. -/
def adopt (caller : String) (called : Option (Keyed String String)) (jobs : Jobs) (job : Job) :
    Jobs :=
  let name := caller ++ "/" ++ job.name
  jobs.put name
    { job with
      name := name
      index := jobs.length
      needs := job.needs.map fun need => caller ++ "/" ++ need
      permissions := job.permissions.or called }

/-- How a call is followed: from the file and the job that calls to the pipeline of the target. -/
abbrev Follow := String → Job → String → Normalizing (Option Pipeline)

def noteCall (path : String) (caller : Job) (message : String) : Noted Unit :=
  Noted.note .unresolved path message ("jobs." ++ caller.name ++ ".uses")

def parseJobs (follow : Follow) (path : String) : Entries → Jobs → Normalizing Jobs
  | [], jobs => pure jobs
  | (key, raw) :: rest, jobs => do
    let name ← key.toText
    match raw with
    | .map entries =>
      let written ← job path name jobs.length entries
      let jobs := jobs.put name written
      match callTarget written with
      | none => parseJobs follow path rest jobs
      | some target =>
        match ← follow path written target with
        | none => parseJobs follow path rest jobs
        | some called =>
          parseJobs follow path rest
            (called.orderedJobs.foldl (adopt name called.permissions) jobs)
    | _ =>
      Noted.note .unknownField path ("job '" ++ name ++ "' is not a mapping") ("jobs." ++ name)
      parseJobs follow path rest jobs

def jobsOf (follow : Follow) (path : String) (raw : Value) : Normalizing Jobs :=
  match raw with
  | .null => pure []
  | .map _ => do
    let jobs ← parseJobs follow path (Field.entries raw) []
    Needs.validate jobs path
  | _ => do
    Noted.note .unknownField path "'jobs' is not a mapping" "jobs"
    return []

def workflowWith (follow : Follow) (path : String) (raw : Entries) : Normalizing Pipeline := do
  raw.forM fun entry => do
    if !isWorkflowKey entry.1 then
      let key ← entry.1.toText
      Noted.note .unknownField path ("unknown workflow key '" ++ key ++ "'") key
  let started ← triggers path (triggerField raw)
  let granted ← permissions path "permissions" (Value.field raw "permissions")
  let env ← Field.byText (Value.field raw "env")
  let jobs ← jobsOf follow path (Value.field raw "jobs")
  return {
    platform := .github
    path := path
    name := Value.field raw "name"
    triggers := started
    jobs := jobs
    permissions := granted
    env := env }

def openTarget (resolve : Resolver) (path : String) (caller : Job) (target : String) :
    Normalizing (Option Entries) := do
  match ← resolve target with
  | none =>
    noteCall path caller ("reusable workflow '" ++ target ++ "' not found")
    return none
  | some content =>
    match ← Source.documents target content with
    | none => return none
    | some values => Source.mapping target values

def refuseCall : Follow := fun path caller target => do
  noteCall path caller
    ("reusable workflow '" ++ target ++ "' is recursive or nested too deeply")
  return none

/-- A workflow as a pipeline. `room` is the number of files that may still be opened below this one,
and `chain` holds the file and those through which it was reached. -/
def workflow (resolve : Resolver) : Nat → List String → String → Entries → Normalizing Pipeline
  | 0, _, path, raw => workflowWith refuseCall path raw
  | room + 1, chain, path, raw =>
    workflowWith
      (fun path caller target => do
        if chain.contains target then refuseCall path caller target
        else
          match ← openTarget resolve path caller target with
          | none => return none
          | some called => some <$> workflow resolve room (chain ++ [target]) target called)
      path raw

def runsText (runs : Entries) (name : String) : Except Fault String :=
  ((Keyed.get? runs (.text name)).getD (.text "")).toText

/-- The one job of an action: the steps of a composite action, or the image of a docker action. -/
def actionJobs (path : String) (raw : Entries) : Normalizing Jobs :=
  match Value.field raw "runs" with
  | .map runs => do
    let line := Field.line (.map runs)
    let kind ← runsText runs "using"
    if kind = "composite" then
      let steps := (Keyed.get? runs (.text "steps")).getD (.list [])
      let composite ← job path "composite" 0 [(.text "steps", steps)]
      return [("composite", { composite with line := line })]
    else if kind = "docker" then
      let image ← runsText runs "image"
      let step : Step :=
        { position := 0, action := .uses image (PackageRef.ofAction image) [] }
      return [("docker",
        { name := "docker"
          index := 0
          steps := if hasPrefix image "docker://" then [step] else []
          originPath := path
          originName := "docker"
          line := line })]
    else return []
  | _ => do
    Noted.note .unknownField path "action has no 'runs' mapping" "runs"
    return []

def actionMetadata (path : String) (raw : Entries) : Normalizing Pipeline := do
  let jobs ← actionJobs path raw
  return { platform := .github, path := path, name := Value.field raw "name", jobs := jobs }

/-- The pipeline of a GitHub document. A document that holds no mapping gives an empty one. -/
def normalize (resolve : Resolver) (path : String) (content : List UInt8) :
    Normalizing Pipeline := do
  let empty : Pipeline := { platform := .github, path := path }
  match ← Source.documents path content with
  | none => return empty
  | some values =>
    match ← Source.mapping path values with
    | none => return empty
    | some raw =>
      if isActionMetadata path then actionMetadata path raw
      else workflow resolve (maxFiles - 1) [path] path raw

end SupplyLint.Github
