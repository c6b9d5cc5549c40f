import SupplyLint.Pipeline.Basic
import SupplyLint.Pipeline.Field
import SupplyLint.Pipeline.Source

/-! The parts of a GitHub workflow: triggers, permissions, steps and jobs. Nothing is evaluated, and
expressions stay as they are written. A part that is not what it should be is noted and left out. -/
set_option autoImplicit false

namespace SupplyLint.Github

open SupplyLint.Yaml (lineKey)

def events : List String :=
  ["branch_protection_rule", "check_run", "check_suite", "create", "delete", "deployment",
   "deployment_status", "discussion", "discussion_comment", "fork", "gollum", "issue_comment",
   "issues", "label", "merge_group", "milestone", "page_build", "project", "project_card",
   "project_column", "public", "pull_request", "pull_request_comment", "pull_request_review",
   "pull_request_review_comment", "pull_request_target", "push", "registry_package", "release",
   "repository_dispatch", "schedule", "status", "watch", "workflow_call", "workflow_dispatch",
   "workflow_run"]

def workflowKeys : List String :=
  ["name", "run-name", "on", "permissions", "env", "defaults", "concurrency", "jobs"]

def jobKeys : List String :=
  ["name", "permissions", "needs", "if", "runs-on", "environment", "concurrency", "outputs", "env",
   "defaults", "steps", "timeout-minutes", "strategy", "continue-on-error", "container", "services",
   "uses", "with", "secrets", "snapshot"]

def stepKeys : List String :=
  ["id", "if", "name", "uses", "run", "shell", "with", "env", "continue-on-error",
   "timeout-minutes", "working-directory"]

/-! Parts of workflows -/

/-- Whether a key is one of the given words or the key for the line of the mapping. -/
def isKnownKey (words : List String) : Value → Bool
  | .text key => key == lineKey || words.contains key
  | _ => false

def noteUnknownKeys (words : List String) (what path location : String) (raw : Entries) :
    Normalizing Unit :=
  raw.forM fun entry => do
    if !isKnownKey words entry.1 then
      let key ← entry.1.toText
      Noted.note .unknownField path ("unknown " ++ what ++ " key '" ++ key ++ "'") location

def scopedTrigger (event scope : Value) : Except Fault Trigger := do
  let event ← event.toText
  match scope with
  | .map entries =>
    return {
      event := event
      branches := ← Field.texts (Value.field entries "branches")
      paths := ← Field.texts (Value.field entries "paths") }
  | _ => return { event := event }

def writtenTriggers (path : String) (raw : Value) : Normalizing (List Trigger) :=
  match raw with
  | .text event => pure [{ event := event }]
  | .list items => do return (← Value.toTexts items).map fun event => { event := event }
  | .map _ => (Field.entries raw).mapM fun entry => scopedTrigger entry.1 entry.2
  | .null => pure []
  | _ => do
    Noted.note .unknownField path "'on' is not a string, list or mapping" "on"
    return []

/-- The events that start a workflow. Unknown events are noted and kept. -/
def triggers (path : String) (raw : Value) : Normalizing (List Trigger) := do
  let written ← writtenTriggers path raw
  written.forM fun trigger =>
    if events.contains trigger.event then pure ()
    else Noted.note .unknownField path ("unknown event '" ++ trigger.event ++ "'") "on"
  return written

/-- The permissions of a token by their scopes; one text stands for all scopes. -/
def permissions (path location : String) (raw : Value) :
    Normalizing (Option (Keyed String String)) :=
  match raw with
  | .null => pure none
  | .text all => pure (some [("_all", all)])
  | .map _ => do
    let scopes ← (Field.entries raw).mapM fun entry => return (← entry.1.toText, ← entry.2.toText)
    return some (Keyed.ofPairs scopes)
  | _ => do
    Noted.note .unknownField path "permissions is not a string or mapping" location
    return none

/-- The labels of the runner that a job asks for; the group comes first. -/
def runnerLabels (raw : Value) : Except Fault (List String) :=
  match raw with
  | .map entries => do
    let group := Value.field entries "group"
    let labels ← Field.texts (Value.field entries "labels")
    if group.present then return (← group.toText) :: labels
    else return labels
  | _ => Field.texts raw

def imageField : Value → Value
  | .map entries => Value.field entries "image"
  | value => value

def imageRef : Value → Option PackageRef
  | .text image => PackageRef.ofImage image
  | _ => none

def images (raw : Entries) : List PackageRef :=
  let services := (Field.entries (Value.field raw "services")).values
  ((Value.field raw "container" :: services).map imageField).filterMap imageRef

def stepLocation (job : String) (position : Nat) : String :=
  "jobs." ++ job ++ ".steps[" ++ toString position ++ "]"

def stepAction (uses run : Value) (entries : Entries) : Except Fault Action := do
  if uses.isNull then return .run (.text (← run.toText)) (Value.field entries "shell")
  else
    let text ← uses.toText
    return .uses text (PackageRef.ofAction text) (Field.entries (Value.field entries "with"))

/-- A step, unless it is no mapping or does not have exactly one of an action and a script. -/
def step (path job : String) (position : Nat) (raw : Value) : Normalizing (Option Step) :=
  let location := stepLocation job position
  match raw with
  | .map entries => do
    noteUnknownKeys stepKeys "step" path location entries
    let uses := Value.field entries "uses"
    let run := Value.field entries "run"
    if uses.isNull == run.isNull then
      Noted.note .unknownField path "step must have exactly one of 'uses' or 'run'" location
      return none
    else
      let env ← Field.byText (Value.field entries "env")
      let action ← stepAction uses run entries
      return some
        { position := position
          action := action
          name := Value.field entries "name"
          env := env
          line := Field.line raw }
  | _ => do
    Noted.note .unknownField path "step is not a mapping" location
    return none

/-- The steps of a job. Those that are left out keep their positions. -/
def stepsFrom (path job : String) : Nat → List Value → Normalizing (List Step)
  | _, [] => pure []
  | position, raw :: rest => do
    let first ← step path job position raw
    let others ← stepsFrom path job (position + 1) rest
    return first.toList ++ others

def steps (path job : String) (raw : Value) : Normalizing (List Step) :=
  if !raw.present then pure []
  else match raw with
    | .list items => stepsFrom path job 0 items
    | _ => do
      Noted.note .unknownField path "'steps' is not a list" ("jobs." ++ job ++ ".steps")
      return []

def usesText : Value → Except Fault (Option String)
  | .null => .ok none
  | value => value.toText.map some

def job (path name : String) (index : Nat) (raw : Entries) : Normalizing Job := do
  noteUnknownKeys jobKeys "job" path ("jobs." ++ name) raw
  let steps ← steps path name (Value.field raw "steps")
  let uses ← usesText (Value.field raw "uses")
  let labels ← runnerLabels (Value.field raw "runs-on")
  let permissions ←
    permissions path ("jobs." ++ name ++ ".permissions") (Value.field raw "permissions")
  let env ← Field.byText (Value.field raw "env")
  let needs ← Field.texts (Value.field raw "needs")
  return {
    name := name
    index := index
    steps := steps
    labels := .list (labels.map .text)
    permissions := permissions
    env := env
    needs := needs
    images := images raw
    uses := uses
    package := uses.bind PackageRef.ofAction
    originPath := path
    originName := name
    line := Field.line (.map raw) }

end SupplyLint.Github
