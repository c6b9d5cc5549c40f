import SupplyLint.Distinct
import SupplyLint.Keyed
import SupplyLint.Pipeline.Basic
import SupplyLint.Pipeline.Field
import SupplyLint.Pipeline.Problem
import SupplyLint.Text.Blank
import SupplyLint.Text.Scan

/-! The sources that start a GitLab pipeline. Rules name them in conditions such as
`$CI_PIPELINE_SOURCE == "push"`, or mention a variable of merge requests; `only` lists keywords. -/
set_option autoImplicit false

namespace SupplyLint.Gitlab

open SupplyLint.Text

/-! The sources that start pipelines, the keys that name no job, the sections of scripts, and the
keywords of `only` with the sources that they stand for. -/

def events : List String :=
  ["api", "chat", "external", "external_pull_request_event", "merge_request_event",
   "ondemand_dast_scan", "ondemand_dast_validation", "parent_pipeline", "pipeline", "push",
   "schedule", "security_orchestration_policy", "trigger", "web", "webide"]

def reservedKeys : List String :=
  ["stages", "variables", "default", "include", "workflow", "image", "services", "before_script",
   "after_script", "cache", "types", "spec"]

def globalKeys : List String :=
  ["image", "services", "before_script", "after_script"]

def onlyKeywords : List (String × String) :=
  [("merge_requests", "merge_request_event"),
   ("external_pull_requests", "external_pull_request_event"), ("pushes", "push"),
   ("branches", "push"), ("tags", "push"), ("schedules", "schedule"), ("triggers", "trigger"),
   ("pipelines", "pipeline"), ("web", "web"), ("api", "api"), ("chat", "chat")]

/-! Names of sources in texts -/

def isQuote (c : Char) : Bool :=
  c = '"' || c = '\''

/-- A name between quotes at the head of a text, and what follows it. -/
def quotedName : List Char → Option (String × List Char)
  | [] => none
  | opening :: text =>
    let name := text.takeWhile isNameLetter
    match text.dropWhile isNameLetter with
    | closing :: rest =>
      if isQuote opening && isQuote closing && !name.isEmpty then
        some (String.ofList name, rest)
      else none
    | [] => none

def sourceFinder : Finder String := fun text => do
  let operator ← afterPrefix? "$CI_PIPELINE_SOURCE".toList text
  let operand ← afterPrefix? ['=', '='] (operator.dropWhile isBlank)
  let (name, rest) ← quotedName (operand.dropWhile isBlank)
  return (name, text.length - rest.length)

def mergeRequestSource : String := "merge_request_event"

def conditionSources (condition : String) : List String :=
  scan sourceFinder condition.toList ++
    if contains condition "$CI_MERGE_REQUEST_" then [mergeRequestSource] else []

def ruleSources : Value → List String
  | .map rule =>
    match Value.field rule "if" with
    | .text condition => conditionSources condition
    | _ => []
  | _ => []

def rulesSources : Value → List String
  | .map entries =>
    match Value.field entries "rules" with
    | .list rules => rules.flatMap ruleSources
    | _ => []
  | _ => []

def onlySources (only : Value) : Except Fault (List String) := do
  let refs := match only with
    | .map entries => Value.field entries "refs"
    | _ => only
  return (← Field.texts refs).filterMap (Keyed.get? onlyKeywords)

/-- The triggers for the sources that were named; a configuration that names none runs on pushes.
Unknown sources are noted and kept. -/
def triggers (path : String) (sources : List String) : Noted (List Trigger) := do
  let named := firsts sources
  let started := if named.isEmpty then ["push"] else named
  started.forM fun source =>
    if events.contains source then pure ()
    else Noted.note .unknownField path ("unknown pipeline source '" ++ source ++ "'") "rules"
  return started.map fun source => { event := source }

end SupplyLint.Gitlab
