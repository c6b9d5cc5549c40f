import SupplyLint.Finding
import SupplyLint.Rule.Expression
import SupplyLint.Text.Blank
import SupplyLint.Text.Word

/-! Values of a user that are put into a script. The text of such a value can be written so that it
runs as a command of its own. Looked for are expressions with certain contexts of GitHub, and
certain predefined variables of GitLab. -/
set_option autoImplicit false

namespace SupplyLint.Rule.ScriptInjection

open SupplyLint.Text

def id : String := "injection"

/-- The contexts that a user controls, in the order of their text. The star stands for one property
or index. -/
def untrustedContextNames : List String :=
  ["github.event.comment.body", "github.event.commits.*.author.email",
   "github.event.commits.*.author.name", "github.event.commits.*.message",
   "github.event.discussion.body", "github.event.discussion.title",
   "github.event.head_commit.author.email", "github.event.head_commit.author.name",
   "github.event.head_commit.message", "github.event.issue.body", "github.event.issue.title",
   "github.event.pages.*.page_name", "github.event.pull_request.body",
   "github.event.pull_request.head.label", "github.event.pull_request.head.ref",
   "github.event.pull_request.head.repo.default_branch", "github.event.pull_request.title",
   "github.event.review.body", "github.event.review_comment.body",
   "github.event.workflow_run.head_branch", "github.event.workflow_run.head_commit.message",
   "github.head_ref"]

def untrustedVariableNames : List String :=
  ["CI_COMMIT_AUTHOR", "CI_COMMIT_BRANCH", "CI_COMMIT_DESCRIPTION", "CI_COMMIT_MESSAGE",
   "CI_COMMIT_REF_NAME", "CI_COMMIT_TITLE", "CI_MERGE_REQUEST_DESCRIPTION",
   "CI_MERGE_REQUEST_SOURCE_BRANCH_NAME", "CI_MERGE_REQUEST_TITLE"]

def scriptActions : List String := ["actions/github-script"]

def isPropertyChar (c : Char) : Bool :=
  c != '.' && c != '[' && !isBlank c

/-- What follows one property, such as `.name`, or one index, such as `[0]`. -/
def afterProperty : List Char → Option (List Char)
  | '.' :: rest =>
    match rest.dropWhile isPropertyChar with
    | after => if after.length < rest.length then some after else none
  | '[' :: rest => (cutFirst ']' rest).map (·.2)
  | _ => none

def afterContext : List Char → List Char → Option (List Char)
  | [], text => some text
  | '.' :: '*' :: more, text => (afterProperty text).bind (afterContext more)
  | c :: more, d :: text => if c = d then afterContext more text else none
  | _ :: _, [] => none

def startsWithContext (context text : List Char) : Bool :=
  match afterContext context text with
  | some rest => endsWord rest
  | none => false

/-- Whether a context stands somewhere in an expression as words of its own. -/
def mentionsContext (context : List Char) : Bool → List Char → Bool
  | _, [] => false
  | inWord, c :: rest =>
    (!inWord && startsWithContext context (c :: rest)) || mentionsContext context (isWord c) rest

def isMark (c : Char) : Bool :=
  c = '$' || c = '{' || c = '}' || c = '%'

def variableName (written : List Char) : String :=
  String.ofList (trimBy isMark written)

def untrustedContexts (text : String) (platform : Platform) : List String :=
  let found := expressionsIn text platform
  if platform.isGitlab then
    let names := found.map variableName
    untrustedVariableNames.filter fun name => names.contains name
  else
    untrustedContextNames.filter fun context =>
      found.any (mentionsContext context.toList false)

/-- The script that a step runs, of whatever kind the value is. -/
def scriptOf (step : Step) : Value :=
  match step.action with
  | .run script _ => script
  | .uses _ (some package) arguments =>
    if scriptActions.contains package.name then Value.field arguments "script" else .null
  | .uses _ none _ => .null

def contextsOf (pipeline : Pipeline) (step : Step) : List String :=
  match scriptOf step with
  | .text script => untrustedContexts script pipeline.platform
  | _ => []

def message (contexts : List String) : String :=
  "The script interpolates the user-controlled value(s) " ++ ", ".intercalate contexts ++
    ". An attacker could craft a value that executes arbitrary commands. Pass it through an " ++
    "environment variable and quote it instead."

def stepFindings (pipeline : Pipeline) (job : Job) (step : Step) : List Finding :=
  match contextsOf pipeline step with
  | [] => []
  | contexts =>
    [Finding.make id "Potential script injection" (message contexts) pipeline (some job) (some step)
      [("contexts", ",".intercalate contexts)]]

def check (pipeline : Pipeline) : Except Fault (List Finding) :=
  .ok (pipeline.orderedJobs.flatMap fun job => job.steps.flatMap (stepFindings pipeline job))

end SupplyLint.Rule.ScriptInjection
