import SupplyLint.Finding
import SupplyLint.Rule.Event
import SupplyLint.Text.Blank
import SupplyLint.Text.Scan
import SupplyLint.Text.Word

/-! Code of a pull request that is checked out and then run. In a pipeline that untrusted events
start, every step after the first checkout of the head of a pull request may run code of its
author. -/
set_option autoImplicit false

namespace SupplyLint.Rule.UntrustedCheckout

open SupplyLint.Text

def id : String := "untrusted_checkout_exec"

def checkoutActions : List String := ["actions/checkout"]

/-- Texts that stand for the head of a pull request. -/
def headTexts : List String :=
  ["github.event.pull_request.head.", "github.head_ref", "github.event.workflow_run.head_sha",
   "github.event.workflow_run.head_branch", "refs/pull/", "CI_MERGE_REQUEST_SOURCE_BRANCH_NAME",
   "CI_MERGE_REQUEST_SOURCE_BRANCH_SHA"]

def mentionsHead (text : List Char) : Bool :=
  headTexts.any fun head => isPart head.toList text

/-- Whether a test holds at a place that does not follow a word character. -/
def atWordStart (test : List Char → Bool) : Bool → List Char → Bool
  | _, [] => false
  | inWord, c :: rest => (!inWord && test (c :: rest)) || atWordStart test (isWord c) rest

def afterBlanks : List Char → Option (List Char)
  | [] => none
  | c :: rest => if isBlank c then some (rest.dropWhile isBlank) else none

/-- What follows words with blanks between them, where the last one ends. -/
def afterWords : List String → List Char → Option (List Char)
  | [], text => some text
  | [word], text => (afterPrefix? word.toList text).filter endsWord
  | word :: more, text =>
    ((afterPrefix? word.toList text).bind afterBlanks).bind (afterWords more)

/-- Whether one of the commands stands at the head of a text, and the test holds of what follows it
on the same line. -/
def runsCommand (commands : List (List String)) (test : List Char → Bool) (text : List Char) :
    Bool :=
  commands.any fun command =>
    match afterWords command text with
    | some rest => test (rest.takeWhile (· ≠ '\n'))
    | none => false

def isPullPath (text : List Char) : Bool :=
  (afterPrefix? "pull/".toList text).isSome

/-- Whether a command that checks out a pull request stands at the head of a text. -/
def checksOut (text : List Char) : Bool :=
  runsCommand [["gh", "pr", "checkout"], ["hub", "pr", "checkout"]] (fun _ => true) text ||
    runsCommand [["git", "fetch"]] (atWordStart isPullPath true) text ||
    runsCommand [["git", "checkout"], ["git", "switch"], ["git", "reset", "--hard"]] mentionsHead
      text

def isCheckoutScript (script : String) : Bool :=
  atWordStart checksOut false script.toList

def isPrCheckout (step : Step) : Except Fault Bool :=
  match step.action with
  | .uses _ none _ => .ok false
  | .uses _ (some package) arguments =>
    if checkoutActions.contains package.name then
      match Value.field arguments "ref" with
      | .text ref => .ok (mentionsHead ref.toList)
      | _ => .ok false
    else .ok false
  | .run script _ => script.searchable.map isCheckoutScript

def firstCheckout : List Step → Except Fault (Option Step)
  | [] => .ok none
  | step :: rest => do
    if ← isPrCheckout step then return some step
    else firstCheckout rest

def firstPrCheckout (job : Job) : Except Fault (Option Step) :=
  firstCheckout (job.steps.mergeSort fun x y => x.position ≤ y.position)

def message (job : Job) (checkout step : Step) : String :=
  "Step " ++ toString checkout.position ++ " of job '" ++ job.name ++
    "' checks out code controlled by the pull request, and step " ++ toString step.position ++
    " runs afterwards in the same job. It may execute attacker-controlled code from the fork."

def finding (pipeline : Pipeline) (job : Job) (checkout step : Step) : Finding :=
  Finding.make id "Execution after checkout of untrusted pull request code"
    (message job checkout step) pipeline (some job) (some step)
    [("checkout_step", toString checkout.position)]

def jobFindings (pipeline : Pipeline) (job : Job) : Except Fault (List Finding) := do
  match ← firstPrCheckout job with
  | none => return []
  | some checkout =>
    return (job.stepsAfter checkout.position).map (finding pipeline job checkout)

def check (pipeline : Pipeline) : Except Fault (List Finding) :=
  if hasAnyEvent pipeline untrustedEvents then
    return (← pipeline.orderedJobs.mapM (jobFindings pipeline)).flatten
  else .ok []

end SupplyLint.Rule.UntrustedCheckout
