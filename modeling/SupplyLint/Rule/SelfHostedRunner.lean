import SupplyLint.Finding
import SupplyLint.Rule.Expression
import SupplyLint.Text.Case
import SupplyLint.Text.Word

/-! Jobs on self-hosted or unknown runners. Such runners can be persistent, so that a job can leave
something behind for later ones. Only the runner families that vendors manage are trusted. -/
set_option autoImplicit false

namespace SupplyLint.Rule.SelfHostedRunner

open SupplyLint.Text

def id : String := "self_hosted_runner"

def hostedLabels : List String :=
  ["ubuntu-18.04", "ubuntu-20.04", "ubuntu-22.04", "ubuntu-latest", "macos-11", "macos-12",
   "macos-13", "macos-latest", "macos-11-xl", "macos-12-xl", "macos-13-xl", "macos-latest-xl",
   "windows-latest"]

/-- What the labels of vendors start with; any machine name may follow. -/
def vendorStarts : List String :=
  ["buildjet-", "warp-", "ubicloud-", "blacksmith-", "depot-", "namespace-profile-", "saas-linux-",
   "saas-macos-", "saas-windows-"]

def isMachineChar (c : Char) : Bool :=
  ('a' ≤ c && c ≤ 'z') || ('0' ≤ c && c ≤ '9') || c = '.' || c = '_' || c = '-'

def isMachineName (text : List Char) : Bool :=
  !text.isEmpty && text.all isMachineChar

/-- A year of this century after the name of the system. -/
def isWindowsYear (label : List Char) : Bool :=
  match afterPrefix? "windows-20".toList label with
  | some [tens, ones] => isDigit tens && isDigit ones
  | _ => false

def isVendorLabel (label : List Char) : Bool :=
  vendorStarts.any fun start =>
    match afterPrefix? start.toList label with
    | some name => isMachineName name
    | none => false

/-- Whether a label names a vendor-managed runner; case and blanks around it do not count. -/
def isHostedLabel (label : String) : Bool :=
  let folded := (trimBy isBlank label.toList).map foldCase
  hostedLabels.any (fun hosted => hosted.toList == folded) || isWindowsYear folded ||
    isVendorLabel folded

/-- Whether a label is known not to be hosted. Labels with expressions are not known; other values
than texts are refused. -/
def isUnknownLabel : Value → Except Fault Bool
  | .text label => .ok (!hasExpression (.text label) && !isHostedLabel label)
  | .bytes _ => .error .bytesSearched
  | label => .error (.noAttribute label.kind "strip")

def message (labels : String) : String :=
  "Runner labels " ++ labels ++ " do not all match a vendor-managed runner family. " ++
    "Self-hosted runners can be persistent, so code from one job may compromise the host for " ++
    "later jobs."

def finding (pipeline : Pipeline) (job : Job) (labels : List Value) : Except Fault Finding := do
  let message := message (← job.labels.toText)
  return Finding.make id ("Job '" ++ job.name ++ "' runs on a self-hosted or unknown runner")
    message pipeline (some job) none [("labels", ",".intercalate (← Value.toTexts labels))]

def jobFindings (pipeline : Pipeline) (job : Job) : Except Fault (List Finding) :=
  if job.labels.isEmpty then .ok []
  else do
    let labels ← job.labels.elements
    let unknown ← labels.filterM isUnknownLabel
    if unknown.isEmpty then return []
    else return [← finding pipeline job labels]

def check (pipeline : Pipeline) : Except Fault (List Finding) :=
  return (← pipeline.orderedJobs.mapM (jobFindings pipeline)).flatten

end SupplyLint.Rule.SelfHostedRunner
