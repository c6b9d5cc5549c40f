import SupplyLint.Finding

/-! Packages that are not pinned. A tag or a branch can be moved by its owner, so that other code
runs than the code that was reviewed; a commit hash or an image digest can not. -/
set_option autoImplicit false

namespace SupplyLint.Rule.UnpinnedPackage

def id : String := "unpinned_action"

/-- Whether a reference is not pinned by the hash that its scheme asks for. A reference with an
unresolved variable is not known to be unpinned, nor is one of another scheme. -/
def isUnpinned (ref : PackageRef) : Except Fault Bool := do
  if ← ref.isTemplated then return false
  else if ref.scheme = PackageRef.imageScheme then
    return !(← PackageRef.pinnedByDigest ref.ref)
  else if ref.scheme = PackageRef.actionScheme || ref.scheme = PackageRef.gitlabScheme then
    return !(← PackageRef.pinnedByCommit ref.ref)
  else return false

def message (address ref : String) : String :=
  "'" ++ address ++ "' is referenced by tag/branch '" ++ ref ++
    "', not by an immutable digest. A compromised or force-pushed ref could inject " ++
    "malicious code into this pipeline."

def finding (pipeline : Pipeline) (job : Option Job) (step : Option Step) (ref : PackageRef) :
    Except Fault Finding := do
  let what := if ref.scheme = PackageRef.imageScheme then "image" else "reference"
  let address ← ref.address
  let written ← if ref.ref.present then ref.ref.toText else pure "(none)"
  return Finding.make id ("Unpinned " ++ what) (message address written) pipeline job step
    [("purl", address)]

def findingsFor (pipeline : Pipeline) (job : Option Job) (step : Option Step)
    (refs : List PackageRef) : Except Fault (List Finding) := do
  (← refs.filterM isUnpinned).mapM (finding pipeline job step)

def stepRefs (step : Step) : List PackageRef :=
  match step.action with
  | .uses _ (some package) _ => [package]
  | _ => []

def jobFindings (pipeline : Pipeline) (job : Job) : Except Fault (List Finding) := do
  let own ← findingsFor pipeline (some job) none (job.images ++ job.package.toList)
  let steps ← job.steps.mapM fun step =>
    findingsFor pipeline (some job) (some step) (stepRefs step)
  return own ++ steps.flatten

def check (pipeline : Pipeline) : Except Fault (List Finding) := do
  let includes ← findingsFor pipeline none none pipeline.includes
  let jobs ← pipeline.orderedJobs.mapM (jobFindings pipeline)
  return includes ++ jobs.flatten

end SupplyLint.Rule.UnpinnedPackage
