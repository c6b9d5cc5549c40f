import SupplyLint.Finding
import SupplyLint.Rule.Event

/-! Jobs with the default permissions of the token where a privileged event starts them. The default
is often to read and write everything. -/
set_option autoImplicit false

namespace SupplyLint.Rule.DefaultPermissions

open SupplyLint.Text

def id : String := "default_permissions_on_risky_events"

def riskyEvents (pipeline : Pipeline) : List String :=
  let written := pipeline.events.map lower
  privilegedEvents.filter fun event => written.contains event

/-- Whether the job runs with the permissions that the repository gives by default. -/
def hasDefault (job : Job) : Bool :=
  job.permissions.isNone && (job.uses.getD "") == ""

def message (events : List String) (job : Job) : String :=
  "The workflow is triggered by " ++ ", ".intercalate events ++
    " and neither the workflow nor job '" ++ job.name ++ "' declares 'permissions'. " ++
    "Set them to the minimum the job needs."

def finding (pipeline : Pipeline) (events : List String) (job : Job) : Finding :=
  Finding.make id ("Job '" ++ job.name ++ "' uses default permissions on a risky event")
    (message events job) pipeline (some job) none []

def check (pipeline : Pipeline) : Except Fault (List Finding) :=
  if pipeline.platform.isGithub && pipeline.permissions.isNone &&
      hasAnyEvent pipeline privilegedEvents then
    .ok ((pipeline.orderedJobs.filter hasDefault).map
      (finding pipeline (riskyEvents pipeline)))
  else .ok []

end SupplyLint.Rule.DefaultPermissions
