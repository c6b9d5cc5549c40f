import SupplyLint.Pipeline.Basic
import SupplyLint.Text.Case

/-! Events that matter to the rules: those whose payload the author of a change controls, and of
these the ones that run with the secrets and the token of the base repository. -/
set_option autoImplicit false

namespace SupplyLint.Rule

open SupplyLint.Text

def untrustedEvents : List String :=
  ["issue_comment", "merge_request_event", "pull_request", "pull_request_target", "workflow_run"]

def privilegedEvents : List String :=
  ["issue_comment", "pull_request_target", "workflow_run"]

def hasAnyEvent (pipeline : Pipeline) (events : List String) : Bool :=
  let wanted := events.map lower
  pipeline.events.any fun event => wanted.contains (lower event)

def startedBy (events : List String) (pipelines : List Pipeline) : List Pipeline :=
  pipelines.filter fun pipeline => hasAnyEvent pipeline events

end SupplyLint.Rule
