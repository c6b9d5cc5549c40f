import SupplyLint.Config
import SupplyLint.Rule.Standard

/-! The findings of a repository as one list. What several pipelines report alike is reported once,
every finding gets the severity of its rule, and the list is ordered by file. -/
set_option autoImplicit false

namespace SupplyLint

def ruleSeverities : List (String × Severity) :=
  [(Rule.UntrustedCheckout.id, .critical),
   (Rule.ScriptInjection.id, .critical),
   (Rule.DefaultPermissions.id, .high),
   (Rule.AllSecrets.id, .high),
   (Rule.SelfHostedRunner.id, .high),
   (Rule.UnpinnedPackage.id, .medium),
   (Rule.DebugLogging.id, .low),
   (Rule.evaluationError, .note)]

def severityFor (rule : String) : Severity :=
  (Keyed.get? ruleSeverities rule).getD .low

namespace Finding

/-- What two findings have in common that are reported as one. -/
structure Key where
  rule : String
  path : String
  job : String
  step : Option Int
  evidence : Evidence
  deriving DecidableEq

def key (finding : Finding) : Key :=
  ⟨finding.rule, finding.path, finding.job, finding.step, finding.evidence⟩

/-- Adds a finding at the end, unless one with its key is there. -/
def addNewKey (seen : List Finding) (finding : Finding) : List Finding :=
  if seen.any fun other => other.key == finding.key then seen else seen ++ [finding]

def firstsByKey (findings : List Finding) : List Finding :=
  findings.foldl addNewKey []

def rated (finding : Finding) : Finding :=
  { finding with severity := severityFor finding.rule }

/-- Merges the findings of several pipelines. -/
def aggregate (lists : List (List Finding)) : List Finding :=
  sortedByPath ((firstsByKey lists.flatten).map rated)

/-- Whether a finding is reported. Reports of faults always are. -/
def isKept (config : Config) (finding : Finding) : Except Fault Bool :=
  if finding.rule = Rule.evaluationError then .ok true
  else do
    let ignored ← config.ignoreRules.holds finding.rule
    return !ignored && config.severity.rank ≤ finding.severity.rank

def filterBy (config : Config) (findings : List Finding) : Except Fault (List Finding) :=
  findings.filterM (isKept config)

end Finding

end SupplyLint
