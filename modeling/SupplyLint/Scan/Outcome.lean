import SupplyLint.Failure
import SupplyLint.Finding
import SupplyLint.Pipeline.Problem

/-! What the scan of one repository comes to. -/
set_option autoImplicit false

namespace SupplyLint

structure Outcome where
  repository : String
  findings : List Finding := []
  problems : List Problem := []
  pipelines : Nat := 0
  failure : Option Failure := none

namespace Outcome

def succeeded (outcome : Outcome) : Bool :=
  outcome.failure.isNone

def located (outcomes : List Outcome) : List (String × Finding) :=
  outcomes.flatMap fun outcome => outcome.findings.map fun finding => (outcome.repository, finding)

end Outcome

def Finding.details (finding : Finding) : Keyed String String :=
  Keyed.ofPairs finding.evidence

end SupplyLint
