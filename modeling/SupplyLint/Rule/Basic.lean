import SupplyLint.Finding

/-! Rules and how they are evaluated. A rule either gives its findings or meets a fault. A fault
does not stop the other rules; it is reported as a finding about the pipeline. -/
set_option autoImplicit false

namespace SupplyLint

structure Rule where
  id : String
  check : Pipeline → Except Fault (List Finding)

namespace Rule

def evaluationError : String := "rule_evaluation_error"

def diagnostic (rule : Rule) (pipeline : Pipeline) (fault : Fault) : Finding :=
  Finding.make evaluationError ("Rule '" ++ rule.id ++ "' could not be evaluated")
    (fault.category.text ++ ": " ++ fault.message) pipeline none none [("rule", rule.id)]

def contribution (pipeline : Pipeline) (rule : Rule) : List Finding :=
  match rule.check pipeline with
  | .ok findings => findings
  | .error fault => [rule.diagnostic pipeline fault]

def evaluate (rules : List Rule) (pipeline : Pipeline) : List Finding :=
  Finding.sorted (rules.flatMap (contribution pipeline))

end Rule

/-- Rules by their ids, in the order in which the ids were first put in. -/
abbrev Registry := Keyed String Rule

namespace Registry

def register (registry : Registry) (rule : Rule) : Registry :=
  registry.put rule.id rule

def rules (registry : Registry) : List Rule :=
  registry.values

end Registry

end SupplyLint
