import SupplyLint.Finding
import SupplyLint.Rule.Expression
import SupplyLint.Text.Blank
import SupplyLint.Text.Case

/-! Jobs that hand out every secret at once, by an expression that turns the whole secrets context
into one text. -/
set_option autoImplicit false

namespace SupplyLint.Rule.AllSecrets

open SupplyLint.Text

def id : String := "job_all_secrets"

/-- The tokens of the expression; blanks may stand between them. -/
def tokens : List String :=
  ["$\x7b\x7b", "tojson(", "secrets", ")", "\x7d\x7d"]

def startsWithTokens : List String → List Char → Bool
  | [], _ => true
  | token :: more, text =>
    match afterPrefix? token.toList text with
    | some rest => startsWithTokens more (rest.dropWhile isBlank)
    | none => false

def mentionsAllSecrets (text : String) : Bool :=
  anywhere (startsWithTokens tokens) (text.toList.map foldCase)

def valueMentions : Value → Bool
  | .text s => mentionsAllSecrets s
  | _ => false

def stepValues (step : Step) : List Value :=
  step.env.values ++
    match step.action with
    | .uses _ _ arguments => Keyed.values arguments
    | .run script _ => [script]

def jobValues (job : Job) : List Value :=
  job.env.values ++ job.steps.flatMap stepValues

def message : String :=
  "The job uses $\x7b\x7b toJSON(secrets) \x7d\x7d, which hands every secret of the repository " ++
    "to its steps. Reference only the secrets it needs."

def check (pipeline : Pipeline) : Except Fault (List Finding) :=
  if pipeline.platform.isGithub then
    .ok ((pipeline.orderedJobs.filter fun job => (jobValues job).any valueMentions).map fun job =>
      Finding.make id ("Job '" ++ job.name ++ "' exposes all secrets") message pipeline (some job)
        none [])
  else .ok []

end SupplyLint.Rule.AllSecrets
