import SupplyLint.Scan.Outcome
import SupplyLint.Text.Case
import SupplyLint.Text.Split
import SupplyLint.Value.Json

/-! The report in the SARIF format, version 2.1.0: one run with an entry for every rule that has
findings and a result for every finding. -/
set_option autoImplicit false

namespace SupplyLint.Report.Sarif

open SupplyLint.Text

def toolName : String := "pipeaudit"

def toolVersion : String := "0.1.0"

def toolUri : String := "https://pypi.org/project/pipeaudit/"

def schema : String :=
  "https://raw.githubusercontent.com/oasis-tcs/sarif-spec/master/Schemata/sarif-schema-2.1.0.json"

def level : Severity → String
  | .critical => "error"
  | .high => "error"
  | .medium => "warning"
  | .low => "note"
  | .note => "none"

def score : Severity → String
  | .critical => "9.0"
  | .high => "7.0"
  | .medium => "5.0"
  | .low => "3.0"
  | .note => "0.0"

/-- The first finding of each rule, by the ids of the rules. -/
def firstOfRules (findings : List Finding) : List Finding :=
  let firsts := findings.foldl
    (fun seen finding =>
      if seen.any fun other => other.rule == finding.rule then seen else seen ++ [finding])
    ([] : List Finding)
  firsts.mergeSort fun x y => !(y.rule < x.rule)

def ruleName (id : String) : String :=
  String.join (splitAll ' ' (title (" ".intercalate (splitAll '_' id))))

def textJson (text : String) : Json :=
  .object [("text", .string text)]

def ruleJson (finding : Finding) : Json :=
  .object
    [("id", .string finding.rule), ("name", .string (ruleName finding.rule)),
     ("shortDescription", textJson finding.title), ("fullDescription", textJson finding.title),
     ("helpUri", .string (toolUri ++ "#" ++ finding.rule)),
     ("properties", .object
       [("security-severity", .string (score finding.severity)),
        ("tags", .array [.string "security", .string "supply-chain", .string "ci-cd"])])]

def jobLocation (finding : Finding) : List Json :=
  if finding.job = "" then []
  else [.object [("name", .string finding.job), ("kind", .string "job")]]

def stepLocation (finding : Finding) : Except Fault (List Json) :=
  match finding.step with
  | none => .ok []
  | some step => do
    let name ←
      if finding.stepName.present then finding.stepName.toJson else pure (.string (toString step))
    return [.object
      [("name", name),
       ("fullyQualifiedName", .string (finding.job ++ ".steps[" ++ toString step ++ "]")),
       ("kind", .string "step")]]

/-- The line of a finding; one that has none is put on the first line. -/
def startLine (finding : Finding) : Int :=
  match finding.line with
  | none => 1
  | some line => if line = 0 then 1 else line

def propertiesJson (repository : String) (finding : Finding) : Json :=
  let properties := Keyed.putAll [("repository", repository)] finding.details
  .object (properties.map fun property => (property.1, .string property.2))

def resultJson (repository : String) (finding : Finding) : Except Fault Json := do
  let step ← stepLocation finding
  return .object
    [("ruleId", .string finding.rule), ("level", .string (level finding.severity)),
     ("message", textJson finding.message),
     ("locations", .array
       [.object
         [("physicalLocation", .object
           [("artifactLocation", .object
             [("uri", .string finding.path), ("uriBaseId", .string "%SRCROOT%")]),
            ("region", .object [("startLine", .ofInt (startLine finding))])]),
          ("logicalLocations", .array (jobLocation finding ++ step))]]),
     ("properties", propertiesJson repository finding)]

def document (outcomes : List Outcome) : Except Fault Json := do
  let located := Outcome.located outcomes
  let results ← located.mapM fun entry => resultJson entry.1 entry.2
  let driver := Json.object
    [("name", .string toolName), ("version", .string toolVersion),
     ("informationUri", .string toolUri),
     ("rules", .array ((firstOfRules (located.map (·.2))).map ruleJson))]
  return .object
    [("$schema", .string schema), ("version", .string "2.1.0"),
     ("runs", .array
       [.object
         [("tool", .object [("driver", driver)]), ("results", .array results)]])]

def text (outcomes : List Outcome) : Except Fault String :=
  (document outcomes).map Json.text

end SupplyLint.Report.Sarif
