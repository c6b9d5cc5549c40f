import SupplyLint.Pipeline.Basic
import SupplyLint.Pipeline.Field
import SupplyLint.Pipeline.Source

/-! Jobs of GitLab configurations. Every line of the three script sections is a step; images, labels
and script sections that a job does not set come from the defaults. -/
set_option autoImplicit false

namespace SupplyLint.Gitlab

/-- The variables of a section by name. In the long form the value stands in a mapping. -/
def variablesOf (raw : Value) : Except Fault (Keyed String Value) := do
  let entries ← (Field.entries raw).mapM fun entry =>
    return (← entry.1.toText, match entry.2 with
      | .map long => Value.field long "value"
      | value => value)
  return Keyed.ofPairs entries

def imageName : Value → Option String
  | .text name => some name
  | .map entries =>
    match Value.field entries "name" with
    | .text name => some name
    | _ => none
  | _ => none

def imageNames (raw : Value) : List String :=
  raw.asList.filterMap imageName

/-- The values that a script is written with, in order. A list may hold lists of lines. -/
def writtenLines (raw : Value) : List Value :=
  raw.asList.flatMap Value.asList

def scriptLines (raw : Value) : Except Fault (List String) :=
  Value.toTexts ((writtenLines raw).filter (!·.isNull))

def setting (raw defaults : Entries) (key : String) : Value :=
  (Keyed.get? raw (.text key)).getD (Value.field defaults key)

/-- The lines of the sections, each with the name of its step. -/
def namedLines (raw defaults : Entries) : Except Fault (List (String × String)) := do
  let sections :=
    [("before_script", setting raw defaults "before_script"), ("script", Value.field raw "script"),
     ("after_script", setting raw defaults "after_script")]
  let named ← sections.mapM fun entry => do
    return (← scriptLines entry.2).zipIdx.map fun line =>
      (entry.1 ++ "[" ++ toString line.2 ++ "]", line.1)
  return named.flatten

def steps (raw defaults : Entries) : Except Fault (List Step) := do
  return (← namedLines raw defaults).zipIdx.map fun line =>
    { position := line.2
      action := .run (.text line.1.2) .null
      name := .text line.1.1 }

/-- What an entry of a list of needs names. Needs of other pipelines name nothing here. -/
def needName : Value → Value
  | .map entries =>
    if Value.hasField entries "pipeline" || Value.hasField entries "project" then .null
    else Value.field entries "job"
  | value => value

def needs (path name : String) (raw : Value) : Normalizing (List String) :=
  if !raw.present then pure []
  else match raw with
    | .list items => Value.toTexts ((items.map needName).filter (!·.isNull))
    | _ => do
      Noted.note .unknownField path ("'needs' of job '" ++ name ++ "' is not a list")
        (name ++ ".needs")
      Field.texts raw

def job (path name : String) (index : Nat) (raw defaults : Entries) : Normalizing Job := do
  if !Value.hasField raw "script" && !Value.hasField raw "trigger" then
    Noted.note .unknownField path ("job '" ++ name ++ "' has no script or trigger") name
  let steps ← steps raw defaults
  let waited ← needs path name (Value.field raw "needs")
  let images :=
    imageNames (setting raw defaults "image") ++ imageNames (setting raw defaults "services")
  let labels ← Field.texts (setting raw defaults "tags")
  let env ← variablesOf (Value.field raw "variables")
  return {
    name := name
    index := index
    steps := steps
    labels := .list (labels.map .text)
    env := env
    needs := waited
    images := images.filterMap PackageRef.ofImage
    originPath := path
    originName := name
    line := Field.line (.map raw) }

end SupplyLint.Gitlab
