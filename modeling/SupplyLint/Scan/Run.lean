import SupplyLint.Scan.Aggregate
import SupplyLint.Scan.Outcome
import SupplyLint.Scan.Repository

/-! The scan of one repository: its files are collected, read as pipelines and checked by the rules.
The scan looks three times whether it is cancelled. A work directory that was made for it is removed
at the end, whatever the end is. -/
set_option autoImplicit false

namespace SupplyLint.Scan

/-- The documents to be read, and a problem for each file that could not be read. -/
structure Collected where
  documents : List Document := []
  problems : List Problem := []

def Collected.add (config : Config) (collected : Collected) (item : Item) :
    Except Fault Collected := do
  if ← config.excludes item.path then return collected
  else match item with
    | .document document =>
      return { collected with documents := collected.documents ++ [document] }
    | .unread _ path message =>
      let problem : Problem := ⟨.unparsable, path, "could not read file: " ++ message, ""⟩
      return { collected with problems := collected.problems ++ [problem] }

/-- Collects the items of happenings up to the first failure. -/
def collect (config : Config) (repository : String) :
    List Happening → Scene → Collected → Scene × Except Failure Collected
  | [], scene, collected => (scene, .ok collected)
  | happening :: rest, scene, collected =>
    match scene.after repository happening with
    | (next, .error failure) => (next, .error failure)
    | (next, .ok none) => collect config repository rest next collected
    | (next, .ok (some item)) =>
      match collected.add config item with
      | .error fault => (next, .error (.fault fault))
      | .ok more => collect config repository rest next more

def keptFindings (config : Config) (rules : List Rule) (pipelines : List Pipeline) :
    Except Failure (List Finding) :=
  uncaught (Finding.filterBy config (Finding.aggregate (pipelines.map (Rule.evaluate rules))))

/-- What a scan comes to after the documents were collected. `cancelledThen` says that the scan is
cancelled while they are read. -/
def finish (config : Config) (rules : List Rule) (repository : Repository) (cancelledThen : Bool)
    (scene : Scene) (collected : Collected) : Scene × Except Failure Outcome :=
  let last := { scene with cancelled := scene.cancelled || cancelledThen }
  match scene.checkCancelled repository.name with
  | .error failure => (scene, .error failure)
  | .ok () =>
    (last, do
      let normalized ← Document.readAll collected.documents repository.read
      last.checkCancelled repository.name
      let findings ← keptFindings config rules normalized.pipelines
      return {
        repository := repository.name
        findings := findings
        problems := collected.problems ++ normalized.problems
        pipelines := normalized.pipelines.length })

def scanRepository (config : Config) (rules : List Rule) (repository : Repository)
    (cancelledThen : Bool) (scene : Scene) : Scene × Except Failure Outcome :=
  match scene.checkCancelled repository.name with
  | .error failure => (scene, .error failure)
  | .ok () =>
    let opened :=
      { scene with workdir := if repository.needsClone then .present else .none }
    let (next, collected) :=
      collect config repository.name (repository.documents repository.needsClone) opened {}
    let ended : Scene × Except Failure Outcome :=
      match collected with
      | .error failure => (next, .error failure)
      | .ok collected => finish config rules repository cancelledThen next collected
    (ended.1.removeWorkdir, ended.2)

end SupplyLint.Scan
