import SupplyLint.Gitlab.Extends
import SupplyLint.Gitlab.Include
import SupplyLint.Gitlab.Job
import SupplyLint.Gitlab.Trigger
import SupplyLint.Pipeline.Needs

/-! GitLab configurations as pipelines. A job that triggers another project has it as its package; a
job that triggers files of the same repository is followed by their jobs, under `<caller>/<job>`. -/
set_option autoImplicit false

namespace SupplyLint.Gitlab

open SupplyLint.Text

structure Gathered where
  jobs : Jobs := []
  references : List PackageRef := []
  sources : List String := []

/-- The files of a child pipeline: what they hold together, and the file that first has each key. -/
structure ChildFiles where
  entries : Entries := []
  origins : Keyed String String := []
  references : List PackageRef := []

def ChildFiles.add (files : ChildFiles) (target : String) (file : Merged) :
    Except Fault ChildFiles := do
  let keys ← Value.toTexts (Field.entries (.map file.entries)).keys
  return {
    entries := Field.merge files.entries file.entries
    origins := keys.foldl
      (fun origins key => if origins.has key then origins else origins.put key target)
      files.origins
    references := files.references ++ file.references }

def childFiles (enter : String → Normalizing (Option Merged)) (path location : String) :
    List Value → ChildFiles → Normalizing ChildFiles
  | [], files => pure files
  | item :: rest, files => do
    match ← Include.ofValue item with
    | .file written =>
      let target := String.ofList (written.toList.dropWhile (· = '/'))
      match ← enter target with
      | none => childFiles enter path location rest files
      | some file => childFiles enter path location rest (← files.add target file)
    | .package ref =>
      childFiles enter path location rest
        { files with references := files.references ++ ref.toList }
    | .elsewhere what =>
      elsewhereInclude path location what
      childFiles enter path location rest files
    | .malformed =>
      malformedInclude path location
      childFiles enter path location rest files

/-- A job of a child pipeline among the jobs of the caller. The variables of the child apply to
it. -/
def adopt (caller : String) (shared : Keyed String Value) (jobs : Jobs) (job : Job) : Jobs :=
  let name := caller ++ "/" ++ job.name
  jobs.put name
    { job with
      name := name
      index := jobs.length
      needs := job.needs.map fun need => caller ++ "/" ++ need
      env := shared.putAll job.env }

/-- How the jobs of a configuration are read: from the chain of files, the path, the origins of the
keys and the entries. -/
abbrev Parsing :=
  List String → String → Keyed String String → Entries → Normalizing Gathered

/-- The files of the repository whose keys a child pipeline has, each once and by name. -/
def originFiles (origins : Keyed String String) : List String :=
  (firsts origins.values).mergeSort fun x y => !(y < x)

def inlineChild (resolve : Resolver) (parse : Option Parsing) (chain : List String) (path : String)
    (caller : String) (includes : Value) (gathered : Gathered) : Normalizing Gathered := do
  let files ←
    childFiles (enter resolve path chain) path (caller ++ ".trigger.include")
      includes.asList {}
  let known := { gathered with references := gathered.references ++ files.references }
  match parse, files.origins with
  | some read, (_, first) :: _ =>
    let shared ← variablesOf (Value.field files.entries "variables")
    let child ← read (chain ++ originFiles files.origins) first files.origins files.entries
    let jobs ← Needs.validate child.jobs first
    return { known with
      jobs := jobs.ordered.foldl (adopt caller shared) known.jobs
      references := known.references ++ child.references }
  | _, _ => return known

inductive Downstream
  | project (ref : Option PackageRef)
  | child (includes : Value)
  | malformed (reason : String)

def Downstream.ofValue : Value → Except Fault Downstream
  | .text name => .ok (.project (PackageRef.ofGitlabProject name .null))
  | .map entries =>
    if Value.hasField entries "project" then do
      let project ← (Value.field entries "project").toText
      return .project (PackageRef.ofGitlabProject project (Value.field entries "branch"))
    else if Value.hasField entries "include" then .ok (.child (Value.field entries "include"))
    else .ok (.malformed "has no project or include")
  | _ => .ok (.malformed "is not a string or mapping")

def addJob (resolve : Resolver) (parse : Option Parsing) (chain : List String)
    (path jobPath : String) (written : Job) (raw : Entries) (gathered : Gathered) :
    Normalizing Gathered := do
  let added (job : Job) : Gathered :=
    { gathered with jobs := gathered.jobs.put job.name job }
  match Keyed.get? raw (.text "trigger") with
  | none => return added written
  | some trigger =>
    match ← Downstream.ofValue trigger with
    | .project ref => return added { written with package := ref }
    | .child includes =>
      inlineChild resolve parse chain path written.name includes (added written)
    | .malformed reason =>
      Noted.note .unknownField jobPath ("trigger of job '" ++ written.name ++ "' " ++ reason)
        (written.name ++ ".trigger")
      return added written

/-- The defaults of a configuration. Keys at its top count as defaults where these do not have
them. -/
def defaultsOf (raw : Entries) : Entries :=
  let written : Entries := match Value.field raw "default" with
    | .map entries => entries
    | _ => []
  globalKeys.foldl
    (fun defaults key =>
      if Value.hasField raw key && !Value.hasField defaults key then
        Keyed.put defaults (.text key) (Value.field raw key)
      else defaults)
    written

def rawJobsOf (raw : Entries) : Except Fault RawJobs := do
  return (← Field.byText (.map raw)).filter fun entry => !reservedKeys.contains entry.1

def isHidden (name : String) : Bool :=
  hasPrefix name "."

def addJobs (resolve : Resolver) (parse : Option Parsing) (chain : List String) (path : String)
    (origins : Keyed String String) (defaults : Entries) (all : RawJobs) :
    RawJobs → Gathered → Normalizing Gathered
  | [], gathered => pure gathered
  | (name, value) :: rest, gathered => do
    if isHidden name then addJobs resolve parse chain path origins defaults all rest gathered
    else
      let jobPath := (origins.get? name).getD path
      match value with
      | .map _ =>
        let raw ← resolveExtends all jobPath name
        let written ← job jobPath name gathered.jobs.length raw defaults
        let kept ← onlySources (Value.field raw "only")
        let sources := gathered.sources ++ rulesSources (.map raw) ++ kept
        let reached ←
          addJob resolve parse chain path jobPath written raw { gathered with sources := sources }
        addJobs resolve parse chain path origins defaults all rest reached
      | _ =>
        Noted.note .unknownField jobPath ("unknown top-level key '" ++ name ++ "'") name
        addJobs resolve parse chain path origins defaults all rest gathered

/-- The jobs of a configuration, given how those of the child pipelines below it are read. -/
def gatherWith (resolve : Resolver) (parse : Option Parsing) : Parsing :=
  fun chain path origins raw => do
    let jobs ← rawJobsOf raw
    addJobs resolve parse chain path origins (defaultsOf raw) jobs jobs
      { sources := rulesSources (Value.field raw "workflow") }

/-- The jobs of a configuration and of the child pipelines below it. Every child has a longer chain
of files, so as many levels as a chain has files are enough. -/
def gather (resolve : Resolver) : Nat → Parsing
  | 0, chain, path, origins, raw => gatherWith resolve none chain path origins raw
  | levels + 1, chain, path, origins, raw =>
    gatherWith resolve (some (gather resolve levels)) chain path origins raw

/-- The pipeline of a GitLab configuration. A file that holds no mapping gives an empty one. -/
def normalize (resolve : Resolver) (path : String) (content : List UInt8) :
    Normalizing Pipeline := do
  match ← configuration path content with
  | none => return { platform := .gitlab, path := path }
  | some raw =>
    let merged ← merge resolve path (maxFiles - 1) [path] raw
    let env ← variablesOf (Value.field merged.entries "variables")
    let gathered ← gather resolve maxFiles [path] path [] merged.entries
    let started ← triggers path gathered.sources
    let jobs ← Needs.validate gathered.jobs path
    return {
      platform := .gitlab
      path := path
      triggers := started
      jobs := jobs
      env := env
      includes := merged.references ++ gathered.references }

end SupplyLint.Gitlab
