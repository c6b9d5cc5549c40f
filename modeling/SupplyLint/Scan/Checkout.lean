import SupplyLint.Scan.Organization
import SupplyLint.Tree.Basic

/-! Repositories that are folders of a tree. The pipeline files of a repository are found by their
place in it: workflows and local actions of one platform, and the configuration of the other.
Whatever else a pipeline refers to is read only if it is a file below the root. -/
set_option autoImplicit false

namespace SupplyLint

open SupplyLint.Text

structure Checkout where
  tree : Tree
  root : Place
  name : String := root.name

namespace Checkout

def workflowFolder : List String :=
  [".github", "workflows"]

def actionFolder : List String :=
  [".github", "actions"]

def actionNames : List String :=
  ["action.yml", "action.yaml"]

def gitlabName : String :=
  ".gitlab-ci.yml"

def isYamlName (name : String) : Bool :=
  extension name == ".yml" || extension name == ".yaml"

/-- Whether names lead to an action somewhere below the folder of actions. -/
def isLocalAction (names : List String) : Bool :=
  match Place.below? actionFolder names with
  | some inner => actionNames.contains (inner.getLastD "")
  | none => false

def isWorkflow (names : List String) : Bool :=
  match Place.below? workflowFolder names with
  | some [name] => isYamlName name
  | _ => false

def isRootAction (names : List String) : Bool :=
  match names with
  | [name] => actionNames.contains name
  | _ => false

/-- The platform of the pipeline file to which names lead from the root. A local action is listed
whatever it is; all others are files. -/
def platformAt? (checkout : Checkout) (names : List String) : Option Platform :=
  let isFile := checkout.tree.isFile (checkout.root ++ names)
  if isLocalAction names then some .github
  else if isFile && (isWorkflow names || isRootAction names) then some .github
  else if isFile && names == [gitlabName] then some .gitlab
  else none

structure Found where
  platform : Platform
  names : List String

def Found.path (found : Found) : String :=
  join "/" found.names

def pipelineFiles (checkout : Checkout) : List Found :=
  let found := (checkout.tree.below checkout.root).filterMap fun names =>
    (checkout.platformAt? names).map fun platform => (⟨platform, names⟩ : Found)
  found.mergeSort fun x y => !(y.path < x.path)

def isFolderMessage (place : Place) : String :=
  "[Errno 21] Is a directory: " ++ quoted place.text

def item (checkout : Checkout) (found : Found) : Item :=
  match checkout.tree.content? (checkout.root ++ found.names) with
  | some content =>
    .document { platform := found.platform, path := found.path, content := content }
  | none =>
    .unread found.platform found.path (isFolderMessage (checkout.root ++ found.names))

def noFolder (root : Place) (name : String) : Failure :=
  .fetch ("Not a directory: " ++ root.text) name

def happenings (checkout : Checkout) : List Happening :=
  if checkout.tree.isFolder checkout.root then
    checkout.pipelineFiles.flatMap fun found => [.check, .item (checkout.item found)]
  else [.fail (noFolder checkout.root checkout.name)]

def platformOf (path : String) : Platform :=
  if hasPrefix path ".github/" then .github else .gitlab

/-- Follows names from a place, whether or not anything is there. Each name is asked for with all
names above it: they have to be written in bytes, and a null character cannot be among them. -/
def reach : Place → List String → Except Fault Place
  | place, [] => .ok place
  | place, name :: rest => do
    let next := place.step name
    if name != ".." then
      match surrogateRunInName? next.text with
      | some run => throw (.unencodable run)
      | none => if name.contains '\x00' then throw .nullInPath
    reach next rest

/-- Reads another file of the repository; its path is resolved first, and it must then lie below the
root. -/
def document? (checkout : Checkout) (path : String) : Except Fault (Option Document) := do
  let written := WrittenPath.ofText path
  let place ← reach (written.start checkout.root) written.names
  match checkout.root.below? place with
  | some (_ :: _) =>
    let file ← checkout.tree.file? [] (.ofPlace place)
    return (file.bind checkout.tree.content?).map fun content =>
      { platform := platformOf path, path := path, content := content }
  | _ => return none

def read (checkout : Checkout) : Resolver := fun path =>
  uncaught ((checkout.document? path).map fun found => found.map (·.content))

def repository (checkout : Checkout) : Repository :=
  { name := checkout.name
    documents := fun _ => checkout.happenings
    read := checkout.read }

/-- The repositories of an organization: the folders in a folder, in the order of their names, apart
from hidden ones. -/
def inFolder (tree : Tree) (root : Place) : Except Failure (List Checkout) :=
  if tree.isFolder root then
    let names := (tree.names root).filter fun name =>
      tree.isFolder (root ++ [name]) && !hasPrefix name "."
    .ok ((names.mergeSort fun x y => !(y < x)).map fun name =>
      { tree := tree, root := root ++ [name] })
  else .error (noFolder root root.name)

def listing (tree : Tree) (root : Place) : Scan.Listing :=
  match inFolder tree root with
  | .ok checkouts => ⟨checkouts.map repository, none⟩
  | .error failure => ⟨[], some failure⟩

end Checkout

end SupplyLint
