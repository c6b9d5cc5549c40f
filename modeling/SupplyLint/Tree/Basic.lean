import SupplyLint.Distinct
import SupplyLint.Fault
import SupplyLint.Keyed
import SupplyLint.Tree.Path

/-! Trees of files and folders. The entries are listed under their places; the top is always a
folder. -/
set_option autoImplicit false

namespace SupplyLint

inductive Entry
  | file (content : List UInt8)
  | folder

structure Tree where
  entries : Keyed Place Entry := []

namespace Tree

def get? (tree : Tree) (place : Place) : Option Entry :=
  if place.isEmpty then some .folder else tree.entries.get? place

def isFile (tree : Tree) (place : Place) : Bool :=
  match tree.get? place with
  | some (.file _) => true
  | _ => false

def isFolder (tree : Tree) (place : Place) : Bool :=
  match tree.get? place with
  | some .folder => true
  | _ => false

def content? (tree : Tree) (place : Place) : Option (List UInt8) :=
  match tree.get? place with
  | some (.file content) => some content
  | _ => none

/-- The places of all entries, each once, in an order that does not depend on how the tree was
made. -/
def places (tree : Tree) : List Place :=
  (firsts tree.entries.keys).mergeSort fun x y => !(y < x)

/-- The names that lead from a root to the entries below it. -/
def below (tree : Tree) (root : Place) : List (List String) :=
  (tree.places.filterMap root.below?).filter (!·.isEmpty)

def names (tree : Tree) (folder : Place) : List String :=
  (tree.below folder).filterMap fun
    | [name] => some name
    | _ => none

def addFolder (tree : Tree) (place : Place) : Tree :=
  ⟨((List.range place.length).map fun count => place.take (count + 1)).foldl
    (fun entries above => if entries.has above then entries else entries.put above .folder)
    tree.entries⟩

def addFile (tree : Tree) (place : Place) (content : List UInt8) : Tree :=
  ⟨(tree.addFolder place.dropLast).entries.put place (.file content)⟩

/-- A name has at most 255 bytes. -/
def isLong (name : String) : Bool :=
  255 < (Text.shownText name).utf8ByteSize

/-- Follows names one by one from a place. There must be a folder to go on from, also to go up; only
a folder is asked for a name, so a name that is too long elsewhere is just not there. -/
def follow (tree : Tree) (whole : String) : Place → List String → Except Fault (Option Place)
  | place, [] => .ok (some place)
  | place, name :: rest =>
    if !tree.isFolder place then .ok none
    else if isLong name then .error (.nameTooLong whole)
    else follow tree whole (place.step name) rest

/-- A path has at most 4095 bytes. -/
def isLongPath (path : WrittenPath) : Bool :=
  4095 < (Text.shownText path.text).utf8ByteSize

/-- The place of the file that a path leads to from a base. No name holds the null character. -/
def file? (tree : Tree) (base : Place) (path : WrittenPath) : Except Fault (Option Place) := do
  if path.names.any (·.contains '\x00') then return none
  else if isLongPath path then throw (.nameTooLong path.text)
  else match ← tree.follow path.text (path.start base) path.names with
    | some place => return if tree.isFile place then some place else none
    | none => return none

end Tree

end SupplyLint
