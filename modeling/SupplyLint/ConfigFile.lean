import SupplyLint.Config
import SupplyLint.Text.Utf8
import SupplyLint.Tree.Basic
import SupplyLint.Yaml.Load

/-! The configuration file. It is the file that is asked for, or else the nearest one with the usual
name: beside what is scanned, above it, or in the working folder. A file that is no mapping sets
nothing, and keys that name no setting are passed over. -/
set_option autoImplicit false

namespace SupplyLint.ConfigFile

open SupplyLint.Text

def usualName : String :=
  ".pipeaudit.yml"

/-- A configuration file: its place, and its path as it is shown. -/
structure Located where
  place : Place
  path : String

def firstFile (tree : Tree) (base : Place) : List WrittenPath → Except Fault (Option Located)
  | [] => .ok none
  | path :: rest => do
    match ← tree.file? base path with
    | some place => return some ⟨place, path.text⟩
    | none => firstFile tree base rest

/-- The folder of a path: the path itself, or what is above it if it leads to a file. -/
def folderOf (tree : Tree) (base : Place) (path : WrittenPath) : Except Fault WrittenPath := do
  match ← tree.file? base path with
  | some _ => return path.parent
  | none => return path

def candidates (tree : Tree) (working : Place) (scanned : Option WrittenPath) :
    Except Fault (List WrittenPath) := do
  let nearby ← match scanned with
    | some path =>
      let folder ← folderOf tree working path
      pure (folder :: folder.above)
    | none => pure []
  let folders := nearby ++ [WrittenPath.ofPlace working]
  return folders.map fun folder => folder.child usualName

/-- A path that was given; an empty text gives none. -/
def given? (path : Option String) : Option WrittenPath :=
  (path.filter (!·.isEmpty)).map WrittenPath.ofText

/-- Where the configuration is. A file that is asked for is not looked for elsewhere. -/
def locate (tree : Tree) (working : Place) (asked scanned : Option String) :
    Except Fault (Option Located) := do
  match given? asked with
  | some path => firstFile tree working [path]
  | none => firstFile tree working (← candidates tree working (given? scanned))

def listSetting (entries : Entries) (name : String) : Except Fault Value :=
  match entries.get? (.text name) with
  | none => .ok (.list [])
  | some value => if value.present then value.elements.map .list else .ok (.list [])

def settingsOf (entries : Entries) : Except Fault Settings := do
  let severity ← match entries.get? (.text "severity") with
    | some value => value.toText
    | none => pure "low"
  return {
    severity := .text severity
    ignoreRules := ← listSetting entries "ignore_rules"
    exclude := ← listSetting entries "exclude"
    threads := (entries.get? (.text "threads")).getD (.int 2) }

/-- The number of bytes that are decoded at a time. -/
def pieceSize : Nat := 8192

/-- The content as text, piece by piece. The bytes of a character that goes on in the next piece are
decoded with that piece, those of one that ends nowhere by themselves; positions are counted from
there. -/
def textFrom : Nat → List UInt8 → List UInt8 → Except Fault (List Char)
  | 0, _, _ => .ok []
  | budget + 1, pending, content => do
    let piece := pending ++ content.take pieceSize
    let later := content.drop pieceSize
    match decodeUtf8 piece with
    | .ok text => if later.isEmpty then return text else return text ++ (← textFrom budget [] later)
    | .error error =>
      if error.fault ≠ .cut then throw (.undecodable error)
      else if later.isEmpty then throw (.undecodable { error with position := 0 })
      else
        let text ← (decodeUtf8 (piece.take error.position)).mapError .undecodable
        return text ++ (← textFrom budget (piece.drop error.position) later)

def textOf (content : List UInt8) : Except Fault (List Char) :=
  textFrom (content.length + 1) [] content

def read (path : String) (content : List UInt8) : Except Failure Config := do
  let text ← uncaught (textOf content)
  match Yaml.loadSingle text with
  | .error .malformed =>
    throw (.configuration ("Invalid config file " ++ path ++ ": " ++ Yaml.detail))
  | .error (.fault fault) => throw (.fault fault)
  | .ok (.map entries) => Config.ofSettings (← uncaught (settingsOf entries))
  | .ok _ => return {}

/-- The configuration for a scan: the defaults where there is no file. -/
def load (tree : Tree) (working : Place) (asked scanned : Option String) :
    Except Failure Config := do
  match ← uncaught (locate tree working asked scanned) with
  | some file => read file.path ((tree.content? file.place).getD [])
  | none => return {}

end SupplyLint.ConfigFile
