import SupplyLint.Package.Reference
import SupplyLint.Pipeline.Field
import SupplyLint.Pipeline.Source

/-! Includes of GitLab configurations. A file of the repository is merged under the keys of the
configuration that includes it; projects and components become package references; anything else is
noted, since it is not part of the repository. -/
set_option autoImplicit false

namespace SupplyLint.Gitlab

open SupplyLint.Text

inductive Include
  | file (path : String)
  | package (ref : Option PackageRef)
  | elsewhere (what : String)
  | malformed

namespace Include

def elsewhereText (entries : Entries) : Except Fault String :=
  match ["remote", "template", "artifact"].find? (Value.hasField entries) with
  | some kind => do return kind ++ " include '" ++ (← (Value.field entries kind).toText) ++ "'"
  | none => do return "include " ++ (← (Value.map (Field.entries (.map entries))).toText)

def ofEntries (entries : Entries) : Except Fault Include :=
  if Value.hasField entries "local" then (Value.field entries "local").toText.map .file
  else if Value.hasField entries "project" then do
    let project ← (Value.field entries "project").toText
    return .package (PackageRef.ofGitlabProject project (Value.field entries "ref"))
  else if Value.hasField entries "component" then
    (Value.field entries "component").toText.map fun component =>
      .package (PackageRef.ofGitlabComponent component)
  else (elsewhereText entries).map .elsewhere

/-- A text is an address when it holds `://`, and else a file of the repository. -/
def ofValue : Value → Except Fault Include
  | .text target =>
    if contains target "://" then .ok (.elsewhere ("remote include '" ++ target ++ "'"))
    else .ok (.file target)
  | .map entries => ofEntries entries
  | _ => .ok .malformed

end Include

/-- Entries with what is included in them, and the packages met on the way. -/
structure Merged where
  entries : Entries
  references : List PackageRef := []

def noteInclude (path location message : String) : Noted Unit :=
  Noted.note .unresolved path message location

def malformedInclude (path location : String) : Noted Unit :=
  Noted.note .unknownField path "include entry is not a string or mapping" location

def elsewhereInclude (path location what : String) : Noted Unit :=
  noteInclude path location (what ++ " is not part of the repository and was not scanned")

def isHeader : Value → Bool
  | .map entries =>
    match (Field.entries (.map entries)).keys with
    | [key] => key == .text "spec"
    | _ => false
  | _ => false

/-- The mapping of a configuration file. A component puts a header document before it. -/
def configuration (path : String) (content : List UInt8) : Normalizing (Option Entries) := do
  match ← Source.documents path content with
  | none => return none
  | some values =>
    let present := values.filter fun value => match value with
      | .null => false
      | _ => true
    Source.mapping path
      (match present with
        | first :: second :: more => if isHeader first then second :: more else present
        | _ => present)

/-- Merges the included files from the first to the last; `enter` opens one of them. -/
def mergeList (enter : String → Normalizing (Option Merged)) (path : String) :
    List Value → Merged → Normalizing Merged
  | [], merged => pure merged
  | item :: rest, merged => do
    match ← Include.ofValue item with
    | .file target =>
      match ← enter target with
      | none => mergeList enter path rest merged
      | some file =>
        mergeList enter path rest
          ⟨Field.merge merged.entries file.entries, merged.references ++ file.references⟩
    | .package ref =>
      mergeList enter path rest { merged with references := merged.references ++ ref.toList }
    | .elsewhere what =>
      elsewhereInclude path "include" what
      mergeList enter path rest merged
    | .malformed =>
      malformedInclude path "include"
      mergeList enter path rest merged

def mergeWith (enter : String → Normalizing (Option Merged)) (path : String) (raw : Entries) :
    Normalizing Merged :=
  match Value.field raw "include" with
  | .null => pure ⟨raw, []⟩
  | field => do
    let merged ← mergeList enter path field.asList ⟨[], []⟩
    let body := Keyed.erase raw (.text "include")
    return { merged with entries := Field.merge merged.entries body }

/-- How the entries of an opened file are merged with what it includes, given the chain of files. -/
abbrev Merging := List String → Entries → Normalizing Merged

/-- Opens an included file. There is no way into it without a merging, nor when it is in the chain
of files through which it is reached. -/
def enterWith (resolve : Resolver) (path : String) (merging : Option Merging) (chain : List String)
    (written : String) : Normalizing (Option Merged) := do
  let target := String.ofList (written.toList.dropWhile (· = '/'))
  if contains target "*" then
    noteInclude path "include" ("wildcard include '" ++ target ++ "' is not supported")
    return none
  else
    match merging, chain.contains target with
    | some merge, false =>
      match ← resolve target with
      | none =>
        noteInclude path "include" ("included file '" ++ target ++ "' not found")
        return none
      | some content =>
        match ← configuration target content with
        | none => return none
        | some raw => some <$> merge (chain ++ [target]) raw
    | _, _ =>
      noteInclude path "include"
        ("include '" ++ target ++ "' is recursive or nested too deeply")
      return none

/-- Entries with what they include. `room` is the number of files that may still be opened below
them, and `path` the file that the problems are noted for. -/
def merge (resolve : Resolver) (path : String) : Nat → Merging
  | 0, chain, raw => mergeWith (enterWith resolve path none chain) path raw
  | room + 1, chain, raw =>
    mergeWith (enterWith resolve path (some (merge resolve path room)) chain) path raw

def enter (resolve : Resolver) (path : String) (chain : List String) (written : String) :
    Normalizing (Option Merged) :=
  match maxFiles - chain.length with
  | 0 => enterWith resolve path none chain written
  | room + 1 => enterWith resolve path (some (merge resolve path room)) chain written

end SupplyLint.Gitlab
