import SupplyLint.Text.Blank
import SupplyLint.Text.Split
import SupplyLint.Value.Text

/-! References to packages that a pipeline takes from elsewhere: actions, container images and
GitLab projects. A reference is written as a package address

pkg:<scheme>/<name>@<ref>#<subpath>

with the last two parts optional. It is pinned only by the hash of what it names: a commit hash of
forty lower case hexadecimal digits, or for images the digest `sha256:` with sixty-four of them. The
ref is kept as the document gives it, so it need not be a text. -/
set_option autoImplicit false

namespace SupplyLint

open SupplyLint.Text

structure PackageRef where
  scheme : String
  name : String
  ref : Value := .null
  subpath : Option String := none
  deriving Inhabited

namespace PackageRef

def actionScheme : String := "githubactions"

def imageScheme : String := "docker"

def gitlabScheme : String := "gitlab"

def isLowerHex (c : Char) : Bool :=
  ('0' ≤ c && c ≤ '9') || ('a' ≤ c && c ≤ 'f')

def isCommitHash (text : String) : Bool :=
  text.toList.length == 40 && text.toList.all isLowerHex

def isImageDigest (text : String) : Bool :=
  match afterPrefix? "sha256:".toList text.toList with
  | some digits => digits.length == 64 && digits.all isLowerHex
  | none => false

/-- Whether a ref is present and a text of the given form; other kinds of value are refused. -/
def refHas (form : String → Bool) (ref : Value) : Except Fault Bool :=
  if ref.present then ref.searchable.map form else .ok false

def pinnedByCommit (ref : Value) : Except Fault Bool :=
  refHas isCommitHash ref

def pinnedByDigest (ref : Value) : Except Fault Bool :=
  refHas isImageDigest ref

def isPinned (package : PackageRef) : Except Fault Bool :=
  if package.scheme = imageScheme then pinnedByDigest package.ref else pinnedByCommit package.ref

/-- True if a variable or an expression stands in the name or the ref. -/
def isTemplated (package : PackageRef) : Except Fault Bool :=
  if contains package.name "$" then .ok true
  else if package.ref.present then package.ref.holds "$"
  else .ok false

def address (package : PackageRef) : Except Fault String := do
  let ref ← if package.ref.present then package.ref.toText.map ("@" ++ ·) else pure ""
  let subpath := match package.subpath with
    | none => ""
    | some subpath => if subpath = "" then "" else "#" ++ subpath
  return "pkg:" ++ package.scheme ++ "/" ++ package.name ++ ref ++ subpath

/-- A text as an optional part: an empty one is left out. -/
def part (text : List Char) : Option String :=
  if text.isEmpty then none else some (String.ofList text)

def refPart : Option (List Char) → Value
  | none => .null
  | some [] => .null
  | some text => .text (String.ofList text)

/-- What stands before the last `@` and, if there is one, after it. -/
def splitRef (text : List Char) : List Char × Option (List Char) :=
  match cutLast '@' text with
  | some (before, after) => (before, some after)
  | none => (text, none)

def parse (address : String) : Except Fault PackageRef :=
  match afterPrefix? "pkg:".toList address.toList with
  | none => .error (.notPackage address)
  | some body =>
    if !body.contains '/' then .error (.notPackage address)
    else
      let (body, subpath) := match cutFirst '#' body with
        | some (before, after) => (before, part after)
        | none => (body, none)
      match cutFirst '/' body with
      | none => .error .noPackageName
      | some (scheme, rest) =>
        let (name, ref) := splitRef rest
        if scheme.isEmpty || name.isEmpty then .error (.notPackage address)
        else .ok ⟨String.ofList scheme, String.ofList name, refPart ref, subpath⟩

/-- An image name without its tag, and the tag. A colon before the last slash belongs to a port. -/
def splitTag (image : List Char) : List Char × Option (List Char) :=
  match cutLast ':' image with
  | some (before, after) => if after.contains '/' then (image, none) else (before, some after)
  | none => (image, none)

/-- The reference that an image text makes; a tag beside a digest is dropped. -/
def ofImage (text : String) : Option PackageRef :=
  let image := trimBy isBlank text.toList
  let (name, ref) := match cutFirst '@' image with
    | some (before, after) => ((splitTag before).1, some after)
    | none => splitTag image
  if name.isEmpty then none
  else some { scheme := imageScheme, name := String.ofList name, ref := refPart ref }

/-- The reference that an action text makes: `<owner>/<repository>[/<subpath>][@<ref>]` or an image
after `docker://`. Actions of the same repository make none. -/
def ofAction (text : String) : Option PackageRef :=
  let uses := trim text
  if uses = "" || hasPrefix uses "./" || hasPrefix uses "../" then none
  else match afterPrefix? "docker://".toList uses.toList with
    | some image => ofImage (String.ofList image)
    | none =>
      let (path, ref) := splitRef uses.toList
      match pieces '/' path with
      | owner :: repository :: more =>
        if owner.isEmpty || repository.isEmpty then none
        else some
          { scheme := actionScheme
            name := String.ofList owner ++ "/" ++ String.ofList repository
            ref := refPart ref
            subpath := part ("/".intercalate (more.map String.ofList)).toList }
      | _ => none

/-- The reference to a GitLab project; slashes around its path do not count. -/
def ofGitlabProject (project : String) (ref : Value) : Option PackageRef :=
  let name := trimChars ['/'] (trim project)
  if name = "" then none
  else some { scheme := gitlabScheme, name := name, ref := ref.orNull }

/-- The reference to a GitLab component; a first segment with a dot is the host and is dropped. -/
def ofGitlabComponent (text : String) : Option PackageRef :=
  let component := trimBy isBlank text.toList
  if component.isEmpty then none
  else
    let (path, ref) := splitRef component
    let segments := pieces '/' path
    let kept := match segments with
      | host :: next :: more => if host.contains '.' then next :: more else segments
      | _ => segments
    ofGitlabProject ("/".intercalate (kept.map String.ofList))
      (ref.elim .null fun text => .text (String.ofList text))

/-- The text of a field that a reference is made from; an absent one is the empty text. -/
def sourceText (field : Value) : Except Fault String :=
  match field with
  | .text s => .ok s
  | value => if value.present then .error (.noAttribute value.kind "strip") else .ok ""

end PackageRef

end SupplyLint
