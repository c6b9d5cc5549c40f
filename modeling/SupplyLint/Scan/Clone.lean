import SupplyLint.Scan.Checkout
import SupplyLint.Text.Base64
import SupplyLint.Text.Blank

/-! Repositories that are cloned before they are scanned. A repository is named by the address to
clone it from, or by the path that it has on a host. The clone is shallow, may take five minutes,
and never asks for a password; a token is handed over in the environment, where it is not shown with
the arguments. -/
set_option autoImplicit false

namespace SupplyLint

open SupplyLint.Text

inductive Host
  | github
  | gitlab
  deriving DecidableEq

namespace Host

def all : List Host :=
  [.github, .gitlab]

def text : Host → String
  | .github => "github"
  | .gitlab => "gitlab"

def ofText? (name : String) : Option Host :=
  all.find? (·.text == name)

def address : Host → String
  | .github => "https://github.com"
  | .gitlab => "https://gitlab.com"

def tokenUser : Host → String
  | .github => "x-access-token"
  | .gitlab => "oauth2"

end Host

namespace Clone

def isSlash (c : Char) : Bool :=
  c == '/'

def isAddress (repository : String) : Bool :=
  contains repository "://" || hasPrefix repository "git@"

/-- A path on a host has two parts at least, and none of them is empty. -/
def isSlug (slug : List Char) : Bool :=
  let parts := pieces '/' slug
  2 ≤ parts.length && parts.all (!·.isEmpty)

/-- The address on a host with the given base, or else with its usual one. -/
def slugAddress (host : Host) (base : Option String) (slug : List Char) : String :=
  let given := base.getD ""
  let chosen := if given.isEmpty then host.address else given
  String.ofList (trimEndBy isSlash chosen.toList ++ '/' :: slug ++ ".git".toList)

/-- The address to clone a repository from, which is given by an address or by its path on a
host. -/
def address (repository host : String) (base : Option String) : Except Fault String :=
  if isAddress repository then .ok repository
  else match Host.ofText? host with
    | none => .error (.unknownHost host)
    | some host =>
      let slug := trimBy isSlash repository.toList
      if isSlug slug then .ok (slugAddress host base slug) else .error (.notSlug repository)

def withoutEnding (text : String) : String :=
  match afterPrefix? ".git".toList.reverse text.toList.reverse with
  | some front => String.ofList front.reverse
  | none => text

def nameOf (url : String) : String :=
  withoutEnding (afterLast ':' (afterLast '/' (String.ofList (trimEndBy isSlash url.toList))))

/-- The variables that hand a token over; an unknown host is treated as the first one. -/
def authorization (token host : String) : List (String × String) :=
  let user := ((Host.ofText? host).getD .github).tokenUser
  let credentials := String.ofList (Base64.encode (shownText (user ++ ":" ++ token)).toUTF8.toList)
  [("GIT_CONFIG_COUNT", "1"),
   ("GIT_CONFIG_KEY_0", "http.extraHeader"),
   ("GIT_CONFIG_VALUE_0", "Authorization: Basic " ++ credentials)]

inductive Ending
  | done (files : Tree)
  | exited (complaint : Option String)
  | timedOut
  | notRun (complaint : String)

def timeout : Nat := 300

end Clone

structure Remote where
  url : String
  name : String := Clone.nameOf url
  ref : String := ""
  token : String := ""
  host : String := "github"

namespace Remote

/-- The place of the work directory, and what stands for it in a command. -/
def workdir : String := "<workdir>"

def command (remote : Remote) : Command :=
  { arguments :=
      ["git", "clone", "--depth", "1", "--quiet"] ++
        (if remote.ref.isEmpty then [] else ["--branch", remote.ref]) ++ [remote.url, workdir]
    timeout := Clone.timeout
    environment :=
      ("GIT_TERMINAL_PROMPT", "0") ::
        (if remote.token.isEmpty then [] else Clone.authorization remote.token remote.host) }

def checkout (remote : Remote) (files : Tree) : Checkout :=
  { tree := files, root := [workdir], name := remote.name }

def failed (remote : Remote) (complaint : String) : Failure :=
  .fetch ("git clone failed for " ++ remote.url ++ ": " ++ complaint) remote.name

def afterClone (remote : Remote) : Clone.Ending → List Happening
  | .done files => (remote.checkout files).happenings
  | .exited complaint => [.fail (remote.failed (trim (complaint.getD "")))]
  | .timedOut =>
    [.fail (.fetch ("git clone of " ++ remote.url ++ " timed out after " ++
      toString Clone.timeout ++ "s") remote.name)]
  | .notRun complaint => [.fail (remote.failed complaint)]

/-- What happens when the repository is asked for its files; while it is cloned, the scan may be
interrupted. -/
def happenings (remote : Remote) (ending : Clone.Ending) (interrupted : Bool) (hasWorkdir : Bool) :
    List Happening :=
  if hasWorkdir then
    [.check, .command remote.command] ++ (if interrupted then [.cancel] else []) ++
      remote.afterClone ending
  else [.fail (.fetch "GitRepository needs a working directory" remote.name)]

def repository (remote : Remote) (ending : Clone.Ending) (interrupted : Bool) : Repository :=
  { name := remote.name
    needsClone := true
    documents := remote.happenings ending interrupted
    read := match ending with
      | .done files => (remote.checkout files).read
      | _ => Source.none }

end Remote

end SupplyLint
