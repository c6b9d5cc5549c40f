import SupplyLint.CommandLine.Invocation
import SupplyLint.ConfigFile
import SupplyLint.Report.Console
import SupplyLint.Report.Sarif
import SupplyLint.Report.Structured
import SupplyLint.Rule.Standard
import SupplyLint.Text.ControlSequence

/-! What a command line does. It ends with status 0 without findings, 1 with findings, 2 after an
error and 130 after an interrupt. The first interrupt lets the scan end early, and each later one
ends the program at once. A failure that is not reported as an error is handed to the caller, with
status 1. -/
set_option autoImplicit false

namespace SupplyLint.CommandLine

open SupplyLint.Text

/-- What a program finds when it runs: the tree of files, the folder it works in, the token in its
environment, how a clone ends, and the interrupts that come during a clone or a listing. -/
structure Surroundings where
  tree : Tree
  working : Place
  token : String := ""
  clone : Clone.Ending := .done {}
  cloneInterrupts : Nat := 0
  listingInterrupts : Nat := 0

inductive Call
  | command (command : Command)
  | hardExit (status : Nat)

structure Exit where
  status : Nat
  out : String := ""
  err : String := ""
  calls : List Call := []
  failure : Option Failure := none

def okStatus : Nat := 0
def findingsStatus : Nat := 1
def errorStatus : Nat := 2
def interruptStatus : Nat := 130

/-- Control sequences do not reach the error output. -/
def errorLine (message : String) : String :=
  withoutSequences ("Error: " ++ message ++ "\n")

def Exit.error (message : String) : Exit :=
  { status := errorStatus, err := errorLine message }

def Exit.uncaught (failure : Failure) : Exit :=
  { status := findingsStatus, failure := some failure }

def interruptNotice : String :=
  "Interrupted, cleaning up (press Ctrl+C again to force exit)...\n"

/-- What a scan came to, with the commands that were run and the interrupts that came. -/
structure Scanned where
  outcomes : Except Failure (List Outcome)
  commands : List Command := []
  interrupts : Nat := 0

namespace Scanned

def isInterrupted (scanned : Scanned) : Bool :=
  0 < scanned.interrupts

def notices (scanned : Scanned) : String :=
  String.join (List.replicate scanned.interrupts interruptNotice)

def calls (scanned : Scanned) : List Call :=
  scanned.commands.map .command ++
    List.replicate (scanned.interrupts - 1) (.hardExit interruptStatus)

def report (format : Format) (outcomes : List Outcome) : Except Fault String :=
  match format with
  | .pretty => Report.Console.report outcomes
  | .json => Report.Structured.text outcomes
  | .sarif => Report.Sarif.text outcomes

def hasFindings (outcomes : List Outcome) : Bool :=
  outcomes.any fun outcome => !outcome.findings.isEmpty

def status (scanned : Scanned) (outcomes : List Outcome) : Nat :=
  if scanned.isInterrupted then interruptStatus
  else if hasFindings outcomes then findingsStatus
  else okStatus

def isReported (failure : Failure) : Bool :=
  failure.isFetch || failure.isConfiguration

/-- The end after a scan, before what was shown and called while it ran. -/
def ending (format : Format) (scanned : Scanned) : Exit :=
  match scanned.outcomes with
  | .error failure =>
    if isReported failure then
      { status := if scanned.isInterrupted then interruptStatus else errorStatus
        err := errorLine failure.message }
    else .uncaught failure
  | .ok outcomes =>
    match report format outcomes with
    | .error fault => .uncaught (.fault fault)
    | .ok text => { status := scanned.status outcomes, out := text ++ "\n" }

def exit (format : Format) (scanned : Scanned) : Exit :=
  let ending := scanned.ending format
  { ending with err := scanned.notices ++ ending.err, calls := scanned.calls }

end Scanned

namespace Invocation

def configuration (surroundings : Surroundings) (invocation : Invocation)
    (scanned : Option String) : Except Failure Config := do
  let config ← ConfigFile.load surroundings.tree surroundings.working
      invocation.choices.config scanned
  config.withOverrides (invocation.choices.overrides invocation.verbose)

def scanWith (surroundings : Surroundings) (invocation : Invocation) (scanned : Option String)
    (scan : Config → Scanned) : Exit :=
  match invocation.configuration surroundings scanned with
  | .error failure =>
    if failure.isConfiguration then .error failure.message else .uncaught failure
  | .ok config => (scan config).exit config.outputFormat

def scanCheckout (surroundings : Surroundings) (root : Place) (config : Config) : Scanned :=
  let checkout : Checkout := { tree := surroundings.tree, root := root }
  let (_, outcome) := Scan.scanRepository config Rule.standard.rules checkout.repository false {}
  { outcomes := outcome.map fun outcome => [outcome] }

def scanFolders (surroundings : Surroundings) (root : Place) (config : Config) : Scanned :=
  let (_, outcomes) :=
    Scan.scanOrganization config Rule.standard.rules config.parallelism
      (Checkout.listing surroundings.tree root) (0 < surroundings.listingInterrupts) []
  { outcomes := outcomes, interrupts := surroundings.listingInterrupts }

def scanRemote (surroundings : Surroundings) (remote : Remote) (config : Config) : Scanned :=
  let repository := remote.repository surroundings.clone (0 < surroundings.cloneInterrupts)
  let (scene, outcome) := Scan.scanRepository config Rule.standard.rules repository false {}
  { outcomes := outcome.map fun outcome => [outcome]
    commands := scene.commands
    interrupts := if scene.commands.isEmpty then 0 else surroundings.cloneInterrupts }

def runFolder (surroundings : Surroundings) (invocation : Invocation)
    (scan : Place → Config → Scanned) : Exit :=
  let path := (WrittenPath.ofText invocation.subject).resolved surroundings.working
  if surroundings.tree.isFolder path.names then
    invocation.scanWith surroundings (some path.text) (scan path.names)
  else .error ("'" ++ path.text ++ "' is not a directory.")

def runRemote (surroundings : Surroundings) (invocation : Invocation) : Exit :=
  let choices := invocation.choices
  match Clone.address invocation.subject choices.host.text choices.base with
  | .error fault =>
    .error (UsageError.badArgument invocation.command.argumentName fault).message
  | .ok url =>
    let remote : Remote :=
      { url := url
        ref := choices.ref
        token := choices.token.getD surroundings.token
        host := choices.host.text }
    invocation.scanWith surroundings none (scanRemote surroundings remote)

def run (surroundings : Surroundings) (invocation : Invocation) : Exit :=
  match invocation.command with
  | .checkout => invocation.runFolder surroundings (scanCheckout surroundings)
  | .organization => invocation.runFolder surroundings (scanFolders surroundings)
  | .remote => invocation.runRemote surroundings

end Invocation

def run (surroundings : Surroundings) (words : List String) : Exit :=
  match Invocation.ofWords words with
  | .error mistake => .error mistake.message
  | .ok none => { status := okStatus }
  | .ok (some invocation) => invocation.run surroundings

end SupplyLint.CommandLine
