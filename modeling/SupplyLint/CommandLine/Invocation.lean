import SupplyLint.CommandLine.Arguments
import SupplyLint.Config
import SupplyLint.Decimal.Literal
import SupplyLint.Scan.Clone

/-! The commands and what they are asked to do. -/
set_option autoImplicit false

namespace SupplyLint.CommandLine

open SupplyLint.Text

/-- Scans a folder, a repository that is cloned for it, or all folders in a folder. -/
inductive ScanCommand
  | checkout
  | remote
  | organization
  deriving DecidableEq

namespace ScanCommand

def all : List ScanCommand :=
  [.checkout, .remote, .organization]

def name : ScanCommand → String
  | .checkout => "analyze-local"
  | .remote => "analyze-repo"
  | .organization => "analyze-org"

def ofName? (name : String) : Option ScanCommand :=
  all.find? (·.name == name)

def argumentName : ScanCommand → String
  | .remote => "REPO"
  | _ => "PATH"

def helpParameter : Parameter :=
  { name := "--help", takesValue := false }

def reportParameters : List Parameter :=
  [{ name := "--format" }, { name := "--severity" }, { name := "--threads" },
    { name := "--config" }, helpParameter]

def cloneParameters : List Parameter :=
  [{ name := "--ref" }, { name := "--token" }, { name := "--scm" }, { name := "--scm-base-url" }]

def parameters : ScanCommand → List Parameter
  | .remote => cloneParameters ++ reportParameters
  | _ => reportParameters

end ScanCommand

structure Choices where
  format : Format := .pretty
  severity : Option Severity := none
  threads : Option Int := none
  config : Option String := none
  ref : String := ""
  token : Option String := none
  host : Host := .github
  base : Option String := none

namespace Choices

def oneOf {α : Type} (name value : String) (known : List String) (found : Option α) :
    Except UsageError α :=
  match found with
  | some choice => .ok choice
  | none => .error (.notOneOf name value known)

def integer (name value : String) : Except UsageError Int :=
  let mistake := UsageError.notInteger name value
  if Decimal.maxDigits < Decimal.writtenDigits value.toList then .error mistake
  else match Decimal.readInteger 10 value.toList with
    | some number => .ok number
    | none => .error mistake

def set (choices : Choices) (name value : String) : Except UsageError Choices :=
  match name with
  | "--format" =>
    (oneOf name value (Format.all.map Format.text) (Format.ofText? value)).map
      fun format => { choices with format := format }
  | "--severity" =>
    (oneOf name value (Severity.all.map Severity.text) (Severity.ofText? value)).map
      fun severity => { choices with severity := some severity }
  | "--threads" => (integer name value).map fun threads => { choices with threads := some threads }
  | "--config" => .ok { choices with config := some value }
  | "--ref" => .ok { choices with ref := value }
  | "--token" => .ok { choices with token := some value }
  | "--scm" =>
    (oneOf name value (Host.all.map Host.text) (Host.ofText? value)).map
      fun host => { choices with host := host }
  | "--scm-base-url" => .ok { choices with base := some value }
  | _ => .ok choices

def setAll (choices : Choices) : List (String × String) → Except UsageError Choices
  | [] => .ok choices
  | (name, value) :: rest => do setAll (← choices.set name value) rest

/-- The settings that take the place of those of a configuration. -/
def overrides (choices : Choices) (verbose : Bool) : List (String × Value) :=
  [("severity", (choices.severity.map fun severity => .text severity.text).getD .null),
   ("threads", (choices.threads.map Value.int).getD .null),
   ("output_format", .text choices.format.text),
   ("verbose", .bool verbose)]

end Choices

structure Invocation where
  command : ScanCommand
  subject : String
  choices : Choices
  verbose : Bool

namespace Invocation

def parameters : List Parameter :=
  [{ name := "--verbose", takesValue := false, letter := some 'v' }, ScanCommand.helpParameter]

def asksHelp (read : Arguments) : Bool :=
  read.given.has "--help"

/-- What a command is asked to do; nothing if it is asked for help. Values are looked at in the
order in which the options were first given. -/
def ofCommand (command : ScanCommand) (verbose : Bool) (words : List String) :
    Except UsageError (Option Invocation) := do
  let read ← Arguments.read command.parameters false words
  if asksHelp read then return none
  let choices ← Choices.setAll {} read.given
  match read.words with
  | [] => throw (.argumentMissing command.argumentName)
  | [subject] => return some ⟨command, subject, choices, verbose⟩
  | _ :: extra => throw (.argumentsUnexpected extra)

/-- Whether a name starts with what may stand before an option. -/
def startsLikeOption (name : String) : Bool :=
  match name.toList with
  | c :: _ => c = '_' || !isWord c
  | [] => false

def unknownCommand (name : String) (rest : List String) :
    Except UsageError (Option Invocation) := do
  if startsLikeOption name then
    if rest.isEmpty then return none
    let read ← Arguments.read parameters true rest
    if asksHelp read then return none
  throw (.noSuchCommand name)

/-- What a command line asks to do; nothing if it asks for help. -/
def ofWords (words : List String) : Except UsageError (Option Invocation) := do
  if words.isEmpty then return none
  let read ← Arguments.read parameters true words
  if asksHelp read then return none
  match read.words with
  | [] => throw .commandMissing
  | name :: rest =>
    match ScanCommand.ofName? name with
    | some command => ofCommand command (read.given.has "--verbose") rest
    | none => unknownCommand name rest

end Invocation

end SupplyLint.CommandLine
