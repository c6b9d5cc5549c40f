import SupplyLint.Failure
import SupplyLint.Finding
import SupplyLint.Text.Glob

/-! The configuration of a scan. Settings are values of any kind under their names; a configuration
is made of settings that make sense. Rules to ignore and patterns to exclude are kept as they are
given, and what is wrong with them shows where they are used. -/
set_option autoImplicit false

namespace SupplyLint

inductive Format
  | pretty
  | json
  | sarif
  deriving DecidableEq

def Format.all : List Format :=
  [.pretty, .json, .sarif]

def Format.text : Format → String
  | .pretty => "pretty"
  | .json => "json"
  | .sarif => "sarif"

def Format.ofText? (name : String) : Option Format :=
  all.find? (·.text == name)

structure Settings where
  severity : Value := .text "low"
  ignoreRules : Value := .list []
  exclude : Value := .list []
  threads : Value := .int 2
  outputFormat : Value := .text "pretty"
  verbose : Value := .bool false

namespace Settings

/-- The settings with a value under a name; only the names of settings are known. -/
def set (settings : Settings) (name : String) (value : Value) : Except Fault Settings :=
  match name with
  | "severity" => .ok { settings with severity := value }
  | "ignore_rules" => .ok { settings with ignoreRules := value }
  | "exclude" => .ok { settings with exclude := value }
  | "threads" => .ok { settings with threads := value }
  | "output_format" => .ok { settings with outputFormat := value }
  | "verbose" => .ok { settings with verbose := value }
  | _ => .error (.unknownOption name)

def setAll (settings : Settings) : List (String × Value) → Except Fault Settings
  | [] => .ok settings
  | (name, value) :: rest => do setAll (← settings.set name value) rest

end Settings

structure Config where
  severity : Severity := .low
  ignoreRules : Value := .list []
  exclude : Value := .list []
  threads : Value := .int 2
  parallelism : Nat := 2
  outputFormat : Format := .pretty
  verbose : Value := .bool false

namespace Config

/-- The number of threads: a positive integer, for which true counts as one. -/
def threadCount : Value → Option Nat
  | .bool true => some 1
  | .int n => if 1 ≤ n then some n.toNat else none
  | _ => none

def severityOf : Value → Option Severity
  | .text name => Severity.ofText? name
  | _ => none

def formatOf : Value → Option Format
  | .text name => Format.ofText? name
  | _ => none

def listed (names : List String) : String :=
  "(" ++ ", ".intercalate (names.map Text.quoted) ++ ")"

def invalid {α : Type} (what : String) (value : Value) (expected : String) : Except Failure α := do
  let shown ← value.quoted
  throw (.configuration ("Invalid " ++ what ++ " " ++ shown ++ ", expected " ++ expected))

def ofSettings (settings : Settings) : Except Failure Config :=
  match severityOf settings.severity with
  | none =>
    invalid "severity" settings.severity ("one of " ++ listed (Severity.all.map Severity.text))
  | some severity =>
    match threadCount settings.threads with
    | none => invalid "threads" settings.threads "a positive integer"
    | some parallelism =>
      match formatOf settings.outputFormat with
      | none =>
        invalid "format" settings.outputFormat ("one of " ++ listed (Format.all.map Format.text))
      | some format => .ok
        { severity := severity
          ignoreRules := settings.ignoreRules
          exclude := settings.exclude
          threads := settings.threads
          parallelism := parallelism
          outputFormat := format
          verbose := settings.verbose }

def settings (config : Config) : Settings :=
  { severity := .text config.severity.text
    ignoreRules := config.ignoreRules
    exclude := config.exclude
    threads := config.threads
    outputFormat := .text config.outputFormat.text
    verbose := config.verbose }

/-- The defaults with the given settings in their place. -/
def make (given : List (String × Value)) : Except Failure Config := do
  let settings ← uncaught (Settings.setAll {} given)
  ofSettings settings

def isGiven : Value → Bool
  | .null => false
  | _ => true

/-- A configuration with some settings replaced; a null value keeps what is there. -/
def withOverrides (config : Config) (overrides : List (String × Value)) :
    Except Failure Config := do
  let given := overrides.filter fun entry => isGiven entry.2
  ofSettings (← uncaught (config.settings.setAll given))

def patternMatches (path : String) : Value → Except Fault Bool
  | .text pattern => .ok (Text.Glob.accepts pattern path)
  | .bytes _ => .error .bytesPattern
  | value => .error (.notPath value.shortKind)

def anyPattern (path : String) : List Value → Except Fault Bool
  | [] => .ok false
  | pattern :: rest => do
    if ← patternMatches path pattern then return true
    else anyPattern path rest

def excludes (config : Config) (path : String) : Except Fault Bool := do
  anyPattern path (← config.exclude.elements)

end Config

end SupplyLint
