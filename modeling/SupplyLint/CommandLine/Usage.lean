import SupplyLint.Fault
import SupplyLint.Text.Split

/-! What is wrong with a command line, and how it is said. -/
set_option autoImplicit false

namespace SupplyLint.CommandLine

open SupplyLint.Text

inductive UsageError
  | noSuchOption (name : String) (alike : List String)
  | valueMissing (name : String)
  | valueUnexpected (name : String)
  | argumentMissing (name : String)
  | argumentsUnexpected (arguments : List String)
  | commandMissing
  | noSuchCommand (name : String)
  | notOneOf (name value : String) (allowed : List String)
  | notInteger (name value : String)
  | badArgument (name : String) (fault : Fault)

namespace UsageError

def quotedList (texts : List String) : String :=
  join ", " (texts.map quoted)

def hint : List String → String
  | [] => ""
  | [name] => " Did you mean " ++ name ++ "?"
  | names => " (Possible options: " ++ join ", " (names.mergeSort fun x y => !(y < x)) ++ ")"

def invalid (name what : String) : String :=
  "Invalid value for " ++ name ++ ": " ++ what

def message : UsageError → String
  | .noSuchOption name alike => "No such option: " ++ name ++ hint alike
  | .valueMissing name => "Option " ++ quoted name ++ " requires an argument."
  | .valueUnexpected name => "Option " ++ quoted name ++ " does not take a value."
  | .argumentMissing name => "Missing argument '" ++ name ++ "'."
  | .argumentsUnexpected [argument] => "Got unexpected extra argument (" ++ argument ++ ")"
  | .argumentsUnexpected arguments =>
    "Got unexpected extra arguments (" ++ join " " arguments ++ ")"
  | .commandMissing => "Missing command."
  | .noSuchCommand name => "No such command " ++ quoted name ++ "."
  | .notOneOf name value allowed =>
    invalid ("'" ++ name ++ "'") (quoted value ++ " is not one of " ++ quotedList allowed ++ ".")
  | .notInteger name value =>
    invalid ("'" ++ name ++ "'") (quoted value ++ " is not a valid integer.")
  | .badArgument name fault => invalid name fault.message

end UsageError

end SupplyLint.CommandLine
