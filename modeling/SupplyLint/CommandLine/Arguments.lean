import SupplyLint.CommandLine.Usage
import SupplyLint.Keyed
import SupplyLint.Text.Resemblance

/-! The words of a command line, told apart into options and arguments. An option is written with
its name, and its value follows after an equals sign or as the next word, whatever that looks like.
Options without a value may have a letter, and letters may stand together. After `--` no word is an
option. -/
set_option autoImplicit false

namespace SupplyLint.CommandLine

open SupplyLint.Text

structure Parameter where
  name : String
  takesValue : Bool := true
  letter : Option Char := none

/-- The options that were given, each where it was first given and with its last value, and the
words that are no options. -/
structure Arguments where
  given : Keyed String String := []
  words : List String := []

/-- What an option says: all of it, or that its value is still to come. -/
inductive Use
  | whole (given : List (String × String))
  | awaits (name : String)

def isOption (word : String) : Bool :=
  match word.toList with
  | '-' :: _ :: _ => true
  | _ => false

def lettersOf (parameters : List Parameter) :
    List Char → Except UsageError (List (String × String))
  | [] => .ok []
  | c :: rest =>
    match parameters.find? (·.letter == some c) with
    | none => .error (.noSuchOption (String.ofList ['-', c]) [])
    | some parameter => (lettersOf parameters rest).map ((parameter.name, "") :: ·)

def nameAndValue (word : String) : String × Option String :=
  match cutFirst '=' word.toList with
  | some (name, value) => (String.ofList name, some (String.ofList value))
  | none => (word, none)

/-- Reads a word that is an option. Only one with a single dash may be made of letters. -/
def optionOf (parameters : List Parameter) (word : String) : Except UsageError Use :=
  let (name, value) := nameAndValue word
  match parameters.find? (·.name == name) with
  | some parameter =>
    match parameter.takesValue, value with
    | true, some value => .ok (.whole [(name, value)])
    | true, none => .ok (.awaits name)
    | false, some _ => .error (.valueUnexpected name)
    | false, none => .ok (.whole [(name, "")])
  | none =>
    if hasPrefix word "--" then
      .error (.noSuchOption name (closest name (parameters.map (·.name))))
    else (lettersOf parameters word.toList.tail).map .whole

/-- Reads words one after another. A command that passes the rest on to another one stops at the
first word that is no option. -/
def readFrom (parameters : List Parameter) (passesOn : Bool) :
    List String → Arguments → Except UsageError Arguments
  | [], read => .ok read
  | word :: rest, read =>
    if word == "--" then .ok { read with words := read.words ++ rest }
    else if isOption word then
      match optionOf parameters word with
      | .error mistake => .error mistake
      | .ok (.whole given) =>
        readFrom parameters passesOn rest { read with given := read.given.putAll given }
      | .ok (.awaits name) =>
        match rest with
        | [] => .error (.valueMissing name)
        | value :: more =>
          readFrom parameters passesOn more { read with given := read.given.put name value }
    else if passesOn then .ok { read with words := read.words ++ word :: rest }
    else readFrom parameters passesOn rest { read with words := read.words ++ [word] }

def Arguments.read (parameters : List Parameter) (passesOn : Bool) (words : List String) :
    Except UsageError Arguments :=
  readFrom parameters passesOn words {}

end SupplyLint.CommandLine
