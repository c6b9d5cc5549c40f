import SupplyLint.Pipeline.Basic
import SupplyLint.Text.Scan

/-! Expressions and variables in text. A GitHub expression goes from a dollar sign with two opening
braces to the first two closing ones; a GitLab variable is written `$NAME`, `${NAME}` or
`%NAME%`. -/
set_option autoImplicit false

namespace SupplyLint.Rule

open SupplyLint.Text

def opening : List Char := ['$', '{', '{']

def closing : List Char := ['}', '}']

/-- The text at the head up to a rest. -/
def upTo (text rest : List Char) : List Char × Nat :=
  let width := text.length - rest.length
  (text.take width, width)

def expressionFinder : Finder (List Char) := fun text => do
  let inside ← afterPrefix? opening text
  let rest ← afterFirst? closing inside
  return upTo text rest

def isNameChar (c : Char) : Bool :=
  c.isAlphanum || c = '_'

def afterName : List Char → Option (List Char)
  | [] => none
  | c :: rest => if isNameLetter c then some (rest.dropWhile isNameChar) else none

def dropOne (c : Char) : List Char → List Char
  | [] => []
  | d :: rest => if c = d then rest else d :: rest

def variableFinder : Finder (List Char)
  | '$' :: rest => do
    let after ← afterName (dropOne '{' rest)
    return upTo ('$' :: rest) (dropOne '}' after)
  | '%' :: rest => do
    match ← afterName rest with
    | '%' :: after => return upTo ('%' :: rest) after
    | _ => none
  | _ => none

def expressions (text : String) : List (List Char) :=
  scan expressionFinder text.toList

def variableNames (text : String) : List (List Char) :=
  scan variableFinder text.toList

/-- The expressions of a text, or its variables on GitLab. -/
def expressionsIn (text : String) (platform : Platform) : List (List Char) :=
  if platform.isGitlab then variableNames text else expressions text

def expressionsOf (value : Value) (platform : Platform) : List String :=
  match value with
  | .text text => (expressionsIn text platform).map String.ofList
  | _ => []

def hasExpression : Value → Bool
  | .text s => !(expressions s).isEmpty || !(variableNames s).isEmpty
  | _ => false

end SupplyLint.Rule
