/-! Control sequences of a terminal: an escape character, an opening bracket, digits with some marks
between them, and a letter of the ASCII range. -/
set_option autoImplicit false

namespace SupplyLint.Text

def isParameterChar (c : Char) : Bool :=
  c.isDigit || c = ';' || c = '?'

/-- The length of the control sequence at the head of a text. -/
def sequenceLength? : List Char → Option Nat
  | '\x1b' :: '[' :: rest =>
    let parameters := rest.takeWhile isParameterChar
    match rest.drop parameters.length with
    | c :: _ => if c.isAlpha then some (parameters.length + 3) else none
    | [] => none
  | _ => none

/-- Leaves out the first `skipped` characters, and every control sequence after them. -/
def withoutSequencesFrom : Nat → List Char → List Char
  | _, [] => []
  | skipped + 1, _ :: rest => withoutSequencesFrom skipped rest
  | 0, c :: rest =>
    match sequenceLength? (c :: rest) with
    | some length => withoutSequencesFrom (length - 1) rest
    | none => c :: withoutSequencesFrom 0 rest

def withoutSequences (text : String) : String :=
  String.ofList (withoutSequencesFrom 0 text.toList)

end SupplyLint.Text
