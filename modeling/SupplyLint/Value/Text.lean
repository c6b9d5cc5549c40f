import SupplyLint.Decimal.Literal
import SupplyLint.Decimal.Shortest
import SupplyLint.Value.Basic

/-! The text of values. A text is its own text; inside a collection it is quoted. The spelling of
the other kinds is fixed, because names, labels and messages are built from it. An integer with too
many digits has no text, nor has a collection that holds one. -/
set_option autoImplicit false

namespace SupplyLint.Value

/-- The digits of an integer, if there are not too many of them to read them back. -/
def integerText (n : Int) : Except Fault String :=
  if n.natAbs < Nat.pow 10 Decimal.maxDigits then .ok (toString n)
  else .error (.longText Decimal.maxDigits)

mutual

/-- The form of a value inside a collection. -/
def quoted : Value → Except Fault String
  | .null => .ok "None"
  | .bool b => .ok (if b then "True" else "False")
  | .int n => integerText n
  | .float x => .ok x.text
  | .text s => .ok (Text.quoted s)
  | .bytes data => .ok (Text.quotedBytes data)
  | .day date => .ok date.quoted
  | .moment time => .ok time.quoted
  | .list items => do return "[" ++ ", ".intercalate (← quotedItems items) ++ "]"
  | .tuple items => do
    match ← quotedItems items with
    | [item] => return "(" ++ item ++ ",)"
    | parts => return "(" ++ ", ".intercalate parts ++ ")"
  | .set items => do
    match ← quotedItems items with
    | [] => return "set()"
    | parts => return "\x7b" ++ ", ".intercalate parts ++ "\x7d"
  | .map entries => do return "\x7b" ++ ", ".intercalate (← quotedEntries entries) ++ "\x7d"
  | .enclosing .list => .ok "[...]"
  | .enclosing .map => .ok "\x7b...\x7d"
termination_by structural x => x

def quotedItems : List Value → Except Fault (List String)
  | [] => .ok []
  | item :: rest => do
    let first ← quoted item
    let others ← quotedItems rest
    return first :: others
termination_by structural x => x

def quotedEntries : List (Value × Value) → Except Fault (List String)
  | [] => .ok []
  | entry :: rest => do
    let first ← quotedEntry entry
    let others ← quotedEntries rest
    return first :: others
termination_by structural x => x

def quotedEntry : Value × Value → Except Fault String
  | (key, value) => do return (← quoted key) ++ ": " ++ (← quoted value)
termination_by structural x => x

end

def toText : Value → Except Fault String
  | .text s => .ok s
  | .day date => .ok date.text
  | .moment time => .ok time.text
  | value => value.quoted

def toTexts (values : List Value) : Except Fault (List String) :=
  values.mapM toText

end SupplyLint.Value
