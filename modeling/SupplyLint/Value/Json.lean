import SupplyLint.Decimal.Shortest
import SupplyLint.Json
import SupplyLint.Value.Text

/-! Values as JSON. Dates, byte strings and sets have no JSON form, nor have keys other than texts,
numbers, truth values and the null value; an integer has one if it has a text. The first fault in
the order of the text is reported. -/
set_option autoImplicit false

namespace SupplyLint.Value

open SupplyLint.Decimal

def floatJson : Binary64 → String
  | .nan _ => "NaN"
  | .infinite negative => if negative then "-Infinity" else "Infinity"
  | x => x.text

def keyText : Value → Except Fault String
  | .text s => .ok s
  | .float x => .ok (floatJson x)
  | .bool b => .ok (if b then "true" else "false")
  | .null => .ok "null"
  | .int n => integerText n
  | key => .error (.keyNotWritable key.shortKind)

mutual

def toJson : Value → Except Fault Json
  | .null => .ok .null
  | .bool b => .ok (.bool b)
  | .int n => (integerText n).map .number
  | .float x => .ok (.number (floatJson x))
  | .text s => .ok (.string s)
  | .list items | .tuple items => (itemsJson items).map .array
  | .map entries => (entriesJson entries).map .object
  | .bytes data => .error (.notWritable (shortKind (.bytes data)))
  | .day date => .error (.notWritable (shortKind (.day date)))
  | .moment time => .error (.notWritable (shortKind (.moment time)))
  | .set items => .error (.notWritable (shortKind (.set items)))
  | .enclosing _ => .error .circular
termination_by structural x => x

def itemsJson : List Value → Except Fault (List Json)
  | [] => .ok []
  | item :: rest => do
    let first ← toJson item
    let others ← itemsJson rest
    return first :: others
termination_by structural x => x

def entriesJson : List (Value × Value) → Except Fault (List (String × Json))
  | [] => .ok []
  | entry :: rest => do
    let first ← entryJson entry
    let others ← entriesJson rest
    return first :: others
termination_by structural x => x

def entryJson : Value × Value → Except Fault (String × Json)
  | (key, value) => do
    let name ← keyText key
    let json ← toJson value
    return (name, json)
termination_by structural x => x

end

end SupplyLint.Value
