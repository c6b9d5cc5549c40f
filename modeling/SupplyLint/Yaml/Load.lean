import SupplyLint.Text.Utf8
import SupplyLint.Yaml.View

/-! Reading YAML: the values of all documents of a stream, or of its only one. -/
set_option autoImplicit false

namespace SupplyLint.Yaml

open SupplyLint.Text

def detail : String := "<detail>"

/-- The values of the documents of a stream. A document is made before the next one is read. -/
def documentValues (marked : Bool) : List Document → Option ReadFailure → Reading (List Value)
  | [], none => .ok []
  | [], some failure => .error failure
  | document :: rest, failure => do
    let value ← document.value marked
    let others ← documentValues marked rest failure
    return value :: others

/-- Control characters, surrogates and the last two code points of the basic plane are refused. -/
def isAllowed (c : Char) : Bool :=
  c = '\t' || c = '\n' || c = '\r' || c = '\x85' ||
    (' ' ≤ c && c ≤ '~') || ('\xa0' ≤ c && c ≤ '\ufffd') ||
    0x10000 ≤ c.toNat

/-- The characters of a stream: UTF-16 after a byte order mark, and UTF-8 otherwise. -/
def decodeStream (bytes : List UInt8) : Reading (List Char) :=
  let decoded := match bytes with
    | 0xff :: 0xfe :: _ => decodeUtf16 true bytes
    | 0xfe :: 0xff :: _ => decodeUtf16 false bytes
    | _ => (decodeUtf8 bytes).toOption
  match decoded with
  | none => .error .malformed
  | some stream => if stream.all isAllowed then .ok stream else .error .malformed

/-- All documents of a stream, with the lines of their mappings. -/
def load (bytes : List UInt8) : Reading (List Value) := do
  let stream ← decodeStream bytes
  let (found, failure) := documents stream
  documentValues true found failure

/-- The value of the only document of a text, the null value where there is none. -/
def loadSingle (stream : List Char) : Reading Value := do
  if !stream.all isAllowed then throw .malformed
  match ← onlyDocument? stream with
  | none => return .null
  | some document => document.value false

end SupplyLint.Yaml
