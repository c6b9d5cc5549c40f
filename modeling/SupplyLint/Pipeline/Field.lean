import SupplyLint.Value.Text
import SupplyLint.Yaml.Load

/-! Reading the fields of a loaded document. A mapping has an entry for its own line, which is no
field and is left out wherever entries are walked through or shown. -/
set_option autoImplicit false

namespace SupplyLint.Field

open SupplyLint.Yaml (lineKey)

def isTextual : Value → Bool
  | .null => false
  | .map _ => false
  | _ => true

/-- A field that holds one text or a list of them. Null values and mappings are no texts; other
values count by their text. -/
def texts : Value → Except Fault (List String)
  | .null => .ok []
  | .map _ => .ok []
  | .list items | .tuple items => Value.toTexts (items.filter isTextual)
  | value => do return [← value.toText]

/-- The entries of a mapping without the one for its line; other values have none. -/
def entries : Value → Entries
  | .map all => all.filter fun entry => !(entry.1 == .text lineKey)
  | _ => []

/-- What a mapping has under the key for its line. -/
def lineEntry : Value → Value
  | .map all => Value.field all lineKey
  | _ => .null

def line (value : Value) : Option Int :=
  match lineEntry value with
  | .int n => some n
  | _ => none

def isMapping : Value → Bool
  | .map _ => true
  | _ => false

def byText (value : Value) : Except Fault (Keyed String Value) := do
  return Keyed.ofPairs (← (entries value).mapM fun entry => return (← entry.1.toText, entry.2))

mutual

/-- Merges the second mapping into the first. Its values win, except where both have a mapping:
these are merged in the same way. -/
def merge (base : Entries) : List (Value × Value) → Entries
  | [] => base
  | entry :: rest => merge (mergeEntry base entry) rest
termination_by structural entries => entries

def mergeEntry (base : Entries) : Value × Value → Entries
  | (key, value) => base.put key (mergeValue (base.get? key) value)
termination_by structural entry => entry

def mergeValue (below : Option Value) : Value → Value
  | .map upper =>
    match below with
    | some (.map lower) => .map (merge lower upper)
    | _ => .map upper
  | value => value
termination_by structural value => value

end

end SupplyLint.Field
