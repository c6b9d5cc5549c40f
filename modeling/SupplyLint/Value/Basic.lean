import SupplyLint.Calendar
import SupplyLint.Decimal.Binary64
import SupplyLint.Fault
import SupplyLint.Keyed
import SupplyLint.Text.Split

/-! Values as a document gives them: scalars of several kinds, sequences, sets, and mappings whose
entries keep the order of the text. Numbers are equal across kinds, so 1, 1.0 and true are one
key. -/
set_option autoImplicit false

namespace SupplyLint

open SupplyLint.Decimal

/-- The collections that can be inside themselves. -/
inductive Shape
  | list
  | map
  deriving DecidableEq, Inhabited

/-- A collection inside itself is written down only once: there `enclosing` stands for it. -/
inductive Value
  | null
  | bool (b : Bool)
  | int (n : Int)
  | float (x : Binary64)
  | text (s : String)
  | bytes (data : List UInt8)
  | day (date : Day)
  | moment (time : Moment)
  | list (items : List Value)
  | tuple (items : List Value)
  | set (items : List Value)
  | map (entries : List (Value × Value))
  | enclosing (shape : Shape)
  deriving Inhabited

namespace Value

/-- The full name of a value's kind, as messages about operations give it. -/
def kind : Value → String
  | .null => "NoneType"
  | .bool _ => "bool"
  | .int _ => "int"
  | .float _ => "float"
  | .text _ => "str"
  | .bytes _ => "bytes"
  | .day _ => "datetime.date"
  | .moment _ => "datetime.datetime"
  | .list _ => "list"
  | .tuple _ => "tuple"
  | .set _ => "set"
  | .map _ => "dict"
  | .enclosing .list => "list"
  | .enclosing .map => "dict"

/-- The short name of a value's kind, as messages about writing and paths give it. -/
def shortKind : Value → String
  | .day _ => "date"
  | .moment _ => "datetime"
  | value => value.kind

/-- The number that a value is equal to: an integer, or a float that is no integer. -/
def number? : Value → Option (Int ⊕ Binary64)
  | .bool b => some (.inl (if b then 1 else 0))
  | .int n => some (.inl n)
  | .float x =>
    match x.toInt? with
    | some n => some (.inl n)
    | none => some (.inr x)
  | _ => none

mutual

/-- Equality of values: numbers by what they count, moments by the instant they name, and the rest
by kind and content. -/
def same : Value → Value → Bool
  | .null, .null => true
  | .text s, .text t => s == t
  | .bytes a, .bytes b => a == b
  | .day a, .day b => a == b
  | .moment a, .moment b => a.same b
  | .list xs, .list ys => sameItems xs ys
  | .tuple xs, .tuple ys => sameItems xs ys
  | .set xs, .set ys => sameItems xs ys
  | .map xs, .map ys => sameEntries xs ys
  | a, b =>
    match a.number?, b.number? with
    | some (.inl x), some (.inl y) => x == y
    | some (.inr x), some (.inr y) => x == y
    | _, _ => false
termination_by structural x => x

def sameItems : List Value → List Value → Bool
  | [], [] => true
  | x :: xs, y :: ys => same x y && sameItems xs ys
  | _, _ => false
termination_by structural xs => xs

def sameEntries : List (Value × Value) → List (Value × Value) → Bool
  | [], [] => true
  | x :: xs, y :: ys => sameEntry x y && sameEntries xs ys
  | _, _ => false
termination_by structural xs => xs

def sameEntry : Value × Value → Value × Value → Bool
  | (k, v), (l, w) => same k l && same v w
termination_by structural x => x

end

instance : BEq Value := ⟨same⟩

def isNull : Value → Bool
  | .null => true
  | _ => false

/-- The items of a list, or the one value itself. -/
def asList : Value → List Value
  | .list items => items
  | item => [item]

/-- False of the null value, of false, of zero, and of what is empty. -/
def present : Value → Bool
  | .null => false
  | .bool b => b
  | .int n => n != 0
  | .float x => x.toInt? != some 0
  | .text s => s != ""
  | .bytes data => !data.isEmpty
  | .day _ | .moment _ => true
  | .list items | .tuple items | .set items => !items.isEmpty
  | .map entries => !entries.isEmpty
  | .enclosing _ => true

/-- True of the null value and of what has a length of zero. -/
def isEmpty : Value → Bool
  | .null => true
  | .text s => s == ""
  | .bytes data => data.isEmpty
  | .list items | .tuple items | .set items => items.isEmpty
  | .map entries => entries.isEmpty
  | _ => false

/-- Whether a value can be the key of a mapping. -/
def isHashable : Value → Bool
  | .list _ | .set _ | .map _ | .enclosing _ => false
  | _ => true

def orNull (value : Value) : Value :=
  if value.present then value else .null

/-- What a value consists of when it is walked through: items, keys, characters or bytes. -/
def elements : Value → Except Fault (List Value)
  | .list items | .tuple items | .set items => .ok items
  | .map entries => .ok (Keyed.keys entries)
  | .text s => .ok ((Text.codes s.toList).map fun code => .text (String.ofList code.kept))
  | .bytes data => .ok (data.map fun byte => .int byte.toNat)
  | value => .error (.notIterable value.kind)

/-- Whether a text is in a value: an item, a key, or a part of a text. -/
def holds (container : Value) (item : String) : Except Fault Bool :=
  match container with
  | .list items | .tuple items | .set items => .ok (items.any (· == .text item))
  | .map entries => .ok (Keyed.has entries (.text item))
  | .text s => .ok (Text.contains s item)
  | .bytes _ => .error .bytesMembers
  | value => .error (.noMembers value.kind)

def searchable : Value → Except Fault String
  | .text s => .ok s
  | .bytes _ => .error .bytesSearched
  | value => .error (.notSearchable value.kind)

/-- The entry of a mapping under a name; the null value where there is none. -/
def field (entries : Keyed Value Value) (name : String) : Value :=
  (entries.get? (.text name)).getD .null

def hasField (entries : Keyed Value Value) (name : String) : Bool :=
  entries.has (.text name)

end Value

abbrev Entries := Keyed Value Value

end SupplyLint
