import SupplyLint.Decimal.Literal
import SupplyLint.Text.Base64
import SupplyLint.Text.Case
import SupplyLint.Value.Basic
import SupplyLint.Yaml.Cursor
import SupplyLint.Yaml.Tag

/-! The values of YAML scalars by kind. A text that is no value of its kind is a fault, save for
bytes: there it is an error of the document. -/
set_option autoImplicit false

namespace SupplyLint.Yaml

open SupplyLint.Decimal SupplyLint.Text

def refuse {α : Type} (fault : Fault) : Reading α :=
  .error (.fault fault)

def numberText (text : List Char) : List Char :=
  text.filter (· ≠ '_')

/-- A number without its sign, and whether it is negative; there must be something to look at. -/
def signed (text : List Char) : Reading (Bool × List Char) :=
  match text with
  | [] => refuse .emptyNumber
  | '-' :: rest => .ok (true, rest)
  | '+' :: rest => .ok (false, rest)
  | _ => .ok (false, text)

def integerIn (base : Nat) (text : List Char) : Reading Int :=
  if base = 10 && maxDigits < writtenDigits text then refuse
    (.longInteger maxDigits (writtenDigits text))
  else match readInteger base text with
    | some number => .ok number
    | none => refuse (.badInteger base (String.ofList text))

/-- Digits between colons count sixty times as much as those after the next colon. -/
def sexagesimal (parts : List Int) : Int :=
  parts.foldl (fun number part => number * 60 + part) 0

def unsignedInt (text : List Char) : Reading Int :=
  match text with
  | [] => refuse .emptyNumber
  | ['0'] => .ok 0
  | '0' :: 'b' :: digits => integerIn 2 digits
  | '0' :: 'x' :: digits => integerIn 16 digits
  | '0' :: _ => integerIn 8 text
  | _ =>
    if text.contains ':' then ((pieces ':' text).mapM (integerIn 10)).map sexagesimal
    else integerIn 10 text

def intOf (content : String) : Reading Value := do
  let (negative, body) ← signed (numberText content.toList)
  let number ← unsignedInt body
  return .int (if negative then -number else number)

def floatIn (text : List Char) : Reading Binary64 :=
  match readFloat text with
  | some number => .ok number
  | none => refuse (.badFloat (String.ofList text))

/-- The parts from the last to the first, each counting sixty times as much as the one before it.
What a part counts must be a finite number. -/
def sexagesimalSum : Nat → Binary64 → List Binary64 → Reading Binary64
  | _, sum, [] => .ok sum
  | factor, sum, part :: more =>
    match Binary64.ofNat factor with
    | .infinite _ => refuse .floatOverflow
    | weight => sexagesimalSum (factor * 60) (sum.add (part.mul weight)) more

/-- A number with a point. What is no number has the given mark, save for `.nan`, which is always
the same. -/
def floatOf (mark : Nat) (content : String) : Reading Value := do
  let (negative, body) ← signed (lower (String.ofList (numberText content.toList))).toList
  let number ←
    if body = ".inf".toList then pure (Binary64.infinite false)
    else if body = ".nan".toList then pure (Binary64.nan 0)
    else if body.contains ':' then do
      let parts ← (pieces ':' body).mapM floatIn
      pure ((← sexagesimalSum 1 (.zero false) parts.reverse).withMark mark)
    else pure ((← floatIn body).withMark mark)
  return .float (if negative then number.negate else number)

def boolOf (content : String) : Reading Value :=
  let word := lower content
  if ["yes", "true", "on"].contains word then .ok (.bool true)
  else if ["no", "false", "off"].contains word then .ok (.bool false)
  else refuse (.missingKey (quoted word))

def binaryOf (content : String) : Reading Value :=
  let text := content.toList
  if text.all (·.toNat < 128) then
    match Base64.decode text with
    | some data => .ok (.bytes data)
    | none => .error .malformed
  else .error .malformed

def natOf (digits : List Char) : Nat :=
  digits.foldl (fun number c => number * 10 + (c.toNat - 48)) 0

def calendar {α : Type} : Except CalendarFault α → Reading α
  | .ok value => .ok value
  | .error fault => refuse (.calendar fault)

/-- A fraction of a second is cut to six digits. -/
def microseconds (fraction : List Char) : Nat :=
  natOf ((fraction ++ List.replicate 6 '0').take 6)

def zoneMinutes : Option (Bool × List Char × List Char) → Int
  | none => 0
  | some (west, hours, minutes) =>
    let span : Int := natOf hours * 60 + natOf minutes
    if west then -span else span

def timestampOf (content : String) : Reading Value :=
  match Plain.stamp? content.toList with
  | none => refuse (.noAttribute "NoneType" "groupdict")
  | some stamp =>
    let year := natOf stamp.year
    let month := natOf stamp.month
    let date := natOf stamp.day
    match stamp.time with
    | none => (calendar (Day.make year month date)).map .day
    | some (hour, minute, second) =>
      (calendar (Moment.make year month date (natOf hour) (natOf minute) (natOf second)
        (microseconds stamp.fraction) (stamp.zone.map zoneMinutes))).map .moment

/-- The value of a scalar of a kind. Kinds of collections and unknown ones have none. -/
def scalarValue (mark : Nat) (tag : Tag) (content : String) : Reading Value :=
  match tag with
  | .null => .ok .null
  | .bool => boolOf content
  | .int => intOf content
  | .float => floatOf mark content
  | .binary => binaryOf content
  | .timestamp => timestampOf content
  | .str => .ok (.text content)
  | _ => .error .malformed

def Tag.isScalar (tag : Tag) : Bool :=
  [.null, .bool, .int, .float, .binary, .timestamp, .str].contains tag

end SupplyLint.Yaml
