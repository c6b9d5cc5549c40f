import SupplyLint.Text.Split

/-! The kinds of YAML nodes. A plain scalar without a tag gets its kind from its text; the forms are
those of version 1.1, with octal and base sixty integers and many spellings of truth values. -/
set_option autoImplicit false

namespace SupplyLint.Yaml

open SupplyLint.Text

inductive Tag
  | null
  | bool
  | int
  | float
  | binary
  | timestamp
  | omap
  | pairs
  | set
  | str
  | seq
  | map
  | merge
  | value
  | other
  deriving DecidableEq, Inhabited

def Tag.space : String := "tag:yaml.org,2002:"

/-- The kind that a full tag names. -/
def Tag.ofName (name : String) : Tag :=
  match afterPrefix? Tag.space.toList name.toList with
  | none => .other
  | some label =>
    match String.ofList label with
    | "null" => .null
    | "bool" => .bool
    | "int" => .int
    | "float" => .float
    | "binary" => .binary
    | "timestamp" => .timestamp
    | "omap" => .omap
    | "pairs" => .pairs
    | "set" => .set
    | "str" => .str
    | "seq" => .seq
    | "map" => .map
    | "merge" => .merge
    | "value" => .value
    | _ => .other

namespace Plain

def isDigitOrLow (c : Char) : Bool :=
  c.isDigit || c = '_'

def dropSign : List Char → List Char
  | '+' :: rest => rest
  | '-' :: rest => rest
  | text => text

def isNumberRun : List Char → Bool
  | [] => false
  | c :: rest => c.isDigit && rest.all isDigitOrLow

def isSixtieth : List Char → Bool
  | [c] => c.isDigit
  | [a, b] => '0' ≤ a && a ≤ '5' && b.isDigit
  | _ => false

/-- Two or more parts between colons, all but the first below sixty. -/
def isSexagesimal (text : List Char) : Bool :=
  match pieces ':' text with
  | first :: second :: more => isNumberRun first && (second :: more).all isSixtieth
  | _ => false

def someAll (holds : Char → Bool) (text : List Char) : Bool :=
  !text.isEmpty && text.all holds

def isHexOrLow (c : Char) : Bool :=
  isDigitOrLow c || ('a' ≤ c && c ≤ 'f') || ('A' ≤ c && c ≤ 'F')

def isInt (text : List Char) : Bool :=
  match dropSign text with
  | ['0'] => true
  | '0' :: 'b' :: digits => someAll (fun c => c = '0' || c = '1' || c = '_') digits
  | '0' :: 'x' :: digits => someAll isHexOrLow digits
  | '0' :: digits => someAll (fun c => ('0' ≤ c && c ≤ '7') || c = '_') digits
  | body => isNumberRun body || isSexagesimal body

def isExponent : List Char → Bool
  | [] => true
  | c :: sign :: digits =>
    (c = 'e' || c = 'E') && (sign = '+' || sign = '-') && someAll Char.isDigit digits
  | _ => false

def isFraction (text : List Char) : Bool :=
  isExponent (text.dropWhile isDigitOrLow)

def isFloat (text : List Char) : Bool :=
  let infinities := [".inf", ".Inf", ".INF"].map String.toList
  let none := [".nan", ".NaN", ".NAN"].map String.toList
  let body := dropSign text
  infinities.contains body || none.contains text ||
    (match cutFirst '.' body with
      | some ([], after) =>
        (text.head? = some '.') && (after.head?.any Char.isDigit) && isFraction after
      | some (whole, after) =>
        (isNumberRun whole && isFraction after) ||
          (isSexagesimal whole && after.all isDigitOrLow)
      | Option.none => false)

def truths : List (List Char) :=
  ["yes", "Yes", "YES", "true", "True", "TRUE", "on", "On", "ON",
   "no", "No", "NO", "false", "False", "FALSE", "off", "Off", "OFF"].map String.toList

def nulls : List (List Char) :=
  ["~", "null", "Null", "NULL"].map String.toList

/-- The parts of a date with an optional time, each as its digits. -/
structure Stamp where
  year : List Char
  month : List Char
  day : List Char
  time : Option (List Char × List Char × List Char)
  fraction : List Char
  zone : Option (Option (Bool × List Char × List Char))

/-- At least and at most so many digits at the head. -/
def digits? (least most : Nat) (text : List Char) : Option (List Char × List Char) :=
  let run := (text.take most).takeWhile Char.isDigit
  if least ≤ run.length then some (run, text.drop run.length) else none

def expect (c : Char) (text : List Char) : Option (List Char) :=
  match text with
  | d :: rest => if c = d then some rest else none
  | [] => none

def zone? (text : List Char) : Option (Option (Option (Bool × List Char × List Char))) :=
  if text.isEmpty then some none
  else match text.dropWhile fun c => c = ' ' || c = '\t' with
    | ['Z'] => some (some none)
    | sign :: rest =>
      if sign = '+' || sign = '-' then do
        let (hours, rest) ← digits? 1 2 rest
        match rest with
        | [] => some (some (some (sign = '-', hours, [])))
        | ':' :: minutes =>
          let (minutes, rest) ← digits? 2 2 minutes
          if rest.isEmpty then some (some (some (sign = '-', hours, minutes))) else none
        | _ => none
      else none
    | [] => none

def dropTimeMark (text : List Char) : Option (List Char) :=
  match text with
  | 'T' :: rest => some rest
  | 't' :: rest => some rest
  | c :: rest =>
    if c = ' ' || c = '\t' then some (rest.dropWhile fun c => c = ' ' || c = '\t') else none
  | [] => none

/-- Reads a date with an optional time; one line break at the end does not count. -/
def stamp? (text : List Char) : Option Stamp := do
  let text := if text.getLast? = some '\n' then text.dropLast else text
  let (year, rest) ← digits? 4 4 text
  let (month, rest) ← digits? 1 2 (← expect '-' rest)
  let (day, rest) ← digits? 1 2 (← expect '-' rest)
  if rest.isEmpty then return ⟨year, month, day, none, [], none⟩
  let (hour, rest) ← digits? 1 2 (← dropTimeMark rest)
  let (minute, rest) ← digits? 2 2 (← expect ':' rest)
  let (second, rest) ← digits? 2 2 (← expect ':' rest)
  let (fraction, rest) := match rest with
    | '.' :: more => (more.takeWhile Char.isDigit, more.dropWhile Char.isDigit)
    | _ => ([], rest)
  let zone ← zone? rest
  return ⟨year, month, day, some (hour, minute, second), fraction, zone⟩

/-- A date alone needs two digits for the month and the day. -/
def isTimestamp (text : List Char) : Bool :=
  match stamp? text with
  | some stamp => stamp.time.isSome || (stamp.month.length == 2 && stamp.day.length == 2)
  | none => false

/-- The kind of a scalar by its text; one line break at its end does not count. -/
def kind (content : String) : Tag :=
  let text := content.toList
  let body := if text.getLast? = some '\n' then text.dropLast else text
  if text.isEmpty || nulls.contains body then .null
  else if truths.contains body then .bool
  else if isFloat body then .float
  else if isInt body then .int
  else if body = ['<', '<'] then .merge
  else if isTimestamp text then .timestamp
  else if body = ['='] then .value
  else if body = ['!'] || body = ['&'] || body = ['*'] then .other
  else .str

end Plain

end SupplyLint.Yaml
