import SupplyLint.Decimal.Binary64
import SupplyLint.Text.Blank
import SupplyLint.Text.Word

/-! Reading numbers. Digits may be of any script, single underscores may stand between digits, and
blanks around a number do not count, save that an information separator is no blank here. -/
set_option autoImplicit false

namespace SupplyLint.Decimal

open SupplyLint.Text

/-- Blanks around a number: all but the four information separators. -/
def isMargin (c : Char) : Bool :=
  isBlank c && !(0x1c ≤ c.toNat && c.toNat ≤ 0x1f)

/-- A digit of any script as the ASCII digit of its value. -/
def plainDigit (c : Char) : Char :=
  match digitValue? c with
  | some value => Char.ofNat (48 + value)
  | none => c

/-- What is written of a number, without blanks around it and with ASCII digits. -/
def numeral (text : List Char) : List Char :=
  (trimBy isMargin text).map plainDigit

def digitOf? (base : Nat) (c : Char) : Option Nat :=
  let code := c.toLower.toNat
  let value :=
    if c.isDigit then some (code - 48)
    else if 97 ≤ code && code ≤ 102 then some (code - 87)
    else none
  value.filter (· < base)

/-- Digits with single underscores between them; `opened` says that a digit came just before. -/
def readDigits (base : Nat) : Bool → Nat → List Char → Option Nat
  | opened, number, [] => if opened then some number else none
  | opened, number, c :: rest =>
    if c = '_' then if opened then readDigits base false number rest else none
    else match digitOf? base c with
      | some digit => readDigits base true (number * base + digit) rest
      | none => none

def takeSign : List Char → Bool × List Char
  | '-' :: rest => (true, rest)
  | '+' :: rest => (false, rest)
  | text => (false, text)

def baseLetter : Nat → Option Char
  | 2 => some 'b'
  | 8 => some 'o'
  | 16 => some 'x'
  | _ => none

/-- The text after `0b`, `0o` or `0x` where that is the mark of the base, one underscore
included. -/
def dropBaseMark (base : Nat) (text : List Char) : List Char :=
  match text with
  | '0' :: letter :: rest =>
    if baseLetter base = some letter.toLower then
      match rest with
      | '_' :: more => more
      | _ => rest
    else text
  | _ => text

def readInteger (base : Nat) (text : List Char) : Option Int :=
  let (negative, body) := takeSign (numeral text)
  (readDigits base false 0 (dropBaseMark base body)).map fun number =>
    if negative then -(number : Int) else number

/-- The number of decimal digits that an integer is written with. -/
def writtenDigits (text : List Char) : Nat :=
  let body := (takeSign (numeral text)).2
  ((body.takeWhile fun c => c = '_' || (digitOf? 10 c).isSome).filter (· ≠ '_')).length

/-- A decimal integer has at most this many digits, whether it is read or written. -/
def maxDigits : Nat := 4300

/-- The digits at the head with their number and value, an underscore only between two of them. -/
def takeDigits (count number : Nat) : List Char → Nat × Nat × List Char
  | [] => (count, number, [])
  | c :: rest =>
    match digitOf? 10 c with
    | some digit => takeDigits (count + 1) (number * 10 + digit) rest
    | none => (count, number, c :: rest)

/-- Underscores are taken out where a digit stands on both sides; elsewhere the text is no
number. -/
def dropUnderscores : List Char → Option (List Char)
  | [] => some []
  | ['_'] => none
  | '_' :: _ => none
  | a :: '_' :: b :: rest =>
    if (digitOf? 10 a).isSome && (digitOf? 10 b).isSome then
      (dropUnderscores (b :: rest)).map (a :: ·)
    else none
  | c :: rest => (dropUnderscores rest).map (c :: ·)

def readExponent : List Char → Option Int
  | [] => some 0
  | c :: rest =>
    if c = 'e' || c = 'E' then
      let (negative, body) := takeSign rest
      match takeDigits 0 0 body with
      | (0, _, _) => none
      | (_, number, []) => some (if negative then -(number : Int) else number)
      | _ => none
    else none

def readUnsigned (negative : Bool) (text : List Char) : Option Binary64 :=
  let lowered := String.ofList (text.map Char.toLower)
  if lowered = "nan" then some (.nan 0)
  else if lowered = "inf" || lowered = "infinity" then some (.infinite negative)
  else
    let (whole, number, rest) := takeDigits 0 0 text
    let (places, number, rest) := match rest with
      | '.' :: more => takeDigits 0 number more
      | _ => (0, number, rest)
    if whole + places = 0 then none
    else (readExponent rest).map fun power => Binary64.ofDecimal negative number (power - places)

def readFloat (text : List Char) : Option Binary64 :=
  (dropUnderscores (numeral text)).bind fun body =>
    let (negative, unsigned) := takeSign body
    readUnsigned negative unsigned

end SupplyLint.Decimal
