import SupplyLint.Text.Quoted

/-! JSON text with one member to a line, indented by two blanks a level. Everything outside the
printable ASCII range is written as 16-bit units in hexadecimal. -/
set_option autoImplicit false

namespace SupplyLint

/-- A number is given by its text. -/
inductive Json
  | null
  | bool (b : Bool)
  | number (digits : String)
  | string (s : String)
  | array (items : List Json)
  | object (members : List (String × Json))
  deriving Inhabited

namespace Json

open SupplyLint.Text

def ofNat (n : Nat) : Json :=
  .number (toString n)

def ofInt (n : Int) : Json :=
  .number (toString n)

def unitEscape (unit : Nat) : List Char :=
  '\\' :: 'u' :: hexDigits 4 unit

def escapedChar (c : Char) : List Char :=
  if c = '"' then ['\\', '"']
  else if c = '\\' then ['\\', '\\']
  else if c = '\n' then ['\\', 'n']
  else if c = '\r' then ['\\', 'r']
  else if c = '\t' then ['\\', 't']
  else if c = '\x08' then ['\\', 'b']
  else if c = '\x0c' then ['\\', 'f']
  else if 32 ≤ c.toNat && c.toNat < 127 then [c]
  else if c.toNat < 0x10000 then unitEscape c.toNat
  else
    let above := c.toNat - 0x10000
    unitEscape (0xd800 + above / 1024) ++ unitEscape (0xdc00 + above % 1024)

def escaped : Code → List Char
  | .char c => escapedChar c
  | code => unitEscape code.number

def stringText (s : String) : String :=
  String.ofList ('"' :: (codes s.toList).flatMap escaped ++ ['"'])

def newLine (depth : Nat) : String :=
  "\n" ++ String.ofList (List.replicate (2 * depth) ' ')

def enclosed (opening closing : String) (depth : Nat) (parts : List String) : String :=
  if parts.isEmpty then opening ++ closing
  else
    opening ++ newLine (depth + 1) ++ ("," ++ newLine (depth + 1)).intercalate parts ++
      newLine depth ++ closing

mutual

def textAt (depth : Nat) : Json → String
  | .null => "null"
  | .bool b => if b then "true" else "false"
  | .number digits => digits
  | .string s => stringText s
  | .array items => enclosed "[" "]" depth (itemTexts (depth + 1) items)
  | .object members => enclosed "\x7b" "\x7d" depth (memberTexts (depth + 1) members)
termination_by structural x => x

def itemTexts (depth : Nat) : List Json → List String
  | [] => []
  | item :: rest => textAt depth item :: itemTexts depth rest
termination_by structural x => x

def memberTexts (depth : Nat) : List (String × Json) → List String
  | [] => []
  | member :: rest => memberText depth member :: memberTexts depth rest
termination_by structural x => x

def memberText (depth : Nat) : String × Json → String
  | (name, value) => stringText name ++ ": " ++ textAt depth value
termination_by structural x => x

end

def text (json : Json) : String :=
  textAt 0 json

end Json

end SupplyLint
