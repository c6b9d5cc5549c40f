import SupplyLint.Text.Code
import SupplyLint.Text.Printable

/-! Quoted text. A text is put between single quotes, or between double quotes when it holds a
single quote and no double one. Printable characters stand for themselves; the others, surrogates,
the backslash and the quote in use are escaped. Byte strings are quoted in the same way after the
letter b, and there every byte outside the printable ASCII range is escaped. -/
set_option autoImplicit false

namespace SupplyLint.Text

def hexDigit (n : Nat) : Char :=
  Char.ofNat (if n < 10 then 48 + n else 87 + n)

def hexDigits : Nat → Nat → List Char
  | 0, _ => []
  | width + 1, n => hexDigits width (n / 16) ++ [hexDigit (n % 16)]

def quoteFor (text : List Code) : Char :=
  if text.contains (.char '\'') && !text.contains (.char '"') then '"' else '\''

def escapeCode (code : Nat) : List Char :=
  if code < 0x100 then '\\' :: 'x' :: hexDigits 2 code
  else if code < 0x10000 then '\\' :: 'u' :: hexDigits 4 code
  else '\\' :: 'U' :: hexDigits 8 code

/-- One character of quoted text; `plain` says which characters stand for themselves. -/
def quotedChar (plain : Char → Bool) (quote c : Char) : List Char :=
  if c = '\\' || c = quote then ['\\', c]
  else if c = '\n' then ['\\', 'n']
  else if c = '\t' then ['\\', 't']
  else if c = '\r' then ['\\', 'r']
  else if plain c then [c]
  else escapeCode c.toNat

def quotedCode (plain : Char → Bool) (quote : Char) : Code → List Char
  | .char c => quotedChar plain quote c
  | code => escapeCode code.number

def quotedBy (plain : Char → Bool) (text : List Code) : List Char :=
  let quote := quoteFor text
  quote :: text.flatMap (quotedCode plain quote) ++ [quote]

def quoted (text : String) : String :=
  String.ofList (quotedBy isPrintable (codes text.toList))

def quotedBytes (bytes : List UInt8) : String :=
  String.ofList ('b' :: quotedBy (fun c => 32 ≤ c.toNat && c.toNat < 127)
    (bytes.map fun byte => .char (Char.ofNat byte.toNat)))

end SupplyLint.Text
