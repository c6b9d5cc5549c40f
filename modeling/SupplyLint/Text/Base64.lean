/-! Base 64: four characters for three bytes, the last group filled up with `=`. Reading passes over
characters outside the alphabet and stops at the padding. -/
set_option autoImplicit false

namespace SupplyLint.Text.Base64

def alphabet : List Char :=
  "ABCDEFGHIJKLMNOPQRSTUVWXYZabcdefghijklmnopqrstuvwxyz0123456789+/".toList

def digit (n : Nat) : Char :=
  alphabet.getD n '='

def encode : List UInt8 → List Char
  | a :: b :: c :: rest =>
    let group := (a.toNat * 256 + b.toNat) * 256 + c.toNat
    digit (group / 262144) :: digit (group / 4096 % 64) :: digit (group / 64 % 64) ::
      digit (group % 64) :: encode rest
  | [a, b] =>
    let group := (a.toNat * 256 + b.toNat) * 4
    [digit (group / 4096), digit (group / 64 % 64), digit (group % 64), '=']
  | [a] => [digit (a.toNat * 16 / 64), digit (a.toNat * 16 % 64), '=', '=']
  | [] => []

/-- Reads digits with `position` of the current group read, `left` the bits not yet written and
`pads` the padding characters seen since the last digit. -/
def decodeFrom (position left pads : Nat) : List Char → Option (List UInt8)
  | [] => if position = 0 then some [] else none
  | c :: rest =>
    if c = '=' then
      if 2 ≤ position && 4 ≤ position + (pads + 1) then some []
      else decodeFrom position left (if 2 ≤ position then pads + 1 else pads) rest
    else
      match alphabet.idxOf? c with
      | none => decodeFrom position left pads rest
      | some value =>
        match position with
        | 0 => decodeFrom 1 value 0 rest
        | 1 => (decodeFrom 2 (value % 16) 0 rest).map (UInt8.ofNat (left * 4 + value / 16) :: ·)
        | 2 => (decodeFrom 3 (value % 4) 0 rest).map (UInt8.ofNat (left * 16 + value / 4) :: ·)
        | _ => (decodeFrom 0 0 0 rest).map (UInt8.ofNat (left * 64 + value) :: ·)

def decode (text : List Char) : Option (List UInt8) :=
  decodeFrom 0 0 0 text

end SupplyLint.Text.Base64
