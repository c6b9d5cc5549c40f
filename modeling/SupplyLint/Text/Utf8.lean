import SupplyLint.Text.Code

/-! Text in bytes: UTF-8 with the place and the kind of the first fault, and UTF-16 in both
orders. -/
set_option autoImplicit false

namespace SupplyLint.Text

inductive Utf8Fault
  | start
  | continuation
  | cut
  deriving DecidableEq

def Utf8Fault.message : Utf8Fault → String
  | .start => "invalid start byte"
  | .continuation => "invalid continuation byte"
  | .cut => "unexpected end of data"

/-- One character off the head with the number of its bytes, or a fault with the number of bytes
that it spoils. -/
inductive Utf8Step
  | char (c : Char) (width : Nat) (rest : List UInt8)
  | bad (fault : Utf8Fault) (width : Nat)

/-- The bytes that may follow a lead byte: how many, and the range of the first of them. -/
def utf8Follow (lead : Nat) : Option (Nat × Nat × Nat) :=
  if lead < 0xc2 then none
  else if lead < 0xe0 then some (1, 0x80, 0xbf)
  else if lead < 0xf0 then
    some (2, if lead = 0xe0 then 0xa0 else 0x80, if lead = 0xed then 0x9f else 0xbf)
  else if lead < 0xf5 then
    some (3, if lead = 0xf0 then 0x90 else 0x80, if lead = 0xf4 then 0x8f else 0xbf)
  else none

/-- Reads `count` continuation bytes, the next of them in the given range. -/
def utf8Continue (read code : Nat) : Nat → Nat → Nat → List UInt8 → Utf8Step
  | 0, _, _, rest => .char (Char.ofNat code) read rest
  | _ + 1, _, _, [] => .bad .cut read
  | count + 1, low, high, byte :: rest =>
    if low ≤ byte.toNat && byte.toNat ≤ high then
      utf8Continue (read + 1) (code * 64 + byte.toNat % 64) count 0x80 0xbf rest
    else .bad .continuation read

def utf8Step (lead : UInt8) (rest : List UInt8) : Utf8Step :=
  if lead.toNat < 0x80 then .char (Char.ofNat lead.toNat) 1 rest
  else match utf8Follow lead.toNat with
    | none => .bad .start 1
    | some (count, low, high) =>
      utf8Continue 1 (lead.toNat % Nat.pow 2 (6 - count)) count low high rest

structure Utf8Error where
  fault : Utf8Fault
  position : Nat
  bytes : List UInt8

/-- Reads with a budget of one step for each byte. -/
def decodeUtf8From : Nat → Nat → List UInt8 → Except Utf8Error (List Char)
  | _, _, [] => .ok []
  | 0, _, _ :: _ => .ok []
  | budget + 1, position, lead :: rest =>
    match utf8Step lead rest with
    | .bad fault width => .error ⟨fault, position, (lead :: rest).take width⟩
    | .char c width after => (decodeUtf8From budget (position + width) after).map (c :: ·)

def decodeUtf8 (bytes : List UInt8) : Except Utf8Error (List Char) :=
  decodeUtf8From bytes.length 0 bytes

/-- Each spoiled stretch is replaced by U+FFFD. -/
def decodeUtf8LossyFrom : Nat → List UInt8 → List Char
  | _, [] => []
  | 0, _ :: _ => []
  | budget + 1, lead :: rest =>
    match utf8Step lead rest with
    | .bad _ width => '\ufffd' :: decodeUtf8LossyFrom budget ((lead :: rest).drop width)
    | .char c _ after => c :: decodeUtf8LossyFrom budget after

def decodeUtf8Lossy (bytes : List UInt8) : String :=
  String.ofList (keptChars (decodeUtf8LossyFrom bytes.length bytes))

/-- The 16-bit units of a byte string; none when a byte is left over. -/
def units16 (littleEndian : Bool) : List UInt8 → Option (List Nat)
  | [] => some []
  | [_] => none
  | a :: b :: rest =>
    (units16 littleEndian rest).map
      ((if littleEndian then a.toNat + b.toNat * 256 else a.toNat * 256 + b.toNat) :: ·)

/-- A high surrogate must be followed by a low one, and a low one must follow a high one. -/
def decodeUnits16 : List Nat → Option (List Char)
  | [] => some []
  | unit :: rest =>
    if unit < 0xd800 || 0xe000 ≤ unit then (decodeUnits16 rest).map (Char.ofNat unit :: ·)
    else if 0xdc00 ≤ unit then none
    else match rest with
      | [] => none
      | low :: more =>
        if 0xdc00 ≤ low && low < 0xe000 then
          (decodeUnits16 more).map
            (Char.ofNat (0x10000 + (unit - 0xd800) * 1024 + (low - 0xdc00)) :: ·)
        else none

def decodeUtf16 (littleEndian : Bool) (bytes : List UInt8) : Option (List Char) :=
  (units16 littleEndian bytes).bind decodeUnits16

end SupplyLint.Text
