import SupplyLint.Decimal.Binary64

/-! The decimal text of a binary number: the fewest digits that read back as the same number, and of
those the nearest to it. A number is positional while its point stands within sixteen digits or at
most three zeros after the point come first; else it has an exponent of at least two digits. -/
set_option autoImplicit false

namespace SupplyLint.Decimal

def digitCount (n : Nat) : Nat :=
  if n = 0 then 0 else (Nat.toDigits 10 n).length

/-- The place of the point in a positive ratio: the least `point` with the ratio below `10 ^
point`. -/
def pointOf (num den : Nat) : Int :=
  if den ≤ num then digitCount (num / den)
  else 1 - digitCount ((den + num - 1) / num - 1)

def shifted (num den : Nat) (power : Int) : Nat × Nat :=
  if 0 ≤ power then (num, den * Nat.pow 10 power.toNat) else (num * Nat.pow 10 (-power).toNat, den)

/-- The numbers that round to a mantissa lie between these multiples of a quarter of its last
place. -/
structure Interval where
  low : Nat
  value : Nat
  high : Nat
  unit : Nat
  closed : Bool

def Interval.of (mantissa : Nat) (exponent : Int) : Interval :=
  let below := if mantissa = Nat.pow 2 52 && Binary64.leastExponent < exponent then 1 else 2
  let factor := Nat.pow 2 (exponent - 2).toNat
  ⟨(4 * mantissa - below) * factor, 4 * mantissa * factor, (4 * mantissa + 2) * factor,
    Nat.pow 2 (2 - exponent).toNat, mantissa % 2 = 0⟩

def Interval.holds (bounds : Interval) (digits : Nat) (power : Int) : Bool :=
  let num := digits * Nat.pow 10 power.toNat * bounds.unit
  let grid := Nat.pow 10 (-power).toNat
  if bounds.closed then bounds.low * grid ≤ num && num ≤ bounds.high * grid
  else bounds.low * grid < num && num < bounds.high * grid

/-- The shortest digits with at most the given number to spare, and the power of ten of the last. -/
def shortestFrom (bounds : Interval) (point : Int) : Nat → Nat → Nat × Int
  | width, 0 =>
    let power := point - width
    let parts := shifted bounds.value bounds.unit power
    (Binary64.roundHalfEven parts.1 parts.2, power)
  | width, spare + 1 =>
    let power := point - width
    let parts := shifted bounds.value bounds.unit power
    let floor := parts.1 / parts.2
    match bounds.holds floor power, bounds.holds (floor + 1) power with
    | true, true => (Binary64.roundHalfEven parts.1 parts.2, power)
    | true, false => (floor, power)
    | false, true => (floor + 1, power)
    | false, false => shortestFrom bounds point (width + 1) spare

def dropZeros : Nat → Nat → Int → Nat × Int
  | 0, digits, power => (digits, power)
  | budget + 1, digits, power =>
    if digits % 10 = 0 && digits ≠ 0 then dropZeros budget (digits / 10) (power + 1)
    else (digits, power)

/-- The shortest digits of a positive finite number, the last of them not zero. -/
def shortest (mantissa : Nat) (exponent : Int) : Nat × Int :=
  let bounds := Interval.of mantissa exponent
  let found := shortestFrom bounds (pointOf bounds.value bounds.unit) 1 16
  dropZeros 20 found.1 found.2

def zeros (count : Nat) : String :=
  String.ofList (List.replicate count '0')

def exponentText (exponent : Int) : String :=
  let digits := toString exponent.natAbs
  (if exponent < 0 then "e-" else "e+") ++ (if digits.length < 2 then "0" else "") ++ digits

def positiveText (mantissa : Nat) (exponent : Int) : String :=
  let (number, power) := shortest mantissa exponent
  let digits := (Nat.toDigits 10 number)
  let point := power + digits.length
  if -4 < point && point ≤ 16 then
    if point ≤ 0 then "0." ++ zeros (-point).toNat ++ String.ofList digits
    else if digits.length ≤ point.toNat then
      String.ofList digits ++ zeros (point.toNat - digits.length) ++ ".0"
    else
      String.ofList (digits.take point.toNat) ++ "." ++ String.ofList (digits.drop point.toNat)
  else
    let fraction := digits.drop 1
    String.ofList (digits.take 1) ++ (if fraction.isEmpty then "" else ".") ++
      String.ofList fraction ++ exponentText (point - 1)

def Binary64.text : Binary64 → String
  | .nan _ => "nan"
  | .infinite negative => if negative then "-inf" else "inf"
  | .finite negative mantissa exponent =>
    (if negative then "-" else "") ++
      (if mantissa = 0 then "0.0" else positiveText mantissa exponent)

end SupplyLint.Decimal
