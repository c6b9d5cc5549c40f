/-! Binary floating point numbers of 64 bits as exact values. A finite number is its mantissa times
a power of two; among the ways to write it, the one with the largest mantissa below 2^53 is used,
down to the exponent -1074. Rounding goes to the nearest number, and from the middle to the even
mantissa.

What is no number carries a mark that tells it from others of its kind. -/
set_option autoImplicit false

namespace SupplyLint.Decimal

inductive Binary64
  | nan (mark : Nat)
  | infinite (negative : Bool)
  | finite (negative : Bool) (mantissa : Nat) (exponent : Int)
  deriving DecidableEq, Inhabited

namespace Binary64

def leastExponent : Int := -1074

def greatestExponent : Int := 971

def zero (negative : Bool) : Binary64 :=
  .finite negative 0 leastExponent

def scaled (num den : Nat) (exponent : Int) : Nat × Nat :=
  if 0 ≤ exponent then (num, den * Nat.pow 2 exponent.toNat)
    else (num * Nat.pow 2 (-exponent).toNat, den)

/-- The quotient to the nearest number, from the middle to the even one. -/
def roundHalfEven (num den : Nat) : Nat :=
  let quotient := num / den
  let rest := 2 * (num % den)
  if rest < den then quotient
  else if den < rest then quotient + 1
  else quotient + quotient % 2

/-- The exponent under which a ratio has a mantissa of 53 bits, or the least one. -/
def exponentOf (num den : Nat) : Int :=
  let guess : Int := (Nat.log2 num : Int) - Nat.log2 den - 52
  let parts := scaled num den guess
  max leastExponent (if parts.1 < parts.2 * Nat.pow 2 52 then guess - 1 else guess)

/-- The number nearest to a ratio with a positive denominator. -/
def ofRatio (negative : Bool) (num den : Nat) : Binary64 :=
  if num = 0 then zero negative
  else
    let exponent := exponentOf num den
    let parts := scaled num den exponent
    let mantissa := roundHalfEven parts.1 parts.2
    let carried := mantissa = Nat.pow 2 53
    let exponent := if carried then exponent + 1 else exponent
    if greatestExponent < exponent then .infinite negative
    else .finite negative (if carried then Nat.pow 2 52 else mantissa) exponent

/-- The number nearest to `digits * 10 ^ power`. -/
def ofDecimal (negative : Bool) (digits : Nat) (power : Int) : Binary64 :=
  let width : Int := (Nat.toDigits 10 digits).length
  if digits = 0 || power + width < -400 then zero negative
  else if 400 < power + width then .infinite negative
  else if 0 ≤ power then ofRatio negative (digits * Nat.pow 10 power.toNat) 1
  else ofRatio negative digits (Nat.pow 10 (-power).toNat)

def isNegative : Binary64 → Bool
  | .nan _ => false
  | .infinite negative => negative
  | .finite negative _ _ => negative

def negate : Binary64 → Binary64
  | .nan mark => .nan mark
  | .infinite negative => .infinite (!negative)
  | .finite negative mantissa exponent => .finite (!negative) mantissa exponent

/-- The exact value as a ratio with its sign; nothing for the values that are not finite. -/
def ratio? : Binary64 → Option (Int × Nat)
  | .finite negative mantissa exponent =>
    let parts := if 0 ≤ exponent then (mantissa * Nat.pow 2 exponent.toNat, 1)
      else (mantissa, Nat.pow 2 (-exponent).toNat)
    some (if negative then -parts.1 else parts.1, parts.2)
  | _ => none

def toInt? (x : Binary64) : Option Int :=
  match x.ratio? with
  | some (num, den) => if num % den = 0 then some (num / den) else none
  | none => none

def ofSigned (num : Int) (den : Nat) (negativeZero : Bool) : Binary64 :=
  if num = 0 then zero negativeZero else ofRatio (num < 0) num.natAbs den

def ofNat (n : Nat) : Binary64 :=
  ofRatio false n 1

/-- What is no number with another mark. -/
def withMark (mark : Nat) : Binary64 → Binary64
  | .nan _ => .nan mark
  | x => x

def add (x y : Binary64) : Binary64 :=
  match x.ratio?, y.ratio? with
  | some (a, b), some (c, d) => ofSigned (a * d + c * b) (b * d) (x.isNegative && y.isNegative)
  | none, some _ => x
  | some _, none => y
  | none, none => if x = y then x else .nan 0

def mul (x y : Binary64) : Binary64 :=
  let negative := x.isNegative != y.isNegative
  match x, y with
  | .nan mark, _ => .nan mark
  | _, .nan mark => .nan mark
  | .infinite _, .infinite _ => .infinite negative
  | .infinite _, .finite _ mantissa _ => if mantissa = 0 then .nan 0 else .infinite negative
  | .finite _ mantissa _, .infinite _ => if mantissa = 0 then .nan 0 else .infinite negative
  | .finite _ a e, .finite _ b f =>
    let parts := scaled 1 1 (-(e + f))
    ofRatio negative (a * b * parts.1) parts.2

end Binary64

end SupplyLint.Decimal
