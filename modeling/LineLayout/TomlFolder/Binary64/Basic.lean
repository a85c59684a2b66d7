-- Floating point numbers of 64 bits, as exact values. A finite number is a whole number below
-- 2^53 times a power of two. A decimal becomes the nearest such number, and of two that are
-- equally near the one with the even mantissa.

namespace LineLayout

/-- A finite number is `mantissa * 2 ^ exponent`, with its sign. -/
inductive Binary64 where
  | finite (negative : Bool) (mantissa : Nat) (exponent : Int)
  | infinite (negative : Bool)
  | nan
  deriving DecidableEq

namespace Binary64

/-! ## Powers -/

/-- A power of two, or one for a negative exponent. -/
def twoTo (exponent : Int) : Nat := Nat.pow 2 exponent.toNat

/-- A power of ten, or one for a negative exponent. -/
def tenTo (exponent : Int) : Nat := Nat.pow 10 exponent.toNat

/-! ## Rounding a quotient -/

/-- Mantissas are below this number, the 53rd power of two. -/
def mantissaLimit : Nat := 9007199254740992

/-- The smallest exponent of a finite number. -/
def minExponent : Int := -1074

/-- The largest exponent of a finite number. -/
def maxExponent : Int := 971

/-- A positive quotient times a power of two, as a quotient. -/
def scaled (num den : Nat) (power : Int) : Nat × Nat :=
  (num * twoTo power, den * twoTo (-power))

/-- The nearest whole number to a quotient, the even one of two. -/
def roundQuotient (num den : Nat) : Nat :=
  let floor := num / den
  let twice := 2 * (num % den)
  if twice < den then floor
  else if den < twice then floor + 1
  else floor + floor % 2

/-- The power of two at or below a positive quotient. -/
def binaryOrder (num den : Nat) : Int :=
  let guess : Int := (num.log2 : Int) - den.log2
  let (n, d) := scaled num den (-guess)
  if n < d then guess - 1 else guess

/-- The number nearest to a positive quotient. -/
def ofQuotient (negative : Bool) (num den : Nat) : Binary64 :=
  let exponent := max (binaryOrder num den - 52) minExponent
  let (n, d) := scaled num den (-exponent)
  let mantissa := roundQuotient n d
  let (mantissa, exponent) :=
    if mantissa < mantissaLimit then (mantissa, exponent) else (mantissa / 2, exponent + 1)
  if maxExponent < exponent then .infinite negative else .finite negative mantissa exponent

/-- How many decimal digits a number has. -/
def decimalDigits (n : Nat) : Nat := (Nat.toDigits 10 n).length

/-- The number nearest to `digits * 10 ^ power`. Decimals far out of range are not worked
out. -/
def ofDecimal (negative : Bool) (digits : Nat) (power : Int) : Binary64 :=
  if digits = 0 then .finite negative 0 minExponent
  else if 310 < (decimalDigits digits : Int) + power then .infinite negative
  else if (decimalDigits digits : Int) + power < -330 then .finite negative 0 minExponent
  else ofQuotient negative (digits * tenTo power) (tenTo (-power))

/-! ## Whole numbers -/

def isZero : Binary64 → Bool
  | .finite _ mantissa _ => mantissa == 0
  | _ => false

/-- The nearest whole number from zero to `limit`, a half going up. What is no number counts
as zero. -/
def toNatUpTo (limit : Nat) : Binary64 → Nat
  | .finite false mantissa exponent =>
    let (n, d) := scaled mantissa 1 exponent
    min ((2 * n + d) / (2 * d)) limit
  | .infinite false => limit
  | _ => 0

end Binary64

end LineLayout
