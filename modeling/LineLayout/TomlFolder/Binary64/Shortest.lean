-- Floating point numbers as text. A number is written with the fewest decimal digits that read
-- back as the same number, and of these the nearest, always without an exponent.
import LineLayout.TomlFolder.Binary64.Basic

namespace LineLayout

namespace Binary64

/-! ## The fewest digits -/

/-- The numbers that read back as `mantissa * 2 ^ exponent`, counted in units of a quarter of
the last place: from `low` to `high`, with the ends when `closed`. -/
structure Interval where
  low : Nat
  value : Nat
  high : Nat
  closed : Bool

/-- Below a power of two the numbers lie closer together, so the lower half is shorter. -/
def interval (mantissa : Nat) (exponent : Int) : Interval where
  low := 4 * mantissa - if 2 * mantissa = mantissaLimit ∧ minExponent < exponent then 1 else 2
  value := 4 * mantissa
  high := 4 * mantissa + 2
  closed := mantissa % 2 == 0

/-- A quotient of two numbers lies in the interval. -/
def Interval.holds (i : Interval) (num den : Nat) : Bool :=
  if i.closed then i.low * den ≤ num && num ≤ i.high * den
  else i.low * den < num && num < i.high * den

/-- The multiple of `10 ^ power` that reads back, if there is one: the nearer of the two
multiples around the value. One step of the grid is `num / den` units. -/
def onGrid? (mantissa : Nat) (exponent power : Int) : Option Nat :=
  let i := interval mantissa exponent
  let num := tenTo power * twoTo (2 - exponent)
  let den := tenTo (-power) * twoTo (exponent - 2)
  let below := i.value * den / num
  let down := i.holds (below * num) den
  let up := i.holds ((below + 1) * num) den
  if down && up then
    if 2 * (i.value * den - below * num) < num then some below else some (below + 1)
  else if down then some below
  else if up then some (below + 1)
  else none

/-- The digits on the coarsest grid at or below `power` that has a multiple to read back. -/
def digitsFrom (mantissa : Nat) (exponent : Int) : Nat → Int → Nat × Int
  | 0, power => (mantissa, power)
  | fuel + 1, power =>
    match onGrid? mantissa exponent power with
    | some digits => (digits, power)
    | none => digitsFrom mantissa exponent fuel (power - 1)

/-- The fewest digits of a positive number, and the power of ten that they count. No number
needs a grid finer than its own last place, so at most 1400 grids are tried. -/
def shortest (mantissa : Nat) (exponent : Int) : Nat × Int :=
  digitsFrom mantissa exponent 1400 (decimalDigits (mantissa * twoTo exponent))

/-! ## Text -/

/-- Digits times a power of ten, written out. -/
def positional (digits : Nat) (power : Int) : String :=
  let shown := Nat.toDigits 10 digits
  if 0 ≤ power then String.ofList (shown ++ List.replicate power.toNat '0')
  else
    let places := (-power).toNat
    let padded := List.replicate (places + 1 - shown.length) '0' ++ shown
    String.ofList (padded.take (padded.length - places) ++ '.' ::
      padded.drop (padded.length - places))

/-- The number as text. A whole number has no point. -/
def text : Binary64 → String
  | .finite negative mantissa exponent =>
    let (digits, power) := if mantissa = 0 then (0, 0) else shortest mantissa exponent
    (if negative then "-" else "") ++ positional digits power
  | .infinite negative => if negative then "-inf" else "inf"
  | .nan => "NaN"

/-- The number as text that shows it is no integer: a whole number ends with a point and a
zero. -/
def pointedText (x : Binary64) : String :=
  match x with
  | .finite .. => if x.text.toList.contains '.' then x.text else x.text ++ ".0"
  | _ => x.text

end Binary64

end LineLayout
