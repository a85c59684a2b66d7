-- Values without quotes: truth values, integers, floating point numbers, dates and times. Each
-- is a run of letters, digits and signs, and the whole run has to fit one of the forms.
import LineLayout.TomlFolder.Toml.Moment
import LineLayout.TomlFolder.Toml.Node

namespace LineLayout

namespace Toml

/-! ## Numbers -/

/-- The digits of a number without the underscores between them. An underscore has a digit on
each side. -/
def ungrouped? (isDigit : Char → Bool) : List Char → Option (List Char)
  | [] => none
  | [c] => if isDigit c then some [c] else none
  | c :: '_' :: rest => if isDigit c then (ungrouped? isDigit rest).map (c :: ·) else none
  | c :: rest => if isDigit c then (ungrouped? isDigit rest).map (c :: ·) else none

/-- The sign in front of a number, true for minus, and what follows it. -/
def signed : List Char → Bool × List Char
  | '-' :: rest => (true, rest)
  | '+' :: rest => (false, rest)
  | text => (false, text)

/-- Decimal digits without a zero in front of others. -/
def wholeDigits? (text : List Char) : Option (List Char) :=
  (ungrouped? Char.isDigit text).filter fun digits =>
    digits.length == 1 || digits.head? != some '0'

/-- An integer has 64 bits and a sign. -/
def integer? (negative : Bool) (n : Nat) : Option Scalar :=
  let i : Int := if negative then -(n : Int) else n
  if -(signedLimit : Int) ≤ i ∧ i < signedLimit then some (.integer i) else none

/-- An integer in base sixteen, eight or two. It has no sign. -/
def basedInteger? (base : Nat) (text : List Char) : Option Scalar := do
  let digits ← ungrouped? (fun c => (digitIn? base c).isSome) text
  integer? false (← numberIn? base digits)

def decimalInteger? (text : List Char) : Option Scalar := do
  let digits ← wholeDigits? (signed text).2
  integer? (signed text).1 (← numberIn? 10 digits)

/-- The part behind a mark such as a point, if the mark is there. -/
def partBehind? (text : List Char) : Option (List Char) :=
  match text with
  | [] => none
  | _ :: rest => some rest

def isExponentMark (c : Char) : Bool := c == 'e' || c == 'E'

/-- A number with a fraction, an exponent or both. A number too large for the format is
refused, except below zero, where it is minus infinity. -/
def float? (text : List Char) : Option Scalar := do
  let (negative, text) := signed text
  let mantissa := text.takeWhile fun c => !isExponentMark c
  let exponentPart := partBehind? (text.dropWhile fun c => !isExponentMark c)
  let whole ← wholeDigits? (mantissa.takeWhile (· != '.'))
  let fractionPart := partBehind? (mantissa.dropWhile (· != '.'))
  if exponentPart.isNone && fractionPart.isNone then none
  else
    let fraction ← fractionPart.elim (some []) (ungrouped? Char.isDigit)
    let exponent ← exponentPart.elim (some 0) fun part => do
      let digits ← ungrouped? Char.isDigit (signed part).2
      let n ← numberIn? 10 digits
      return if (signed part).1 then -(n : Int) else n
    let digits ← numberIn? 10 (whole ++ fraction)
    let value := Binary64.ofDecimal negative digits (exponent - fraction.length)
    if value = .infinite false then none else some (.float value)

/-- The numbers with names. -/
def namedFloat? (text : List Char) : Option Scalar :=
  match signed text with
  | (negative, ['i', 'n', 'f']) => some (.float (.infinite negative))
  | (_, ['n', 'a', 'n']) => some (.float .nan)
  | _ => none

def number? : List Char → Option Scalar
  | '0' :: 'x' :: digits => basedInteger? 16 digits
  | '0' :: 'o' :: digits => basedInteger? 8 digits
  | '0' :: 'b' :: digits => basedInteger? 2 digits
  | text => (namedFloat? text).or ((decimalInteger? text).or (float? text))

/-! ## Any value without quotes -/

/-- A character of a value without quotes. -/
def isPlain (c : Char) : Bool := c.isAlphanum || ['+', '-', '_', '.', ':'].contains c

def word? (text : List Char) : Option Scalar :=
  if text = ['t', 'r', 'u', 'e'] then some (.boolean true)
  else if text = ['f', 'a', 'l', 's', 'e'] then some (.boolean false)
  else none

/-- A day, a blank and a time of day. -/
def spacedMoment : Reader Scalar := fun text => do
  let day ← whole? date (text.takeWhile isPlain)
  match text.dropWhile isPlain with
  | ' ' :: rest =>
    let clock ← whole? timeWithOffset (rest.takeWhile isPlain)
    return (.moment (day ++ "T" ++ clock), rest.dropWhile isPlain)
  | _ => none

def plain : Reader Scalar := fun text =>
  (spacedMoment text).or <|
    let run := text.takeWhile isPlain
    let moment := (moment? run).map Scalar.moment
    ((word? run).or ((number? run).or moment)).map fun value => (value, text.dropWhile isPlain)

end Toml

end LineLayout
