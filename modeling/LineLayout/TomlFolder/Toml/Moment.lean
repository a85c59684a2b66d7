-- Dates and times. A moment is a day, a time of day, or both, and then it may name its distance
-- from the time of Greenwich. It is kept as a text in one form: a letter T between day and time,
-- and a fraction of a second to nine places.
import LineLayout.TomlFolder.Toml.Reader

namespace LineLayout

namespace Toml

/-! ## Numbers of a fixed length -/

/-- A number of a fixed count of decimal digits within bounds, with the digits. -/
def fixedNumber (count low high : Nat) : Reader Nat := fun text =>
  if (text.take count).length < count then none
  else
    (numberIn? 10 (text.take count)).bind fun n =>
      if low ≤ n ∧ n ≤ high then some (n, text.drop count) else none

/-- A number with a mark in front of it. -/
def markedNumber (mark : Char) (count low high : Nat) : Reader Nat
  | [] => none
  | c :: rest => if c = mark then fixedNumber count low high rest else none

/-- A number with zeros in front, up to this many digits. -/
def padded (count n : Nat) : String :=
  String.ofList (List.replicate (count - (Nat.toDigits 10 n).length) '0' ++ Nat.toDigits 10 n)

/-! ## Days -/

def isLeapYear (year : Nat) : Bool := year % 4 == 0 && (year % 100 != 0 || year % 400 == 0)

def daysInMonth (year month : Nat) : Nat :=
  if month = 2 then if isLeapYear year then 29 else 28
  else if month ∈ [4, 6, 9, 11] then 30
  else 31

/-- A day of the calendar. -/
def date : Reader String := fun text => do
  let (year, text) ← fixedNumber 4 0 9999 text
  let (month, text) ← markedNumber '-' 2 1 12 text
  let (day, text) ← markedNumber '-' 2 1 (daysInMonth year month) text
  return (padded 4 year ++ "-" ++ padded 2 month ++ "-" ++ padded 2 day, text)

/-! ## Times of day -/

/-- The fraction of a second, to nine places and without zeros at its end. -/
def fractionText (digits : List Char) : String :=
  let kept := ((digits.take 9).reverse.dropWhile (· == '0')).reverse
  if kept.isEmpty then "" else "." ++ String.ofList kept

def secondFraction : Reader String
  | '.' :: text =>
    let digits := text.takeWhile Char.isDigit
    if digits.isEmpty then none else some (fractionText digits, text.dropWhile Char.isDigit)
  | text => some ("", text)

/-- A time of day. The last minute of a day may have a second more. -/
def time : Reader String := fun text => do
  let (hour, text) ← fixedNumber 2 0 23 text
  let (minute, text) ← markedNumber ':' 2 0 59 text
  let (second, text) ← markedNumber ':' 2 0 60 text
  let (fraction, text) ← secondFraction text
  return (padded 2 hour ++ ":" ++ padded 2 minute ++ ":" ++ padded 2 second ++ fraction, text)

/-- The distance from the time of Greenwich. No distance has a plus. -/
def offset : Reader String
  | 'Z' :: rest | 'z' :: rest => some ("Z", rest)
  | [] => some ("", [])
  | mark :: text =>
    if mark = '+' ∨ mark = '-' then do
      let (hours, text) ← fixedNumber 2 0 23 text
      let (minutes, text) ← markedNumber ':' 2 0 59 text
      let shown := if mark = '-' ∧ 0 < hours + minutes then "-" else "+"
      return (shown ++ padded 2 hours ++ ":" ++ padded 2 minutes, text)
    else none

/-- A time of day with the distance from the time of Greenwich. -/
def timeWithOffset : Reader String := fun text => do
  let (clock, text) ← time text
  let (distance, text) ← offset text
  return (clock ++ distance, text)

/-! ## Moments -/

/-- The whole text, as the reader reads it. -/
def whole? {α : Type} (read : Reader α) (text : List Char) : Option α :=
  match read text with
  | some (value, []) => some value
  | _ => none

/-- What may stand between a day and a time of day. -/
def isDayMark (c : Char) : Bool := c == 'T' || c == 't' || c == ' '

/-- A day, a time of day, or a day with a time of day behind it. -/
def moment? (text : List Char) : Option String :=
  (whole? time text).or <|
    match date text with
    | some (day, []) => some day
    | some (day, mark :: rest) =>
      if isDayMark mark then (whole? timeWithOffset rest).map (day ++ "T" ++ ·) else none
    | none => none

end Toml

end LineLayout
