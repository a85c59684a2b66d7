-- Paths to a setting: a name, then names behind dots and places in brackets, such as
-- `comments.closing_keywords[0]`. Setting a value at a path makes the tables and lists on the
-- way where they are missing.
import LineLayout.Fault
import LineLayout.TomlFolder.Value
import LineLayout.TomlFolder.Toml.Reader

namespace LineLayout

namespace TomlFolder

/-- A negative place in a list counts from the end. -/
inductive PathStep where
  | field (name : String)
  | index (i : Int)
  deriving DecidableEq

structure KeyPath where
  first : String
  steps : List PathStep
  deriving DecidableEq

/-- Why a text is no path. -/
inductive KeyProblem where
  | noName
  | noDigits
  | strayCharacter
  | indexTooLarge
  deriving DecidableEq

def KeyProblem.message : KeyProblem → String
  | .noName => "IsA"
  | .noDigits => "Digit"
  | .strayCharacter => "Char"
  | .indexTooLarge => "Map on Result"

namespace KeyPath

/-! ## Reading a path -/

def isNameChar (c : Char) : Bool := c.isAlphanum || c == ' ' || c == '_' || c == '-'

/-- The number that decimal digits write. -/
def decimal (digits : List Char) : Nat := digits.foldl (fun n c => n * 10 + (c.toNat - 0x30)) 0

/-- A place behind an open bracket, and what follows the closing one. -/
def index (text : List Char) : Except KeyProblem (Int × List Char) :=
  let text := text.dropWhile Toml.isBlank
  let negative := text.head? == some '-'
  let text := if negative then text.drop 1 else text
  let digits := text.takeWhile Char.isDigit
  let i : Int := if negative then -(decimal digits : Int) else decimal digits
  if digits.isEmpty then .error .noDigits
  else if i < -(signedLimit : Int) ∨ (signedLimit : Int) ≤ i then .error .indexTooLarge
  else
    match (text.dropWhile Char.isDigit).dropWhile Toml.isBlank with
    | ']' :: rest => .ok (i, rest)
    | _ => .error .strayCharacter

/-- One step of a path and the rest. -/
def step : List Char → Except KeyProblem (PathStep × List Char)
  | '.' :: text =>
    if (text.takeWhile isNameChar).isEmpty then .error .strayCharacter
    else
      .ok (.field (String.ofList (text.takeWhile isNameChar)), text.dropWhile isNameChar)
  | '[' :: text => (index text).map fun (i, rest) => (.index i, rest)
  | _ => .error .strayCharacter

/-- The steps of a path. Each takes at least one character, so `fuel` is the length. -/
def stepsFrom : Nat → List Char → Except KeyProblem (List PathStep)
  | _, [] => .ok []
  | 0, _ => .ok []
  | fuel + 1, text => do
    let (one, rest) ← step text
    let others ← stepsFrom fuel rest
    return one :: others

/-- The path that a text writes. -/
def parse (text : String) : Except KeyProblem KeyPath :=
  let name := text.toList.takeWhile isNameChar
  let rest := text.toList.dropWhile isNameChar
  if name.isEmpty then .error .noName
  else (stepsFrom rest.length rest).map fun steps => ⟨String.ofList name, steps⟩

end KeyPath

/-! ## Setting a value at a path -/

/-- A list has fewer entries than this number, the 56th power of two. -/
def listLimit : Nat := 72057594037927936

/-- The place that an index names in a list of this length. -/
def placeOf (length : Nat) (i : Int) : Except Fault Nat :=
  let place : Int := if 0 ≤ i then i else (length : Int) + i
  if place < 0 then .error .differenceTooLarge
  else if listLimit ≤ place.toNat then .error .noRoom
  else .ok place.toNat

/-- A list that reaches up to a place, with nothing in the places that it lacked. -/
def reaching (place : Nat) (items : List Value) : List Value :=
  items ++ List.replicate (place + 1 - items.length) Value.nil

/-- Sets a value at the end of some steps from `target` on. -/
def Value.assign (value : Value) : List PathStep → Value → Except Fault Value
  | [], _ => .ok value
  | [.field name], target => .ok (target.put name value)
  | .field name :: rest, target => do
    let inner ← assign value rest ((target.field? name).getD Value.nil)
    return target.setField name inner
  | .index i :: rest, target => do
    let place ← placeOf target.items.length i
    let items := reaching place target.items
    let inner ← assign value rest ((items[place]?).getD Value.nil)
    return target.setItems (items.set place inner)

/-- Sets a value at a path. -/
def Value.setAt (target : Value) (path : KeyPath) (value : Value) : Except Fault Value :=
  Value.assign value (.field path.first :: path.steps) target

end TomlFolder

end LineLayout
