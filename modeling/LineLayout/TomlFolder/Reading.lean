-- Reading settings out of the merged values of a folder. A setting may be written in more than one
-- way: a width as a number, a truth value or a text, a switch as a number or a word.
import LineLayout.Settings.Loader
import LineLayout.TomlFolder.Problem

namespace LineLayout

namespace TomlFolder

/-! ## Single settings -/

def wrongType {α : Type} (value : Value) (wanted : Wanted) (key : String) :
    Except Problem α :=
  .error (.wrongType value.shown wanted key value.origin)

/-- A number of decimal digits, with or without a plus sign, that fits in a word. -/
def wordNumber? (text : List Char) : Option Nat :=
  let digits := if text.head? = some '+' then text.drop 1 else text
  if digits.isEmpty || !digits.all Char.isDigit then none
  else some (KeyPath.decimal digits) |>.filter (· < wordLimit)

/-- A width as text: a word for one or zero, or a number. -/
def widthOfText? (text : String) : Option Nat :=
  if ["true", "on", "yes"].contains (Text.lowercase text) then some 1
  else if ["false", "off", "no"].contains (Text.lowercase text) then some 0
  else wordNumber? text.toList

def readWidth (key : String) (value : Value) : Except Problem Nat :=
  match value with
  | .scalar _ (.integer i) =>
    if i < 0 ∨ (wordLimit : Int) ≤ i then wrongType value .unsigned key else .ok i.toNat
  | .scalar _ (.boolean b) => .ok b.toNat
  | .scalar _ (.float x) => .ok (x.toNatUpTo (wordLimit - 1))
  | .scalar _ (.text s) =>
    match widthOfText? s with
    | some n => .ok n
    | none => wrongType value .integer key
  | _ => wrongType value .integer key

/-- A switch as text, in lower case. -/
def switchOfText? (text : String) : Option Bool :=
  if ["1", "true", "on", "yes"].contains text then some true
  else if ["0", "false", "off", "no"].contains text then some false
  else none

def readSwitch (key : String) (value : Value) : Except Problem Bool :=
  match value with
  | .scalar _ (.boolean b) => .ok b
  | .scalar _ (.integer i) => .ok (i != 0)
  | .scalar _ (.float x) => .ok !x.isZero
  | .scalar origin (.text s) =>
    match switchOfText? (Text.lowercase s) with
    | some b => .ok b
    | none => wrongType (.scalar origin (.text (Text.lowercase s))) .boolean key
  | _ => wrongType value .boolean key

def readWord (key : String) (value : Value) : Except Problem String :=
  match value with
  | .scalar _ (.text s) => .ok s
  | .scalar _ (.boolean b) => .ok (toString b)
  | .scalar _ (.integer i) => .ok (toString i)
  | .scalar _ (.float x) => .ok x.text
  | _ => wrongType value .string key

/-! ## Groups -/

/-- The key of a place in a list. -/
def itemKey (key : String) (place : Nat) : String := key ++ "[" ++ toString place ++ "]"

/-- The words of a list from a place on. -/
def readWordsFrom (key : String) : Nat → List Value → Except Problem (List String)
  | _, [] => .ok []
  | place, value :: rest => do
    let word ← readWord (itemKey key place) value
    let others ← readWordsFrom key (place + 1) rest
    return word :: others

def readWords (key : String) (value : Value) : Except Problem (List String) :=
  match value with
  | .list _ items => readWordsFrom key 0 items
  | other => .error (.wrongShape other.shownAsShape .sequence)

/-- Reads an entry of a table, if it is there. -/
def readField? {α : Type} (read : String → Value → Except Problem α) (key name : String)
    (fields : List (String × Value)) : Except Problem (Option α) :=
  match Fields.find? name fields with
  | some value => (read (key ++ "." ++ name) value).map some
  | none => .ok none

/-- An entry that has to be there. -/
def needField {α : Type} (name : String) : Option α → Except Problem α
  | some value => .ok value
  | none => .error (.missingField name)

/-- Reads a place of a list that has to be there. -/
def readItem {α : Type} (read : String → Value → Except Problem α) (key : String)
    (shape : Shape) (items : List Value) (place : Nat) : Except Problem α :=
  match items[place]? with
  | some value => read (itemKey key place) value
  | none => .error (.tooShort place shape)

/-- The settings of indentation: entries of a table, or a list of them in order. -/
def readIndent (value : Value) : Except Problem (Nat × Bool) :=
  match value with
  | .table _ fields => do
    let width ← readField? readWidth "indent" "unit_width" fields
    let switch ← readField? readSwitch "indent" "respect_feature_flags" fields
    return (← needField "unit_width" width, ← needField "respect_feature_flags" switch)
  | .list _ items => do
    let width ← readItem readWidth "indent" .indent items 0
    let switch ← readItem readSwitch "indent" .indent items 1
    return (width, switch)
  | other => .error (.wrongShape other.shownAsShape .indent)

/-- The settings of comments: the entry of a table, or a list that holds it. -/
def readComments (value : Value) : Except Problem (List String) :=
  match value with
  | .table _ fields => do
    let words ← readField? readWords "comments" "closing_keywords" fields
    needField "closing_keywords" words
  | .list _ items => readItem readWords "comments" .comments items 0
  | other => .error (.wrongShape other.shownAsShape .comments)

/-- The settings that the merged values make. -/
def readSettings (root : Value) : Except Problem Settings := do
  let (unitWidth, respectFeatures) ← readIndent (← needField "indent" (root.field? "indent"))
  let closingKeywords ← readComments (← needField "comments" (root.field? "comments"))
  return { unitWidth, respectFeatures, closingKeywords }

end TomlFolder

end LineLayout
