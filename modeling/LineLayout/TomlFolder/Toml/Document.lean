-- Reading a settings file: entries, headers, lists and tables between braces. At the end a table
-- with a reserved name in front becomes a moment.
import LineLayout.TomlFolder.Toml.Plain

namespace LineLayout

namespace Toml

/-! ## Keys -/

def isKeyChar (c : Char) : Bool := c.isAlphanum || c == '-' || c == '_'

/-- A name in a key: in quotes, or of letters, digits, dashes and underscores. -/
def name : Reader String
  | '"' :: rest => basicString rest
  | '\x27' :: rest => literalString rest
  | text =>
    let chars := text.takeWhile isKeyChar
    if chars.isEmpty then none else some (String.ofList chars, text.dropWhile isKeyChar)

/-- A name and the dots and names behind it, with blanks between them. -/
def namesFrom : Nat → Reader (List String)
  | 0, _ => none
  | fuel + 1, text => do
    let (first, rest) ← name (skipBlanks text)
    match skipBlanks rest with
    | '.' :: more =>
      let (others, after) ← namesFrom fuel more
      return (first :: others, after)
    | after => return ([first], after)

/-- Keys and values have fewer levels than this. -/
def levelLimit : Nat := 80

def key : Reader (List String) := namesFrom (levelLimit - 1)

/-! ## Values -/

/-- The items of a list. The opening bracket is read already. -/
def items (value : Reader Node) : Nat → Reader (List Node)
  | 0, _ => none
  | fuel + 1, text =>
    match skipLines text with
    | ']' :: rest => some ([], rest)
    | start => do
      let (item, rest) ← value start
      match skipLines rest with
      | ']' :: after => return ([item], after)
      | ',' :: more =>
        let (others, after) ← items value fuel more
        return (item :: others, after)
      | _ => none

/-- A key, an equals sign and a value. -/
def pair (value : Reader Node) : Reader (List String × Node) := fun text => do
  let (names, rest) ← key text
  match rest with
  | '=' :: rest =>
    let (node, rest) ← value (skipBlanks rest)
    return ((names, node), rest)
  | _ => none

/-- The entries of a table between braces, behind the ones in `fields`. -/
def pairs (value : Reader Node) (fields : List (String × Node)) :
    Nat → Reader (List (String × Node))
  | 0, _ => none
  | fuel + 1, text => do
    let ((names, node), rest) ← pair value text
    let grown ← addPair names node .declared fields
    match skipBlanks rest with
    | '\x7d' :: after => return (grown, after)
    | ',' :: more => pairs value grown fuel more
    | _ => none

/-- A table between braces. The opening brace is read already. -/
def closedTable (value : Reader Node) : Reader (List (String × Node)) := fun text =>
  match skipBlanks text with
  | '\x7d' :: rest => some ([], rest)
  | start => pairs value [] start.length start

/-- A value without values inside it. -/
def leaf : Reader Node := fun text =>
  ((anyString text).map fun (s, rest) => (.scalar (.text s), rest)).or
    ((plain text).map fun (value, rest) => (.scalar value, rest))

/-- A value with at most this many levels of lists and tables. -/
def value : Nat → Reader Node
  | 0 => leaf
  | depth + 1 => fun text =>
    match text with
    | '[' :: rest =>
      (items (value depth) (rest.length + 1) rest).map fun (list, after) => (.array list, after)
    | '\x7b' :: rest =>
      (closedTable (value depth) rest).map fun (fields, after) => (.closed fields, after)
    | _ => leaf text

/-! ## Lines -/

/-- What the lines so far make, and the header that holds now. -/
structure Document where
  fields : List (String × Node) := []
  header : List String := []

/-- A header opens its table, and the tables around it where they are missing. -/
def Document.enter (d : Document) (names : List String)
    (enterTable : String → TableOrigin → List (String × Node) → Option (List (String × Node))) :
    Option Document := do
  let last ← names.getLast?
  let fields ← inside false (enterTable last) names.dropLast .declared d.fields
  return ⟨fields, names⟩

/-- An entry goes into the table of the header that holds. -/
def Document.add (d : Document) (names : List String) (node : Node) : Option Document := do
  let fields ← inside false (addPair names node) d.header .declared d.fields
  return { d with fields }

/-- One line: a header, an entry, or nothing but a comment. -/
def line (d : Document) : List Char → Option (Document × List Char)
  | '[' :: '[' :: rest => do
    let (names, rest) ← key rest
    match rest with
    | ']' :: ']' :: rest => return (← d.enter names declareNext, ← lineRest? rest)
    | _ => none
  | '[' :: rest => do
    let (names, rest) ← key rest
    match rest with
    | ']' :: rest => return (← d.enter names declare, ← lineRest? rest)
    | _ => none
  | text =>
    match lineRest? text with
    | some rest => some (d, rest)
    | none => do
      let ((names, node), rest) ← pair (value (levelLimit - 1)) text
      return (← d.add names node, ← lineRest? rest)

/-- The lines of a text. Each one is longer than nothing, so `fuel` is the length. -/
def lines : Nat → Document → List Char → Option Document
  | _, d, [] => some d
  | 0, _, _ => none
  | fuel + 1, d, text => do
    let (grown, rest) ← line d (skipBlanks text)
    lines fuel grown rest

/-! ## Tables that stand for a moment -/

/-- The name that makes a table a moment, when its entry is the first one. -/
def momentName : String := "$__toml_private_datetime"

def standsForMoment (fields : List (String × Node)) : Bool :=
  fields.head?.any fun entry => entry.1 == momentName

/-- The moment of a table that stands for one. Its first entry is the text, and the others do
not count. -/
def tableMoment? : List (String × Node) → Option Scalar
  | (_, .scalar (.text s)) :: _ => (moment? s.toList).map .moment
  | _ => none

mutual

/-- The node with a moment in the place of each table that stands for one. -/
def Node.settled? : Node → Option Node
  | .scalar value => some (.scalar value)
  | .array items => (settledItems? items).map .array
  | .tables items => (settledItems? items).map .tables
  | .closed fields =>
    if standsForMoment fields then (tableMoment? fields).map .scalar
    else (settledFields? fields).map .closed
  | .table origin fields =>
    if standsForMoment fields then (tableMoment? fields).map .scalar
    else (settledFields? fields).map (.table origin)

def settledItems? : List Node → Option (List Node)
  | [] => some []
  | node :: rest => do return (← node.settled?) :: (← settledItems? rest)

def settledFields? : List (String × Node) → Option (List (String × Node))
  | [] => some []
  | (name, node) :: rest => do return (name, ← node.settled?) :: (← settledFields? rest)

end

/-! ## Files -/

/-- A text without the mark that some editors put in front. -/
def dropOrderMark : List Char → List Char
  | c :: rest => if c.toNat = 0xfeff then rest else c :: rest
  | [] => []

/-- The table that the characters of a settings file make, if the file is well formed. A file as a
whole stands for no moment. -/
def tableOf? (text : List Char) : Option (List (String × Node)) := do
  let chars := dropOrderMark text
  let document ← lines chars.length {} chars
  match ← (Node.table .declared document.fields).settled? with
  | .table _ fields => some fields
  | _ => none

/-- The table that a settings file makes. -/
def parse? (text : String) : Option (List (String × Node)) := tableOf? text.toList

end Toml

end LineLayout
