-- Reading the front of a text: blanks, line ends, comments and quoted strings of a settings
-- file. A reader gives what it read and the rest, or nothing.

namespace LineLayout

namespace Toml

abbrev Reader (α : Type) := List Char → Option (α × List Char)

/-- Reads as often as the reader finds something. Each reading takes at least one character, so
`fuel` is the length of the text. -/
def many {α : Type} (read : Reader α) : Nat → List Char → List α × List Char
  | 0, text => ([], text)
  | fuel + 1, text =>
    match read text with
    | none => ([], text)
    | some (item, rest) =>
      let more := many read fuel rest
      (item :: more.1, more.2)

/-! ## Blanks, line ends and comments -/

def isBlank (c : Char) : Bool := c == ' ' || c == '\t'

/-- A character that may stand in a comment or a string: no control character but the tab. -/
def isPrintable (c : Char) : Bool := c == '\t' || (0x20 ≤ c.toNat && c.toNat != 0x7f)

def skipBlanks (text : List Char) : List Char := text.dropWhile isBlank

/-- Steps over a line end. -/
def newline? : List Char → Option (List Char)
  | '\n' :: rest => some rest
  | '\r' :: '\n' :: rest => some rest
  | _ => none

/-- Steps over a comment, if there is one. -/
def skipComment : List Char → List Char
  | '#' :: rest => rest.dropWhile isPrintable
  | text => text

/-- Steps over what may stand behind an entry or a header on its line, and over the end of the
line. -/
def lineRest? (text : List Char) : Option (List Char) :=
  match skipComment (skipBlanks text) with
  | [] => some []
  | rest => newline? rest

/-- Steps over blanks, comments and line ends. -/
def skipLinesFrom : Nat → List Char → List Char
  | 0, text => text
  | fuel + 1, text =>
    match newline? (skipComment (skipBlanks text)) with
    | some rest => skipLinesFrom fuel rest
    | none => skipBlanks text

def skipLines (text : List Char) : List Char := skipLinesFrom text.length text

/-! ## Characters by number -/

/-- The value of a digit in a base up to sixteen. -/
def digitIn? (base : Nat) (c : Char) : Option Nat :=
  let value :=
    if c.isDigit then c.toNat - 0x30
    else if 'a' ≤ c ∧ c ≤ 'f' then c.toNat - 0x57
    else if 'A' ≤ c ∧ c ≤ 'F' then c.toNat - 0x37
    else base
  if value < base then some value else none

/-- The number that digits of a base write. -/
def numberIn? (base : Nat) (digits : List Char) : Option Nat :=
  digits.foldlM (fun n c => (digitIn? base c).map (n * base + ·)) 0

/-- A character from a fixed count of hexadecimal digits. The number has to be that of a
character. -/
def charByNumber (count : Nat) : Reader Char := fun text =>
  if (text.take count).length < count then none
  else
    (numberIn? 16 (text.take count)).bind fun n =>
      if n.isValidChar then some (Char.ofNat n, text.drop count) else none

/-- What follows a backslash. -/
def escape : Reader Char
  | 'b' :: rest => some ('\x08', rest)
  | 'f' :: rest => some ('\x0c', rest)
  | 'n' :: rest => some ('\n', rest)
  | 'r' :: rest => some ('\r', rest)
  | 't' :: rest => some ('\t', rest)
  | '"' :: rest => some ('"', rest)
  | '\\' :: rest => some ('\\', rest)
  | 'u' :: rest => charByNumber 4 rest
  | 'U' :: rest => charByNumber 8 rest
  | _ => none

/-! ## Strings on one line -/

/-- One character between double quotes. -/
def basicChar : Reader Char
  | '\\' :: rest => escape rest
  | '"' :: _ => none
  | c :: rest => if isPrintable c then some (c, rest) else none
  | [] => none

/-- A string in double quotes. The first quote is read already. -/
def basicString : Reader String := fun text =>
  match many basicChar text.length text with
  | (chars, '"' :: rest) => some (String.ofList chars, rest)
  | _ => none

/-- One character between single quotes. -/
def literalChar : Reader Char
  | '\x27' :: _ => none
  | c :: rest => if isPrintable c then some (c, rest) else none
  | [] => none

/-- A string in single quotes. The first quote is read already. -/
def literalString : Reader String := fun text =>
  match many literalChar text.length text with
  | (chars, '\x27' :: rest) => some (String.ofList chars, rest)
  | _ => none

/-! ## Strings over several lines -/

/-- A line end inside a string is a line feed, however the file writes it. -/
def breakChar : Reader (List Char) := fun text => (newline? text).map fun rest => (['\n'], rest)

/-- Steps over blanks and line ends. -/
def skipGaps : Nat → List Char → List Char
  | 0, text => text
  | fuel + 1, text =>
    match newline? (skipBlanks text) with
    | some rest => skipGaps fuel rest
    | none => skipBlanks text

/-- A backslash at the end of a line joins the lines: it takes the blanks and line ends behind
it away. -/
def joinedLines : Reader (List Char)
  | '\\' :: rest =>
    (newline? (skipBlanks rest)).map fun next => ([], skipGaps next.length next)
  | _ => none

/-- One or two quotes that do not close the string. -/
def looseQuotes (mark : Char) : Reader (List Char) := fun text =>
  let quotes := text.takeWhile (· == mark)
  if quotes.length = 1 ∨ quotes.length = 2 then some (quotes, text.drop quotes.length) else none

/-- One piece of a string in three double quotes. -/
def basicPiece : Reader (List Char) := fun text =>
  (looseQuotes '"' text).or <| (joinedLines text).or <| (breakChar text).or <|
    (basicChar text).map fun (c, rest) => ([c], rest)

/-- One piece of a string in three single quotes. -/
def literalPiece : Reader (List Char) := fun text =>
  (looseQuotes '\x27' text).or <| (breakChar text).or <|
    (literalChar text).map fun (c, rest) => ([c], rest)

/-- A string over several lines. The three quotes in front are read already. A line end right
behind them is dropped, and up to two quotes may stand right before the closing ones. -/
def multilineString (mark : Char) (piece : Reader (List Char)) : Reader String := fun text =>
  let body := (newline? text).getD text
  let (pieces, rest) := many piece body.length body
  let quotes := (rest.takeWhile (· == mark)).length
  if quotes < 3 then none
  else
    let kept := min (quotes - 3) 2
    some (String.ofList (pieces.flatten ++ List.replicate kept mark), rest.drop (kept + 3))

/-- A string of any form. -/
def anyString : Reader String
  | '"' :: '"' :: '"' :: rest => multilineString '"' basicPiece rest
  | '"' :: rest => basicString rest
  | '\x27' :: '\x27' :: '\x27' :: rest => multilineString '\x27' literalPiece rest
  | '\x27' :: rest => literalString rest
  | _ => none

end Toml

end LineLayout
