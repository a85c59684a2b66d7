-- Tokens. A token is one lexical unit or one run of layout whitespace. A line break stands
-- inside a whitespace token, and the token that holds it is the last one of its line. A
-- token knows where it is shown and nothing about its neighbours.
import LineLayout.Fault

namespace LineLayout

/-! ## Kinds and switches -/

/-- What a token is. No layout operation changes it. A virtual bracket is a parenthesised
continuation and only tags an open level. -/
inductive Kind where
  | whitespace
  | comment
  | reservedWord
  | identifier
  | directive
  | number
  | string
  | symbol
  | virtualBracket
  deriving DecidableEq

/-- The short name of a kind in a listing. -/
def Kind.label : Kind → String
  | .whitespace => "whitespace"
  | .comment => "comment"
  | .reservedWord => "reserved-word"
  | .identifier => "identifier"
  | .directive => "directive"
  | .number => "number"
  | .string => "string"
  | .symbol => "symbol"
  | .virtualBracket => "virtual-round-bracket"

/-- The switches of one token. A layout operation carries them along and never sets them. -/
structure Features where
  reservedCase : Bool
  directiveCase : Bool
  identifierCase : Bool
  spacing : Bool
  indent : Bool
  wrap : Bool
  blankLines : Bool
  deriving DecidableEq

def Features.all : Features := ⟨true, true, true, true, true, true, true⟩

def Features.none : Features := ⟨false, false, false, false, false, false, false⟩

/-! ## Tokens -/

/-- A place in the shown text. Rows and columns count from zero. -/
structure Position where
  row : Nat
  col : Nat
  deriving DecidableEq

structure Token where
  text : String
  kind : Kind
  beginsLine : Bool := false
  endsLine : Bool := false
  features : Features := Features.all
  row : Nat := 0
  col : Nat := 0
  deriving DecidableEq

namespace Token

/-- Where the token says that it stands. -/
def position (t : Token) : Position := ⟨t.row, t.col⟩

/-- The columns that the text takes: one for each character. -/
def width (t : Token) : Nat := t.text.length

/-- How many line breaks the text holds. -/
def lineBreaks (t : Token) : Nat := t.text.toList.count '\n'

/-- The text ends with a line break, so the next token starts a line. A comment over several
lines holds breaks and does not end its line. -/
def endsWithBreak (t : Token) : Bool := t.text.toList.getLast? == some '\n'

def isWhitespace (t : Token) : Bool := t.kind == .whitespace

def isComment (t : Token) : Bool := t.kind == .comment

/-- Whitespace and comments. Every other token is code. -/
def isTrivia (t : Token) : Bool := t.isWhitespace || t.isComment

/-- Two texts are the same up to the case of ASCII letters. -/
def sameWord (a b : String) : Bool := a.toList.map Char.toLower == b.toList.map Char.toLower

/-- The token has this kind and this text, up to the case of ASCII letters. -/
def isWord (t : Token) (kind : Kind) (text : String) : Bool :=
  t.kind == kind && sameWord t.text text

end Token

/-- The characters after the last line break of a text. -/
def lastLine (text : List Char) : List Char :=
  (text.reverse.takeWhile (· != '\n')).reverse

/-- The place right after a text that starts at `p`. -/
def Position.after (p : Position) (text : List Char) : Position :=
  if '\n' ∈ text then ⟨p.row + text.count '\n', (lastLine text).length⟩
  else ⟨p.row, p.col + text.length⟩

/-- The place right after the last character of the token, where the next token stands. -/
def Token.following (t : Token) : Position := t.position.after t.text.toList

/-- The place after the token, as long as it fits in words. -/
def Token.endPlace (t : Token) : Except Fault Position :=
  if t.following.row < wordLimit ∧ t.following.col < wordLimit then .ok t.following
  else .error .sumTooLarge

end LineLayout
