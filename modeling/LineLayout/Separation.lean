-- Keeping lines apart. A blank line is one whitespace token that begins and ends its line.
-- Where none follows a line, one is put in at column zero, and every later token moves down a
-- row.
import LineLayout.Chain.Shift
import LineLayout.Edit

namespace LineLayout

/-- A whitespace token that ends its line: with it the line before has its blank line. -/
def Token.isBlankLine (t : Token) : Bool := t.isWhitespace && t.endsLine

/-- The blank line that goes in front of a token. -/
def Token.blankLineBefore (t : Token) : Token :=
  { text := "\n", kind := .whitespace, beginsLine := true, endsLine := true,
    features := t.features, row := t.row }

namespace TokenChain

/-- The last token of the line of `id`, and the token behind it. -/
def lineBoundary? (c : TokenChain) (id : TokenId) : Option (TokenId × TokenId) :=
  (c.lineLast? id).bind fun last => (c.next? last).map fun next => (last, next)

/-- Makes sure that a blank line follows the line of `id`. The answer is the new blank line,
or nothing when the line is the last one or has a blank line behind it. -/
def withBlankLineAfter (c : TokenChain) (id : TokenId) :
    Except Fault (Edited (Option TokenId)) :=
  match c.lineBoundary? id with
  | none => .ok (c.unchanged none)
  | some (last, next) => do
    let closed := c.modify last fun t => { t with endsLine := true }
    let follower ← closed.get next
    if follower.isBlankLine then return closed.unchanged none
    else
      let moved ← closed.shiftRows next 1
      let new := moved.insertAfter last follower.blankLineBefore
      return ⟨some new.1, new.2, [.insertedBlankLine follower.row]⟩

end TokenChain

end LineLayout
