-- Setting the leading whitespace of a line to an exact width. A line starts with a whitespace
-- token or with content. Whitespace that also ends the line is a blank line and stays. Other
-- whitespace is resized, or taken out when the width is to be zero. Content gets a new
-- whitespace token in front of it, unless the width is to be zero.
import LineLayout.Chain.Shift
import LineLayout.Edit

namespace LineLayout

/-- A word read as a signed one: the upper half is negative. -/
def asSigned (n : Nat) : Int := if n < signedLimit then n else (n : Int) - wordLimit

/-- The distance from one width to another, as long as it fits in a signed word. -/
def widthChange (before after : Nat) : Except Fault Int :=
  if -(signedLimit : Int) ≤ asSigned after - before ∧ asSigned after - before < signedLimit then
    .ok (asSigned after - before)
  else .error .differenceTooLarge

/-- A text of spaces. -/
def spaces (count : Nat) : Except Fault String :=
  if count < signedLimit then .ok (String.ofList (List.replicate count ' ')) else .error .noRoom

/-- Whitespace that begins the line in front of a token, with its place and switches. -/
def Token.leading (t : Token) (text : String) : Token :=
  { text, kind := .whitespace, beginsLine := true, features := t.features,
    row := t.row, col := t.col }

namespace TokenChain

/-- Gives the leading whitespace of a line a new width, which is not zero. -/
def resizeLeading (c : TokenChain) (start next : TokenId) (token : Token) (level : Nat) :
    Except Fault (Edited TokenId) := do
  let delta ← widthChange token.width level
  let text ← spaces level
  let chain ← (c.modify start fun t => { t with text }).shiftColumns next delta
  return ⟨start, chain, [.resizedIndentation token.row token.width level]⟩

/-- Takes the leading whitespace of a line out. The token behind it begins the line. -/
def removeLeading (c : TokenChain) (start next : TokenId) (width : Nat) :
    Except Fault (Edited TokenId) := do
  let follower ← c.get next
  let chain ← (c.modify next fun t => { t with beginsLine := true }).shiftColumns next (-width)
  return ⟨next, ((chain.erase start).map Prod.snd).getD chain, [.removedIndentation follower.row]⟩

/-- Puts whitespace in front of a line that starts with content. -/
def insertLeading (c : TokenChain) (start : TokenId) (token : Token) (level : Nat) :
    Except Fault (Edited TokenId) := do
  let text ← spaces level
  let chain ← (c.modify start fun t => { t with beginsLine := false }).shiftColumns start level
  let new := chain.insertBefore start (token.leading text)
  return ⟨new.1, new.2, [.insertedIndentation level token.row]⟩

/-- Makes the line that starts at `start` begin with `level` columns of whitespace. The answer
is the token that begins the line afterwards. -/
def setIndent (c : TokenChain) (start : TokenId) (level : Nat) :
    Except Fault (Edited TokenId) := do
  let token ← c.get start
  if token.isWhitespace then
    match c.next? start with
    | none => return c.unchanged start
    | some next =>
      if token.endsLine ∨ token.width = level then return c.unchanged start
      else if level = 0 then c.removeLeading start next token.width
      else c.resizeLeading start next token level
  else if level = 0 then return c.unchanged start
  else c.insertLeading start token level

end TokenChain

end LineLayout
