-- Aligning comments. A comment that stands alone on its line moves to the column of the code
-- that follows it. A comment with code in front of it, or with code behind it on the row where
-- it ends, stays. So does one with no code after it, and one before a word that closes a block:
-- at the column of the closing word it would seem to belong to the block that just ended.
import LineLayout.LeadingWhitespace

namespace LineLayout

/-- The words that close a block, unless the settings name others. -/
def defaultClosers : List String := ["end", "until"]

/-- The token is a reserved word that closes a block. -/
def Token.closesBlock (closers : List String) (t : Token) : Bool :=
  closers.any fun word => t.isWord .reservedWord word

/-- The token that begins the line, found backwards over whitespace. `first` is the nearest
token of the line so far. -/
def leadingStart? (first : TokenId) : List (TokenId × Token) → Option TokenId
  | [] => some first
  | (id, token) :: before =>
    if !token.isWhitespace then none
    else if token.beginsLine then some id
    else leadingStart? id before

namespace TokenChain

/-- The token that begins the line of a comment, when only whitespace comes before the comment
on its line. -/
def standaloneStart? (c : TokenChain) (comment : TokenId) : Option TokenId :=
  match c.entriesBackFrom comment with
  | [] => some comment
  | (_, token) :: before =>
    if token.beginsLine then some comment else leadingStart? comment before

/-- The column for a comment: that of the code below it, unless that code closes a block. -/
def alignmentColumn? (c : TokenChain) (closers : List String) (comment : TokenId) :
    Except Fault (Option Nat) :=
  match c.nextCode? comment with
  | none => .ok none
  | some anchor => do
    let code ← c.get anchor
    let note ← c.get comment
    let ending ← note.endPlace
    if code.row ≤ ending.row ∨ code.closesBlock closers then return none
    else return some code.col

/-- Where the line of a standalone comment starts, and the column that it goes to. -/
def alignmentOf? (c : TokenChain) (closers : List String) (comment : TokenId) :
    Except Fault (Option (TokenId × Nat)) :=
  match c.standaloneStart? comment with
  | none => .ok none
  | some start => do
    let column ← c.alignmentColumn? closers comment
    return column.map fun col => (start, col)

/-- Aligns these comments one after the other, and counts the ones with a column to go to. -/
def alignEach (closers : List String) : List TokenId → TokenChain → Except Fault (Edited Nat)
  | [], c => .ok (c.unchanged 0)
  | comment :: rest, c => do
    match ← c.alignmentOf? closers comment with
    | none => alignEach closers rest c
    | some (start, column) =>
      let moved ← c.setIndent start column
      let others ← alignEach closers rest moved.chain
      return ⟨others.value + 1, others.chain, moved.notes ++ others.notes⟩

/-- The comments that `accepts` lets through, in order. -/
def comments (c : TokenChain) (accepts : Token → Bool) : List TokenId :=
  (c.entries.filter fun entry => entry.2.isComment && accepts entry.2).map Prod.fst

/-- Aligns every standalone comment that `accepts` lets through. The answer is how many had a
column to go to. -/
def alignStandalone (c : TokenChain) (closers : List String) (accepts : Token → Bool) :
    Except Fault (Edited Nat) := do
  let aligned ← alignEach closers (c.comments accepts) c
  return { aligned with notes := aligned.notes ++ [.alignedComments aligned.value] }

end TokenChain

end LineLayout
