-- The check of a chain. Links go both ways, the first token begins a line, a token begins a
-- line exactly after a token that ends one, a token ends its line exactly when its text ends
-- with a line break (the last token apart), each token stands where the text before it stops,
-- and no whitespace token follows another on one line. The check names the first token where
-- this fails by its place in the chain.
import LineLayout.Chain.Walk

namespace LineLayout

/-- What is wrong with a chain. -/
inductive Violation where
  | unlinked (ordinal : Nat)
  | firstInsideLine (ordinal : Nat)
  | lineMarks (ordinal : Nat) (beginsLine endsLine : Bool)
  | breakMark (ordinal : Nat) (endsLine : Bool)
  | misplaced (ordinal : Nat) (expected found : Position)
  | adjacentWhitespace (ordinal : Nat)
  | miscounted (counted recorded : Nat)
  deriving DecidableEq

def Position.text (p : Position) : String :=
  "(" ++ toString p.row ++ ", " ++ toString p.col ++ ")"

namespace Violation

/-- The words for a token that is at fault. -/
def about (ordinal : Nat) (what : String) : String :=
  "token " ++ toString ordinal ++ ": " ++ what

def message : Violation → String
  | .unlinked n => about n "prev link does not point back to its predecessor"
  | .firstInsideLine n => about n "first token does not begin a line"
  | .lineMarks n beginsLine endsLine =>
    about n ("begins_line is " ++ toString beginsLine ++ " but predecessor ends_line is " ++
      toString endsLine)
  | .breakMark n endsLine =>
    about n ("ends_line is " ++ toString endsLine ++ " but its text disagrees")
  | .misplaced n expected found =>
    about n ("expected position " ++ expected.text ++ ", found " ++ found.text)
  | .adjacentWhitespace n => about n "consecutive whitespace tokens on one line"
  | .miscounted counted recorded =>
    "stream length " ++ toString counted ++ " does not match recorded length " ++
      toString recorded

end Violation

/-- What is wrong with the first token of a chain. -/
def headViolation? (t : Token) : Option Violation :=
  if !t.beginsLine then some (.firstInsideLine 0)
  else if t.position ≠ ⟨0, 0⟩ then some (.misplaced 0 ⟨0, 0⟩ t.position)
  else none

/-- What is wrong with a token behind `before`. -/
def stepViolation? (ordinal : Nat) (before t : Token) : Except Fault (Option Violation) :=
  if t.beginsLine ≠ before.endsLine then
    .ok (some (.lineMarks ordinal t.beginsLine before.endsLine))
  else if before.endsLine ≠ before.endsWithBreak then
    .ok (some (.breakMark (ordinal - 1) before.endsLine))
  else
    match before.endPlace with
    | .error fault => .error fault
    | .ok expected =>
      if t.position ≠ expected then .ok (some (.misplaced ordinal expected t.position))
      else if t.isWhitespace && before.isWhitespace && !before.endsLine then
        .ok (some (.adjacentWhitespace ordinal))
      else .ok none

namespace TokenChain

/-- The first violation among the tokens behind `before`. -/
def checkBehind (c : TokenChain) :
    Nat → TokenId × Token → List (TokenId × Token) → Except Fault (Option Violation)
  | _, _, [] => .ok none
  | ordinal, before, entry :: rest =>
    if c.prev? entry.1 ≠ some before.1 then .ok (some (.unlinked ordinal))
    else
      match stepViolation? ordinal before.2 entry.2 with
      | .ok none => checkBehind c (ordinal + 1) entry rest
      | found => found

/-- The first violation among these tokens, which stand at the front of the chain. -/
def checkEntries (c : TokenChain) : List (TokenId × Token) → Except Fault (Option Violation)
  | [] => .ok none
  | entry :: rest =>
    if c.prev? entry.1 ≠ none then .ok (some (.unlinked 0))
    else
      match headViolation? entry.2 with
      | some violation => .ok (some violation)
      | none => c.checkBehind 1 entry rest

/-- The first violation of the chain, or none when it is consistent. -/
def check (c : TokenChain) : Except Fault (Option Violation) :=
  match c.checkEntries c.entries with
  | .ok none =>
    if c.entries.length = c.size then .ok none
    else .ok (some (.miscounted c.entries.length c.size))
  | found => found

end TokenChain

end LineLayout
