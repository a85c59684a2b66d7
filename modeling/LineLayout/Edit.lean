-- What an edit gives back: its answer, the chain after it, and notes on what it did.
import LineLayout.Chain.Basic

namespace LineLayout

/-- What a note is for: following each change, or a summary. -/
inductive Severity where
  | trace
  | debug
  deriving DecidableEq

/-- One remark on what an edit did. -/
inductive Note where
  | resizedIndentation (row before after : Nat)
  | removedIndentation (row : Nat)
  | insertedIndentation (level row : Nat)
  | insertedBlankLine (row : Nat)
  | alignedComments (count : Nat)
  | openLevels (depth : Nat)
  deriving DecidableEq

namespace Note

def severity : Note → Severity
  | .alignedComments _ | .openLevels _ => .debug
  | _ => .trace

def message : Note → String
  | .resizedIndentation row before after =>
    "resized indentation at row " ++ toString row ++ " from " ++ toString before ++ " to " ++
      toString after
  | .removedIndentation row => "removed indentation at row " ++ toString row
  | .insertedIndentation level row =>
    "inserted indentation of " ++ toString level ++ " at row " ++ toString row
  | .insertedBlankLine row => "inserted blank line at row " ++ toString row
  | .alignedComments count => "aligned " ++ toString count ++ " standalone comments"
  | .openLevels depth =>
    "layout run ended with " ++ toString depth ++ " open indent entries"

end Note

/-- The outcome of an edit. -/
structure Edited (α : Type) where
  value : α
  chain : TokenChain
  notes : List Note := []

/-- An edit that had nothing to do. -/
def TokenChain.unchanged {α : Type} (c : TokenChain) (value : α) : Edited α :=
  { value, chain := c }

end LineLayout
