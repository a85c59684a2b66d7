-- One run over a program. The run turns levels into columns and lets the switches of each
-- token decide whether an edit applies to it.
import LineLayout.Separation
import LineLayout.CommentAlignment
import LineLayout.Nesting

namespace LineLayout

/-- The choices for a run: the columns for one step of indentation, the words that close a block,
and whether a token is left alone whose switch for the edit is off. -/
structure Options where
  indentWidth : Nat := 4
  closingKeywords : List String := defaultClosers
  respectFeatures : Bool := true
  deriving DecidableEq

/-- Levels are open at the end of a run. -/
structure OpenLevels where
  depth : Nat
  deriving DecidableEq

namespace OpenLevels

def message (u : OpenLevels) : String :=
  "indent stack still holds " ++ toString u.depth ++ " entries at the end of the run"

/-- The note that goes with it. -/
def note (u : OpenLevels) : Note := .openLevels u.depth

end OpenLevels

structure LayoutRun where
  options : Options := {}
  nesting : Nesting := Nesting.empty
  deriving DecidableEq

namespace LayoutRun

/-- A run with nothing open. -/
def start (options : Options) : LayoutRun := { options }

/-- The column of the line: its lowest level in steps. -/
def lineColumn (r : LayoutRun) : Except Fault Nat :=
  checkedMul r.nesting.lowest r.options.indentWidth

/-- The run leaves a token alone: switches count, and this one is off. The token is looked at
only when switches count. -/
def skips (r : LayoutRun) (c : TokenChain) (id : TokenId) (switch : Features → Bool) :
    Except Fault Bool :=
  if r.options.respectFeatures then do
    let token ← c.get id
    return !switch token.features
  else .ok false

/-- Brings the line that starts at `start` to the column of the line. -/
def indentLine (r : LayoutRun) (c : TokenChain) (start : TokenId) :
    Except Fault (Edited TokenId) := do
  if ← r.skips c start Features.indent then return c.unchanged start
  else
    let column ← r.lineColumn
    c.setIndent start column

/-- Makes sure that a blank line follows the line of `id`. -/
def separate (r : LayoutRun) (c : TokenChain) (id : TokenId) :
    Except Fault (Edited (Option TokenId)) := do
  if ← r.skips c id Features.blankLines then return c.unchanged none
  else c.withBlankLineAfter id

/-- Aligns the comments that the switches let through. -/
def alignStandalone (r : LayoutRun) (c : TokenChain) : Except Fault (Edited Nat) :=
  c.alignStandalone r.options.closingKeywords fun comment =>
    !r.options.respectFeatures || comment.features.indent

/-- Ends the run. Every level has to be closed. -/
def finish (r : LayoutRun) : Except OpenLevels Unit :=
  if r.nesting.depth = 0 then .ok () else .error ⟨r.nesting.depth⟩

end LayoutRun

end LineLayout
