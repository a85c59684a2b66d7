-- The open levels of a program while a walker reads it. Each level is tagged with a kind, and
-- the kind gives its weight: a parenthesised continuation weighs nothing, all else weighs one.
-- Beside the level that holds now, the nesting keeps the lowest level of the line so far.
import LineLayout.Token

namespace LineLayout

/-- How many steps of indentation an open level adds. -/
def Kind.weight : Kind → Nat
  | .virtualBracket => 0
  | _ => 1

/-- The open levels, the innermost first. -/
structure Nesting where
  entries : List Kind := []
  level : Nat := 0
  lowest : Nat := 0
  deriving DecidableEq

namespace Nesting

def empty : Nesting := {}

/-- Opens a level. -/
def push (n : Nesting) (kind : Kind) : Nesting :=
  { n with entries := kind :: n.entries, level := n.level + kind.weight }

/-- Closes the innermost level, and lowers the lowest level of the line. -/
def pop (n : Nesting) : Option Kind × Nesting :=
  match n.entries with
  | [] => (none, n)
  | kind :: entries =>
    (some kind,
      { entries, level := n.level - kind.weight, lowest := min n.lowest (n.level - kind.weight) })

/-- Closes the innermost level for the next line. The lowest level of this line stays. -/
def popForNextLine (n : Nesting) : Option Kind × Nesting :=
  (n.pop.1, { n.pop.2 with lowest := n.lowest })

/-- Starts a new line: its lowest level is the level that holds now. -/
def startLine (n : Nesting) : Nesting := { n with lowest := n.level }

def top? (n : Nesting) : Option Kind := n.entries.head?

/-- The innermost level has this kind. -/
def topIs (n : Nesting) (kind : Kind) : Bool := n.top? == some kind

def depth (n : Nesting) : Nat := n.entries.length

end Nesting

end LineLayout
