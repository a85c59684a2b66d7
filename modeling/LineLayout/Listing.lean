-- Showing a chain: as the text that its tokens make, and as a listing with one line for each
-- token.
import LineLayout.Chain.Walk
import LineLayout.Text.Quoted

namespace LineLayout

/-- The line marks of a token: `B` when it begins its line, `E` when it ends it. -/
def Token.marks (t : Token) : String :=
  (if t.beginsLine then "B" else "-") ++ (if t.endsLine then "E" else "-")

/-- The line of a token in a listing: place, kind, marks and quoted text. -/
def Token.listingLine (t : Token) : String :=
  toString t.row ++ ":" ++ toString t.col ++ " " ++ t.kind.label ++ " " ++ t.marks ++ " " ++
    Text.quote t.text ++ "\n"

namespace TokenChain

/-- The text of the chain: every token in order. -/
def render (c : TokenChain) : String := String.join (c.toList.map Token.text)

/-- The listing of the chain. -/
def listing (c : TokenChain) : String := String.join (c.toList.map Token.listingLine)

end TokenChain

end LineLayout
