-- Placing classified texts. The tokens get the places and line marks that their texts give
-- them: each one stands where the text before it stops, and begins a line after a line
-- break. The last token ends its line in any case.
import LineLayout.Chain.Walk
import LineLayout.Source.Lexeme

namespace LineLayout

/-- The tokens of these texts, the first one at `p`. -/
def placeFrom (features : Features) :
    Position → Bool → List (Kind × String) → List Token
  | _, _, [] => []
  | p, atLineStart, (kind, text) :: rest =>
    let endsLine := text.toList.getLast? == some '\n'
    { text, kind, beginsLine := atLineStart, endsLine, features, row := p.row, col := p.col } ::
      placeFrom features (p.after text.toList) endsLine rest

/-- The last token of a list ends its line. -/
def closeLastLine : List Token → List Token
  | [] => []
  | [token] => [{ token with endsLine := true }]
  | token :: rest => token :: closeLastLine rest

/-- The tokens of these texts, from the front of the text on. -/
def place (parts : List (Kind × String)) (features : Features) : List Token :=
  closeLastLine (placeFrom features ⟨0, 0⟩ true parts)

namespace TokenChain

/-- A chain of classified texts in their places. -/
def ofParts (parts : List (Kind × String)) (features : Features) : TokenChain :=
  ofList (place parts features)

/-- The chain of a program text. -/
def ofSource (source : String) (features : Features) : TokenChain :=
  ofParts
    ((Lexeme.ofText source.toList).map fun lexeme => (lexeme.kind, String.ofList lexeme.text))
    features

end TokenChain

end LineLayout
