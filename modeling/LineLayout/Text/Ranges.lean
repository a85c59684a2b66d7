-- Sets of characters, written as the numbers where the set starts and stops.

namespace LineLayout

namespace Text

/-- The character lies in one of the ranges. `bounds` holds, in rising order, where each range
starts and the first number behind it. So a number lies inside when an odd number of bounds
are at or below it. -/
def inRanges (bounds : List Nat) (c : Char) : Bool :=
  bounds.countP (fun bound => bound ≤ c.toNat) % 2 == 1

end Text

end LineLayout
