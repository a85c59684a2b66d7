-- What stops an operation. A fault means that the request itself cannot be carried out: the
-- id names no token, or a coordinate or a text would leave the range that fits in a machine
-- word. An operation that faults changes nothing.

namespace LineLayout

/-- The name of a token in a chain: a slot of the arena, and how many tokens left that slot
before this one came. -/
structure TokenId where
  index : UInt32
  generation : UInt32
  deriving DecidableEq

/-- Rows, columns, widths and levels are below this number, the 64th power of two. -/
def wordLimit : Nat := 18446744073709551616

/-- A text holds fewer characters than this number, and signed distances lie within it on
both sides of zero. It is the 63rd power of two. -/
def signedLimit : Nat := 9223372036854775808

inductive Fault where
  | staleId (id : TokenId)
  | sumTooLarge
  | differenceTooLarge
  | productTooLarge
  | noRoom
  deriving DecidableEq

/-- What a fault says. -/
def Fault.message : Fault → String
  | .staleId id =>
    "stale token id TokenId \x7b index: " ++ toString id.index.toNat ++
      ", generation: " ++ toString id.generation.toNat ++ " \x7d"
  | .sumTooLarge => "attempt to add with overflow"
  | .differenceTooLarge => "attempt to subtract with overflow"
  | .productTooLarge => "attempt to multiply with overflow"
  | .noRoom => "capacity overflow"

/-- A product, as long as it fits in a word. -/
def checkedMul (a b : Nat) : Except Fault Nat :=
  if a * b < wordLimit then .ok (a * b) else .error .productTooLarge

/-- A coordinate moved by a signed distance. It stops at zero and at the last number of a
word. -/
def shifted (n : Nat) (delta : Int) : Nat :=
  min ((n : Int) + delta).toNat (wordLimit - 1)

end LineLayout
