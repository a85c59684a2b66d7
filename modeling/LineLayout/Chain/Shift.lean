-- Moving coordinates after an edit. A shift changes rows or columns and nothing else: no
-- text, kind, mark or link.
import LineLayout.Chain.Walk

namespace LineLayout

def Token.shiftColumn (t : Token) (delta : Int) : Token := { t with col := shifted t.col delta }

def Token.shiftRow (t : Token) (delta : Int) : Token := { t with row := shifted t.row delta }

namespace TokenChain

/-- Changes each token of a stretch, and faults if the stretch runs into a stale link. -/
def modifyStretch (c : TokenChain) (stretch : List (TokenId × Token)) (f : Token → Token) :
    Except Fault TokenChain :=
  match c.staleLinkAfter? stretch with
  | some id => .error (.staleId id)
  | none => .ok (stretch.foldl (fun chain entry => chain.modify entry.1 f) c)

/-- The tokens from `start` on that stand on the row of `start`, up to the first one that
does not. -/
def rowStretch (c : TokenChain) (start : TokenId) : List (TokenId × Token) :=
  match c.get? start with
  | some token => (c.entriesFrom start).takeWhile fun entry => entry.2.row == token.row
  | none => []

/-- Moves the columns of the tokens from `start` to the end of its row. A stale start moves
nothing. -/
def shiftColumns (c : TokenChain) (start : TokenId) (delta : Int) : Except Fault TokenChain :=
  if delta = 0 then .ok c
  else c.modifyStretch (c.rowStretch start) (·.shiftColumn delta)

/-- Moves the rows of all tokens from `start` on. A stale start moves nothing. -/
def shiftRows (c : TokenChain) (start : TokenId) (delta : Int) : Except Fault TokenChain :=
  if delta = 0 then .ok c
  else c.modifyStretch (c.entriesFrom start) (·.shiftRow delta)

/-- Moves columns from a start that may be missing. Without one nothing moves. -/
def shiftColumnsFrom (c : TokenChain) (start : Option TokenId) (delta : Int) :
    Except Fault TokenChain :=
  match start with
  | some id => c.shiftColumns id delta
  | none => .ok c

/-- Moves rows from a start that may be missing. Without one nothing moves. -/
def shiftRowsFrom (c : TokenChain) (start : Option TokenId) (delta : Int) :
    Except Fault TokenChain :=
  match start with
  | some id => c.shiftRows id delta
  | none => .ok c

end TokenChain

end LineLayout
