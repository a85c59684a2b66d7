-- Walks along the links of a chain, and the questions that a walk answers: which tokens
-- begin a line, where a line ends, which token of a given text comes next.
import LineLayout.Chain.Basic

namespace LineLayout

namespace TokenChain

/-! ## Walks -/

/-- The tokens met from an id on. The walk ends where there is no further link, or where the
link is stale. A walk visits no slot twice, so `fuel` is the number of slots. -/
def walk (c : TokenChain) (link : Node → Option TokenId) :
    Nat → Option TokenId → List (TokenId × Token)
  | 0, _ => []
  | _ + 1, none => []
  | fuel + 1, some id =>
    match c.node? id with
    | some node => (id, node.token) :: walk c link fuel (link node)
    | none => []

/-- Every token with its id, from the head on. -/
def entries (c : TokenChain) : List (TokenId × Token) :=
  c.walk Node.next c.slots.size c.head

/-- The tokens from `start` on, with `start` itself. -/
def entriesFrom (c : TokenChain) (start : TokenId) : List (TokenId × Token) :=
  c.walk Node.next c.slots.size (some start)

/-- The tokens from `start` back to the front, with `start` itself. -/
def entriesBackFrom (c : TokenChain) (start : TokenId) : List (TokenId × Token) :=
  c.walk Node.prev c.slots.size (some start)

def ids (c : TokenChain) : List TokenId := c.entries.map Prod.fst

/-- The tokens in order, without links. -/
def toList (c : TokenChain) : List Token := c.entries.map Prod.snd

/-- The stale id that a stretch of tokens leads to, if it leads to one. -/
def staleLinkAfter? (c : TokenChain) (stretch : List (TokenId × Token)) : Option TokenId :=
  (stretch.getLast?.bind fun entry => c.next? entry.1).filter fun id => !c.contains id

/-! ## Lines -/

/-- The tokens that begin a line, in order. -/
def lineHeads (c : TokenChain) : List TokenId :=
  (c.entries.filter fun entry => entry.2.beginsLine).map Prod.fst

/-- The last token of the line: the first one at or after `id` that ends a line, or the last
token of all. -/
def lineLast? (c : TokenChain) (id : TokenId) : Option TokenId :=
  let later := c.entriesFrom id
  ((later.find? fun entry => entry.2.endsLine).or later.getLast?).map Prod.fst

/-! ## Looking ahead -/

/-- The first token at or after `start` with this kind and text. -/
def findWord? (c : TokenChain) (start : TokenId) (kind : Kind) (text : String) :
    Option TokenId :=
  ((c.entriesFrom start).find? fun entry => entry.2.isWord kind text).map Prod.fst

/-- The first code token after `id`: neither whitespace nor comment. -/
def nextCode? (c : TokenChain) (id : TokenId) : Option TokenId :=
  (c.next? id).bind fun next =>
    ((c.entriesFrom next).find? fun entry => !entry.2.isTrivia).map Prod.fst

end TokenChain

end LineLayout
