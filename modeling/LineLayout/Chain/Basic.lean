-- The token chain. Tokens stand in the slots of an arena and are linked both ways by ids.
-- An id pairs a slot with the generation of the slot. A removal raises the generation, so an
-- id that outlived its token names nothing, and never the token that takes the slot later.
import LineLayout.Token

namespace LineLayout

/-- A token and its neighbours. -/
structure Node where
  token : Token
  prev : Option TokenId
  next : Option TokenId
  deriving DecidableEq

/-- One place of the arena. The generation counts the tokens that left it. -/
structure Slot where
  generation : UInt32
  node : Option Node
  deriving DecidableEq

/-- Tokens in order. `free` holds the empty slots, the one that was emptied last first. -/
structure TokenChain where
  slots : Array Slot := #[]
  free : List UInt32 := []
  head : Option TokenId := none
  tail : Option TokenId := none
  size : Nat := 0
  deriving DecidableEq

namespace TokenChain

def empty : TokenChain := {}

/-! ## Looking up an id -/

/-- The node of a live id. -/
def node? (c : TokenChain) (id : TokenId) : Option Node :=
  match c.slots[id.index.toNat]? with
  | some slot => if slot.generation = id.generation then slot.node else none
  | none => none

/-- The id names a token of this chain. -/
def contains (c : TokenChain) (id : TokenId) : Bool := (c.node? id).isSome

def get? (c : TokenChain) (id : TokenId) : Option Token := (c.node? id).map Node.token

def next? (c : TokenChain) (id : TokenId) : Option TokenId := (c.node? id).bind Node.next

def prev? (c : TokenChain) (id : TokenId) : Option TokenId := (c.node? id).bind Node.prev

/-- The token of an id that has to be live. -/
def get (c : TokenChain) (id : TokenId) : Except Fault Token :=
  match c.get? id with
  | some token => .ok token
  | none => .error (.staleId id)

/-! ## Changing a node in its place -/

/-- Changes the node of a live id. Nothing changes for a stale one. -/
def modifyNode (c : TokenChain) (id : TokenId) (f : Node → Node) : TokenChain :=
  match c.node? id with
  | some node =>
    { c with slots := c.slots.setIfInBounds id.index.toNat ⟨id.generation, some (f node)⟩ }
  | none => c

/-- Changes the token of a live id and keeps its links. -/
def modify (c : TokenChain) (id : TokenId) (f : Token → Token) : TokenChain :=
  c.modifyNode id fun node => { node with token := f node.token }

def setNext (c : TokenChain) (id : TokenId) (next : Option TokenId) : TokenChain :=
  c.modifyNode id fun node => { node with next }

def setPrev (c : TokenChain) (id : TokenId) (prev : Option TokenId) : TokenChain :=
  c.modifyNode id fun node => { node with prev }

/-- The token before takes `next` as its next one. Without a token before, the head does. -/
def linkForward (c : TokenChain) (before next : Option TokenId) : TokenChain :=
  match before with
  | some id => c.setNext id next
  | none => { c with head := next }

/-- The token after takes `prev` as its previous one. Without a token after, the tail does. -/
def linkBackward (c : TokenChain) (after prev : Option TokenId) : TokenChain :=
  match after with
  | some id => c.setPrev id prev
  | none => { c with tail := prev }

/-! ## Taking and leaving slots -/

/-- Puts a node into the slot that was emptied last, or into a new slot at the end. -/
def alloc (c : TokenChain) (node : Node) : TokenId × TokenChain :=
  match c.free with
  | index :: free =>
    let generation := (c.slots[index.toNat]?.map Slot.generation).getD 0
    (⟨index, generation⟩,
      { c with
        slots := c.slots.setIfInBounds index.toNat ⟨generation, some node⟩
        free
        size := c.size + 1 })
  | [] =>
    (⟨c.slots.size.toUInt32, 0⟩,
      { c with slots := c.slots.push ⟨0, some node⟩, size := c.size + 1 })

/-- Empties the slot of a live id, which makes the id stale. -/
def release (c : TokenChain) (id : TokenId) : TokenChain :=
  { c with
    slots := c.slots.setIfInBounds id.index.toNat ⟨id.generation + 1, none⟩
    free := id.index :: c.free
    size := c.size - 1 }

/-! ## The operations -/

/-- Puts a token behind the tail. -/
def push (c : TokenChain) (token : Token) : TokenId × TokenChain :=
  let new := c.alloc ⟨token, c.tail, none⟩
  (new.1, { new.2.linkForward c.tail (some new.1) with tail := some new.1 })

/-- Puts a token directly before the anchor. With a stale anchor the token becomes the head
and points to the stale id. -/
def insertBefore (c : TokenChain) (anchor : TokenId) (token : Token) : TokenId × TokenChain :=
  let before := c.prev? anchor
  let new := c.alloc ⟨token, before, some anchor⟩
  (new.1, (new.2.linkForward before (some new.1)).setPrev anchor (some new.1))

/-- Puts a token directly after the anchor. With a stale anchor the token becomes the tail
and points back to the stale id. -/
def insertAfter (c : TokenChain) (anchor : TokenId) (token : Token) : TokenId × TokenChain :=
  let after := c.next? anchor
  let new := c.alloc ⟨token, some anchor, after⟩
  (new.1, (new.2.linkBackward after (some new.1)).setNext anchor (some new.1))

/-- Takes a token out and gives it back. A stale id takes nothing. -/
def erase (c : TokenChain) (id : TokenId) : Option (Token × TokenChain) :=
  (c.node? id).map fun node =>
    (node.token,
      ((c.release id).linkForward node.prev node.next).linkBackward node.next node.prev)

/-- The tokens in this order, with places and marks as they are. -/
def ofList (tokens : List Token) : TokenChain :=
  tokens.foldl (fun c token => (c.push token).2) empty

end TokenChain

end LineLayout
