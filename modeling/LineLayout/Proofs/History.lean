-- Chains over time. A caller makes one request after the other and keeps the ids that it gets
-- back. Whatever the requests were, the chain behaves as a list of entries: an insertion puts
-- one entry in its place, a removal takes one out, and an id whose token is gone takes nothing
-- out ever after.
import LineLayout.Proofs.Links

namespace LineLayout

/-! ## Requests and histories -/

/-- One request to a chain. -/
inductive Request where
  | push (token : Token)
  | insertBefore (anchor : TokenId) (token : Token)
  | insertAfter (anchor : TokenId) (token : Token)
  | erase (id : TokenId)
  | modify (id : TokenId) (f : Token → Token)

/-- A chain, every id that an insertion gave back, and the ids whose token was taken out. -/
structure History where
  chain : TokenChain := TokenChain.empty
  issued : List TokenId := []
  removed : List TokenId := []

namespace History

/-- The history after an insertion. -/
def record (h : History) (new : TokenId × TokenChain) : History :=
  { h with chain := new.2, issued := new.1 :: h.issued }

def step (h : History) : Request → History
  | .push token => h.record (h.chain.push token)
  | .insertBefore anchor token => h.record (h.chain.insertBefore anchor token)
  | .insertAfter anchor token => h.record (h.chain.insertAfter anchor token)
  | .erase id =>
    match h.chain.erase id with
    | some (_, chain) => { h with chain, removed := id :: h.removed }
    | none => h
  | .modify id f => { h with chain := h.chain.modify id f }

/-- The history of a chain that is made from a list of tokens. -/
def ofList (tokens : List Token) : History :=
  tokens.foldl (fun h token => h.step (.push token)) {}

theorem chain_ofList (tokens : List Token) :
    (ofList tokens).chain = TokenChain.ofList tokens := by
  unfold ofList TokenChain.ofList
  suffices h : ∀ (h : History), (tokens.foldl (fun h token => h.step (.push token)) h).chain =
      tokens.foldl (fun c token => (c.push token).2) h.chain from h {}
  induction tokens with
  | nil => intro h; rfl
  | cons token rest ih => intro h; exact ih _

/-- How many tokens have left a slot. -/
def removalsOf (h : History) (index : UInt32) : Nat :=
  h.removed.countP fun id => id.index == index

/-- There are fewer slots than slot numbers, and no slot was left so often that its
generation started again. -/
structure Within (h : History) : Prop where
  slots : h.chain.slots.size < slotLimit
  removals : ∀ index, h.removalsOf index < slotLimit

/-- As long as few tokens were taken out at all, no slot was left too often. -/
theorem within_of_length {h : History} (hs : h.chain.slots.size < slotLimit)
    (hr : h.removed.length < slotLimit) : h.Within :=
  ⟨hs, fun _ => Nat.lt_of_le_of_lt List.countP_le_length hr⟩

end History

/-- What callers promise: an anchor is live, and an id to take out was given back once. It may
have gone stale since. -/
def Request.Proper (h : History) : Request → Prop
  | .push _ => True
  | .insertBefore anchor _ => h.chain.contains anchor = true
  | .insertAfter anchor _ => h.chain.contains anchor = true
  | .erase id => id ∈ h.issued
  | .modify _ _ => True

instance Request.decidableProper (h : History) : (r : Request) → Decidable (r.Proper h)
  | .push _ => isTrue trivial
  | .insertBefore anchor _ => inferInstanceAs (Decidable (h.chain.contains anchor = true))
  | .insertAfter anchor _ => inferInstanceAs (Decidable (h.chain.contains anchor = true))
  | .erase id => inferInstanceAs (Decidable (id ∈ h.issued))
  | .modify _ _ => isTrue trivial

/-- The histories that proper requests lead to. -/
inductive Reached : History → Prop where
  | ofList (tokens : List Token) : tokens.length < slotLimit → Reached (History.ofList tokens)
  | step {h : History} (request : Request) : Reached h → request.Proper h →
      (h.step request).Within → Reached (h.step request)

/-- Requests that are allowed one after the other, with few slots and few removals on the way. -/
def Request.InTurn (allowed : History → Request → Prop) : List Request → History → Prop
  | [], _ => True
  | request :: rest, h => allowed h request ∧
      ((h.step request).chain.slots.size < slotLimit ∧ (h.step request).removed.length < slotLimit) ∧
      InTurn allowed rest (h.step request)

instance Request.decidableInTurn (allowed : History → Request → Prop)
    [∀ h request, Decidable (allowed h request)] :
    (requests : List Request) → (h : History) → Decidable (InTurn allowed requests h)
  | [], _ => isTrue trivial
  | request :: rest, h =>
    have := decidableInTurn allowed rest (h.step request)
    inferInstanceAs (Decidable (allowed h request ∧ _ ∧ InTurn allowed rest (h.step request)))

/-- What every allowed request keeps, allowed requests in turn keep. -/
theorem Request.InTurn.run {allowed : History → Request → Prop} {P : History → Prop}
    (hstep : ∀ h request, P h → allowed h request → (h.step request).Within → P (h.step request))
    {requests : List Request} {h : History} (hin : InTurn allowed requests h) (hP : P h) :
    P (requests.foldl History.step h) := by
  induction requests generalizing h with
  | nil => exact hP
  | cons request requests ih =>
    obtain ⟨hallowed, ⟨hslots, hremoved⟩, hrest⟩ := hin
    exact ih hrest (hstep h request hP hallowed (History.within_of_length hslots hremoved))

theorem Reached.run {h : History} (hh : Reached h) {requests : List Request}
    (hin : Request.InTurn Request.Proper requests h) : Reached (requests.foldl History.step h) :=
  hin.run (fun _ request hk hproper hw => hk.step request hproper hw) hh

/-! ## What the list says -/

namespace TokenChain

/-- Every question to the chain has the answer that the list gives. -/
structure Mirrors (c : TokenChain) (L : List Entry) : Prop where
  distinct : (L.map Prod.fst).Nodup
  entries : c.entries = L
  toList : c.toList = L.map Prod.snd
  size : c.size = L.length
  head : c.head = L.head?.map Prod.fst
  tail : c.tail = L.getLast?.map Prod.fst
  live : ∀ id, c.contains id = true ↔ id ∈ L.map Prod.fst
  get? : ∀ A id token B, L = A ++ (id, token) :: B → c.get? id = some token
  next? : ∀ A id token B, L = A ++ (id, token) :: B → c.next? id = B.head?.map Prod.fst
  prev? : ∀ A id token B, L = A ++ (id, token) :: B → c.prev? id = A.getLast?.map Prod.fst
  entriesFrom : ∀ A id token B, L = A ++ (id, token) :: B →
    c.entriesFrom id = (id, token) :: B
  entriesBackFrom : ∀ A id token B, L = A ++ (id, token) :: B →
    c.entriesBackFrom id = (A ++ [(id, token)]).reverse

theorem Holds.mirrors {c : TokenChain} {L : List Entry} (h : c.Holds L) : c.Mirrors L where
  distinct := h.distinct
  entries := h.entries_eq
  toList := by rw [TokenChain.toList, h.entries_eq]
  size := h.size
  head := h.head
  tail := h.tail
  live := fun _ => h.live_iff
  get? := by rintro A id token B rfl; exact h.get?_at
  next? := by rintro A id token B rfl; exact h.next?_at
  prev? := by rintro A id token B rfl; exact h.prev?_at
  entriesFrom := by rintro A id token B rfl; exact h.entriesFrom_at
  entriesBackFrom := by rintro A id token B rfl; simpa using h.entriesBackFrom_at

end TokenChain

/-- The chain of a history is a list: its answers come from the list, and every request does
to the chain what its name says of the list. An id that was given back is live or its token was
taken out, and then it stays out. -/
structure History.Refines (h : History) (L : List Entry) : Prop where
  answers : h.chain.Mirrors L
  push : ∀ token,
    (h.chain.push token).2.Mirrors (L ++ [((h.chain.push token).1, token)])
  insertBefore : ∀ A anchor old B token, L = A ++ (anchor, old) :: B →
    (h.chain.insertBefore anchor token).2.Mirrors
      (A ++ ((h.chain.insertBefore anchor token).1, token) :: (anchor, old) :: B)
  insertAfter : ∀ A anchor old B token, L = A ++ (anchor, old) :: B →
    (h.chain.insertAfter anchor token).2.Mirrors
      (A ++ (anchor, old) :: ((h.chain.insertAfter anchor token).1, token) :: B)
  modify : ∀ A id token B f, L = A ++ (id, token) :: B →
    (h.chain.modify id f).Mirrors (A ++ (id, f token) :: B)
  erase_live : ∀ A id token B, L = A ++ (id, token) :: B →
    ∃ d, h.chain.erase id = some (token, d) ∧ d.Mirrors (A ++ B)
  live_or_removed : ∀ id ∈ h.issued, id ∈ L.map Prod.fst ∨ id ∈ h.removed
  erase_stale : ∀ id ∈ h.removed, id ∉ L.map Prod.fst ∧ h.chain.erase id = none ∧
    ∀ f, h.chain.modify id f = h.chain

/-! ## What a history keeps -/

/-- The books of a history: a slot is in the generation that the removals from it give, a
removed id belongs to a past generation of its slot, and every id is live or was removed. -/
structure History.Recorded (h : History) : Prop where
  tidy : h.chain.Tidy
  generations : ∀ index g, h.chain.generation? index.toNat = some g →
    g.toNat = h.removalsOf index
  removed_past : ∀ id ∈ h.removed, id.index.toNat < h.chain.slots.size ∧
    id.generation.toNat < h.removalsOf id.index
  live_or_removed : ∀ id ∈ h.issued, h.chain.contains id = true ∨ id ∈ h.removed

theorem recorded_empty : ({} : History).Recorded := by
  refine ⟨TokenChain.tidy_empty, ?_, ?_, ?_⟩
  · intro index g hg
    simp [TokenChain.generation?, TokenChain.empty] at hg
  · intro id hm
    cases hm
  · intro id hm
    cases hm

theorem History.Recorded.stale {h : History} (hr : h.Recorded) {id : TokenId}
    (hm : id ∈ h.removed) : h.chain.node? id = none := by
  rcases hn : h.chain.node? id with _ | node
  · rfl
  · have hg := hr.generations _ _ (TokenChain.generation?_of_node? hn)
    have hpast := (hr.removed_past id hm).2
    omega

/-- What every insertion does to the arena: it takes one slot, and sets links. -/
structure Inserted (c : TokenChain) (new : TokenId × TokenChain) : Prop where
  tidy : new.2.Tidy
  live : new.2.contains new.1 = true
  keeps : ∀ id, c.contains id = true → new.2.contains id = true
  slotCount : c.slots.size ≤ new.2.slots.size
  generation? : ∀ slot, new.2.generation? slot = c.generation? slot ∨
    slot = c.slots.size ∧ new.2.generation? slot = some 0

theorem TokenChain.Tidy.inserted {c d : TokenChain} {node : Node} (h : c.Tidy)
    (hroom : c.slots.size < slotLimit) (htidy : d.Tidy) (hd : (c.alloc node).2.SameSlots d) :
    Inserted c ((c.alloc node).1, d) := by
  have hnode := h.node?_alloc hroom node
  refine ⟨htidy, ?_, ?_, ?_, ?_⟩
  · rw [hd.contains, TokenChain.contains, hnode]
    simp
  · intro id hc
    rw [hd.contains, TokenChain.contains, hnode]
    by_cases he : id = (c.alloc node).1
    · simp [he]
    · simpa [he, TokenChain.contains] using hc
  · rw [hd.slotCount]
    exact TokenChain.slotCount_le_alloc c node
  · intro slot
    rw [hd.generation?]
    exact h.generation?_alloc node slot

theorem inserted_push {c : TokenChain} (h : c.Tidy) (hroom : c.slots.size < slotLimit)
    (token : Token) : Inserted c (c.push token) :=
  h.inserted hroom (((h.alloc hroom _).linkForward _ _).linkBackward none _)
    ((TokenChain.sameSlots_linkForward _ _ _).trans (TokenChain.sameSlots_linkBackward _ none _))

theorem inserted_insertBefore {c : TokenChain} (h : c.Tidy) (hroom : c.slots.size < slotLimit)
    (anchor : TokenId) (token : Token) : Inserted c (c.insertBefore anchor token) :=
  h.inserted hroom (((h.alloc hroom _).linkForward _ _).modifyNode _ _)
    ((TokenChain.sameSlots_linkForward _ _ _).trans (TokenChain.sameSlots_modifyNode _ _ _))

theorem inserted_insertAfter {c : TokenChain} (h : c.Tidy) (hroom : c.slots.size < slotLimit)
    (anchor : TokenId) (token : Token) : Inserted c (c.insertAfter anchor token) :=
  h.inserted hroom (((h.alloc hroom _).linkBackward _ _).modifyNode _ _)
    ((TokenChain.sameSlots_linkBackward _ _ _).trans (TokenChain.sameSlots_modifyNode _ _ _))

theorem History.Recorded.record {h : History} (hr : h.Recorded) {new : TokenId × TokenChain}
    (hn : Inserted h.chain new) : (h.record new).Recorded := by
  refine ⟨hn.tidy, ?_, ?_, ?_⟩
  · intro index g hg
    rcases hn.generation? index.toNat with hsame | ⟨hnew, hzero⟩
    · exact hr.generations index g (hsame.symm.trans hg)
    · have hcount : h.removalsOf index = 0 := by
        apply List.countP_eq_zero.mpr
        intro id hm hi
        have hlt := (hr.removed_past id hm).1
        rw [beq_iff_eq] at hi
        rw [hi] at hlt
        omega
      have hgz : g = 0 := Option.some.inj (hg.symm.trans hzero)
      change g.toNat = h.removalsOf index
      rw [hcount, hgz]
      rfl
  · intro id hm
    obtain ⟨hlt, hpast⟩ := hr.removed_past id hm
    exact ⟨Nat.lt_of_lt_of_le hlt hn.slotCount, hpast⟩
  · intro id hm
    rcases List.mem_cons.mp hm with rfl | hm
    · exact Or.inl hn.live
    · exact (hr.live_or_removed id hm).imp_left (hn.keeps id)

/-- What every removal does to the arena: it leaves one slot, and sets links. -/
theorem TokenChain.Tidy.erase_of_live {c : TokenChain} (h : c.Tidy) {id : TokenId} {node : Node}
    (hn : c.node? id = some node) :
    ∃ d, c.erase id = some (node.token, d) ∧ (c.release id).SameSlots d ∧ d.Tidy := by
  refine ⟨_, by rw [TokenChain.erase, hn]; rfl, ?_, ?_⟩
  · exact (TokenChain.sameSlots_linkForward _ _ _).trans (TokenChain.sameSlots_linkBackward _ _ _)
  · exact ((h.release hn).linkForward _ _).linkBackward _ _

theorem History.removalsOf_cons (h : History) (d : TokenChain) (id : TokenId) (index : UInt32) :
    ({ h with chain := d, removed := id :: h.removed } : History).removalsOf index =
      h.removalsOf index + if id.index = index then 1 else 0 := by
  by_cases hi : id.index = index
  · simp [History.removalsOf, hi]
  · simp [History.removalsOf, hi]

/-- The slot that a token leaves goes on to the generation after this removal. -/
theorem History.Recorded.generation_release {h : History} (hr : h.Recorded) {id : TokenId}
    {node : Node} (hn : h.chain.node? id = some node)
    (hlimit : h.removalsOf id.index + 1 < slotLimit) {index : UInt32} {g : UInt32}
    (hg : (h.chain.release id).generation? index.toNat = some g) :
    g.toNat = h.removalsOf index + if id.index = index then 1 else 0 := by
  have hgen := hr.generations _ _ (TokenChain.generation?_of_node? hn)
  rw [TokenChain.generation?_release hn] at hg
  by_cases hi : id.index = index
  · rw [if_pos (congrArg UInt32.toNat hi.symm)] at hg
    have hplus : (id.generation + 1).toNat = id.generation.toNat + 1 := by
      rw [UInt32.toNat_add]
      simp only [slotLimit] at hlimit
      exact Nat.mod_eq_of_lt (by simp; omega)
    rw [if_pos hi, ← Option.some.inj hg, hplus, hgen, hi]
  · rw [if_neg fun he => hi (UInt32.toNat_inj.mp he).symm] at hg
    rw [if_neg hi]
    exact hr.generations index g hg

theorem History.Recorded.release {h : History} (hr : h.Recorded) {id : TokenId} {node : Node}
    (hn : h.chain.node? id = some node) (hlimit : h.removalsOf id.index + 1 < slotLimit)
    {d : TokenChain} (hslots : (h.chain.release id).SameSlots d) (htidy : d.Tidy) :
    ({ h with chain := d, removed := id :: h.removed } : History).Recorded := by
  have hgen := hr.generations _ _ (TokenChain.generation?_of_node? hn)
  have hcount : d.slots.size = h.chain.slots.size := by
    rw [hslots.slotCount]
    simp [TokenChain.release]
  refine ⟨htidy, ?_, ?_, ?_⟩
  · intro index g hg
    rw [hslots.generation?] at hg
    rw [History.removalsOf_cons]
    exact hr.generation_release hn hlimit hg
  · intro other hm
    rw [History.removalsOf_cons]
    simp only [hcount]
    rcases List.mem_cons.mp hm with rfl | hm
    · exact ⟨TokenChain.index_lt_of_node? hn, by simp; omega⟩
    · obtain ⟨hlt, hpast⟩ := hr.removed_past other hm
      exact ⟨hlt, by omega⟩
  · intro other hm
    rcases hr.live_or_removed other hm with hlive | hm
    · by_cases he : other = id
      · exact Or.inr (by simp [he])
      · apply Or.inl
        change d.contains other = true
        rw [hslots.contains, TokenChain.contains, TokenChain.node?_release hn, if_neg he]
        exact hlive
    · exact Or.inr (List.mem_cons_of_mem _ hm)

/-- A removal keeps the books, as long as the generation of the slot does not start again. -/
theorem History.Recorded.erase {h : History} (hr : h.Recorded) {id : TokenId}
    (hw : (h.step (.erase id)).Within) : (h.step (.erase id)).Recorded := by
  rcases hn : h.chain.node? id with _ | node
  · have hstep : h.step (.erase id) = h := by
      simp [History.step, TokenChain.erase_of_stale hn]
    rw [hstep]
    exact hr
  · obtain ⟨d, hd, hslots, htidy⟩ := hr.tidy.erase_of_live hn
    have hstep : h.step (.erase id) = { h with chain := d, removed := id :: h.removed } := by
      simp [History.step, hd]
    have hlimit := hw.removals id.index
    rw [hstep, History.removalsOf_cons, if_pos rfl] at hlimit
    rw [hstep]
    exact hr.release hn hlimit hslots htidy

theorem History.Recorded.modify {h : History} (hr : h.Recorded) (id : TokenId)
    (f : Token → Token) : (h.step (.modify id f)).Recorded := by
  have hsame := TokenChain.sameSlots_modifyNode h.chain id
    fun node => { node with token := f node.token }
  refine ⟨hr.tidy.modifyNode _ _, ?_, ?_, ?_⟩
  · intro index g hg
    exact hr.generations index g ((hsame.generation? _).symm.trans hg)
  · intro other hm
    obtain ⟨hlt, hpast⟩ := hr.removed_past other hm
    exact ⟨Nat.lt_of_lt_of_eq hlt hsame.slotCount.symm, hpast⟩
  · intro other hm
    exact (hr.live_or_removed other hm).imp_left ((hsame.contains other).trans)

/-! ## Every history -/

theorem removalsOf_ofList (tokens : List Token) : (History.ofList tokens).removed = [] := by
  induction tokens using List.reverseRecOn with
  | nil => rfl
  | append_singleton tokens token ih =>
    unfold History.ofList at ih ⊢
    rw [List.foldl_append]
    exact ih

theorem recorded_ofList {tokens : List Token} (h : tokens.length < slotLimit) :
    (History.ofList tokens).Within ∧ (History.ofList tokens).Recorded := by
  constructor
  · refine ⟨?_, ?_⟩
    · rw [History.chain_ofList, (TokenChain.slots_ofList tokens).2]
      exact h
    · intro index
      simp [History.removalsOf, removalsOf_ofList, slotLimit]
  · induction tokens using List.reverseRecOn with
    | nil => exact recorded_empty
    | append_singleton tokens token ih =>
      rw [List.length_append, List.length_singleton] at h
      have hr := ih (by omega)
      have hstep : History.ofList (tokens ++ [token]) =
          (History.ofList tokens).step (.push token) := by
        simp [History.ofList]
      rw [hstep]
      refine hr.record (inserted_push hr.tidy ?_ token)
      rw [History.chain_ofList, (TokenChain.slots_ofList tokens).2]
      omega

/-- One request keeps the books, whatever ids it uses. -/
theorem History.Recorded.after {h : History} (hw : h.Within) (hr : h.Recorded)
    {request : Request} (hnext : (h.step request).Within) : (h.step request).Recorded := by
  cases request with
  | push token => exact hr.record (inserted_push hr.tidy hw.slots token)
  | insertBefore anchor token =>
    exact hr.record (inserted_insertBefore hr.tidy hw.slots anchor token)
  | insertAfter anchor token =>
    exact hr.record (inserted_insertAfter hr.tidy hw.slots anchor token)
  | erase id => exact hr.erase hnext
  | modify id f => exact hr.modify id f

/-- One request keeps the books and the list. -/
theorem History.Recorded.step {h : History} {L : List Entry} (hw : h.Within) (hr : h.Recorded)
    (hL : h.chain.Holds L) {request : Request} (hp : request.Proper h)
    (hnext : (h.step request).Within) :
    (h.step request).Recorded ∧ ∃ L', (h.step request).chain.Holds L' := by
  refine ⟨hr.after hw hnext, ?_⟩
  cases request with
  | push token => exact ⟨_, hL.push hw.slots token⟩
  | insertBefore anchor token =>
    obtain ⟨A, old, B, rfl⟩ := hL.split hp
    exact ⟨_, hL.insertBefore hw.slots token⟩
  | insertAfter anchor token =>
    obtain ⟨A, old, B, rfl⟩ := hL.split hp
    exact ⟨_, hL.insertAfter hw.slots token⟩
  | erase id =>
    by_cases hc : h.chain.contains id = true
    · obtain ⟨A, token, B, rfl⟩ := hL.split hc
      obtain ⟨d, hd, hAB⟩ := hL.erase
      exact ⟨A ++ B, by simpa [History.step, hd] using hAB⟩
    · have hn : h.chain.node? id = none := by
        simpa [TokenChain.contains] using hc
      exact ⟨L, by simpa [History.step, TokenChain.erase_of_stale hn] using hL⟩
  | modify id f =>
    by_cases hc : h.chain.contains id = true
    · obtain ⟨A, token, B, rfl⟩ := hL.split hc
      exact ⟨_, hL.modify f⟩
    · have hn : h.chain.node? id = none := by
        simpa [TokenChain.contains] using hc
      refine ⟨L, ?_⟩
      simp only [History.step, TokenChain.modify]
      rw [TokenChain.modifyNode_of_stale _ hn]
      exact hL

theorem Reached.recorded {h : History} (hr : Reached h) :
    h.Within ∧ h.Recorded ∧ ∃ L, h.chain.Holds L := by
  induction hr with
  | ofList tokens hlen =>
    obtain ⟨hw, hr⟩ := recorded_ofList hlen
    obtain ⟨L, hL, -⟩ := TokenChain.holds_ofList (Nat.le_of_lt hlen)
    exact ⟨hw, hr, L, History.chain_ofList tokens ▸ hL⟩
  | step request _ hp hnext ih =>
    obtain ⟨hw, hr, L, hL⟩ := ih
    exact ⟨hnext, hr.step hw hL hp hnext⟩

/-- A chain refines a list. The chain made from a list of tokens gives the tokens back. In
every history of proper requests the chain mirrors a list without duplicates, and each request
does to the chain what its name says of that list. -/
theorem a_chain_refines_a_list :
    (∀ tokens : List Token, tokens.length < slotLimit →
      (TokenChain.ofList tokens).toList = tokens) ∧
    ∀ h : History, Reached h → ∃ L, h.Refines L := by
  constructor
  · intro tokens hlen
    obtain ⟨L, hL, htokens⟩ := TokenChain.holds_ofList (Nat.le_of_lt hlen)
    rw [hL.mirrors.toList, htokens]
  · intro h hreached
    obtain ⟨hw, hr, L, hL⟩ := hreached.recorded
    refine ⟨L, hL.mirrors, ?_, ?_, ?_, ?_, ?_, ?_, ?_⟩
    · intro token
      exact (hL.push hw.slots token).mirrors
    · rintro A anchor old B token rfl
      exact (hL.insertBefore hw.slots token).mirrors
    · rintro A anchor old B token rfl
      exact (hL.insertAfter hw.slots token).mirrors
    · rintro A id token B f rfl
      exact (hL.modify f).mirrors
    · rintro A id token B rfl
      obtain ⟨d, hd, hAB⟩ := hL.erase
      exact ⟨d, hd, hAB.mirrors⟩
    · intro id hm
      exact (hr.live_or_removed id hm).imp_left hL.live_iff.mp
    · intro id hm
      have hn := hr.stale hm
      exact ⟨hL.stale_iff.mp hn, TokenChain.erase_of_stale hn,
        fun f => TokenChain.modifyNode_of_stale _ hn⟩

/-- Two tokens, the first one taken out, a third one in its slot, and the stale id tried again. -/
def slotReuse : List Request :=
  [.erase ⟨0, 0⟩, .push { text := "c", kind := .comment }, .erase ⟨0, 0⟩]

theorem slot_reuse_refines_a_list :
    (TokenChain.ofList [{ text := "a", kind := .number }, { text := "b", kind := .symbol }]).toList =
      [{ text := "a", kind := .number }, { text := "b", kind := .symbol }] ∧
    ∃ L, (slotReuse.foldl History.step (History.ofList
      [{ text := "a", kind := .number }, { text := "b", kind := .symbol }])).Refines L := by
  refine ⟨a_chain_refines_a_list.1 _ (by decide), a_chain_refines_a_list.2 _ ?_⟩
  have hstart : Reached (History.ofList
      [{ text := "a", kind := .number }, { text := "b", kind := .symbol }]) :=
    .ofList _ (by decide)
  exact hstart.run (by decide)

end LineLayout
