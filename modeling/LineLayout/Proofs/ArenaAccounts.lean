-- The accounts of the arena under misuse. A caller may use any id: live, stale, or never given back.
-- The links of the chain can then be wrong in every way, but links are not on the books. The size,
-- the free list and the slots that are taken change only where a slot is taken or left, and there
-- they change together.
import LineLayout.Proofs.History
import Mathlib.Data.List.Infix
import Mathlib.Order.Bounds.Basic

namespace LineLayout

namespace TokenChain

/-! ## The books -/

/-- Which slots hold a token. -/
def occupied (c : TokenChain) : List Bool := c.slots.toList.map fun slot => slot.node.isSome

/-- The three books of the arena agree: the size is the number of slots that hold a token, and the
free list names the slots that hold none. -/
structure Accounts (c : TokenChain) : Prop where
  size : c.size = c.occupied.count true
  free_nodup : c.free.Nodup
  free_iff : ∀ i, i ∈ c.free.map UInt32.toNat ↔ c.occupied[i]? = some false

theorem length_occupied (c : TokenChain) : c.occupied.length = c.slots.size := by
  simp [occupied]

theorem occupied_of_slot {c : TokenChain} {i : Nat} {slot : Slot} (h : c.slots[i]? = some slot) :
    c.occupied[i]? = some slot.node.isSome := by
  simp [occupied, h]

theorem occupied_of_node? {c : TokenChain} {id : TokenId} {node : Node}
    (h : c.node? id = some node) : c.occupied[id.index.toNat]? = some true :=
  occupied_of_slot (node?_eq_some.mp h)

/-! ## Links are not on the books -/

/-- Two chains with the same books. -/
structure SameBooks (c d : TokenChain) : Prop where
  size : d.size = c.size
  free : d.free = c.free
  occupied : d.occupied = c.occupied

theorem SameBooks.trans {c d e : TokenChain} (h : c.SameBooks d) (k : d.SameBooks e) :
    c.SameBooks e :=
  ⟨k.size.trans h.size, k.free.trans h.free, k.occupied.trans h.occupied⟩

theorem SameBooks.slotCount {c d : TokenChain} (h : c.SameBooks d) :
    d.slots.size = c.slots.size := by
  rw [← length_occupied, h.occupied, length_occupied]

theorem sameBooks_modifyNode (c : TokenChain) (id : TokenId) (f : Node → Node) :
    c.SameBooks (c.modifyNode id f) := by
  refine ⟨size_modifyNode c id f, free_modifyNode c id f, ?_⟩
  rcases hn : c.node? id with _ | node
  · rw [modifyNode_of_stale f hn]
  · obtain ⟨hlt, hheld⟩ := List.getElem?_eq_some_iff.mp (occupied_of_node? hn)
    have hset : (c.modifyNode id f).occupied = c.occupied.set id.index.toNat true := by
      rw [occupied, slots_modifyNode f hn, Array.toList_setIfInBounds, List.map_set]
      rfl
    rw [hset, ← hheld, List.set_getElem_self]

theorem sameBooks_linkForward (c : TokenChain) (before next : Option TokenId) :
    c.SameBooks (c.linkForward before next) := by
  cases before with
  | none => exact ⟨rfl, rfl, rfl⟩
  | some id => exact sameBooks_modifyNode c id _

theorem sameBooks_linkBackward (c : TokenChain) (after prev : Option TokenId) :
    c.SameBooks (c.linkBackward after prev) := by
  cases after with
  | none => exact ⟨rfl, rfl, rfl⟩
  | some id => exact sameBooks_modifyNode c id _

theorem Accounts.of_same {c d : TokenChain} (h : c.Accounts) (hd : c.SameBooks d) :
    d.Accounts := by
  refine ⟨?_, ?_, ?_⟩
  · rw [hd.size, hd.occupied]
    exact h.size
  · rw [hd.free]
    exact h.free_nodup
  · rw [hd.free, hd.occupied]
    exact h.free_iff

/-! ## A slot taken -/

/-- What taking a slot does to the books. The number that a new slot gets is not on them, so it
does not matter here how many slots a number can name. -/
theorem alloc_books (c : TokenChain) (node : Node) :
    (c.free = [] ∧ (c.alloc node).2.free = [] ∧
      (c.alloc node).2.occupied = c.occupied ++ [true]) ∨
    ∃ index free, c.free = index :: free ∧ (c.alloc node).2.free = free ∧
      (c.alloc node).2.occupied = c.occupied.set index.toNat true := by
  unfold alloc
  split
  · next index free hf =>
    refine Or.inr ⟨index, free, hf, rfl, ?_⟩
    simp [occupied, Array.toList_setIfInBounds, List.map_set]
  · next hf =>
    refine Or.inl ⟨hf, hf, ?_⟩
    simp [occupied]

theorem Accounts.full {c : TokenChain} (h : c.Accounts) (hf : c.free = []) :
    c.size = c.slots.size := by
  rw [h.size, ← length_occupied, List.count_eq_length]
  intro held hm
  obtain ⟨i, hi⟩ := List.getElem?_of_mem hm
  cases held with
  | true => rfl
  | false =>
    have hfree := (h.free_iff i).mpr hi
    rw [hf] at hfree
    cases hfree

theorem Accounts.size_le {c : TokenChain} (h : c.Accounts) : c.size ≤ c.slots.size := by
  rw [h.size, ← length_occupied]
  exact List.count_le_length

/-- A slot that is taken leaves the free list, or the arena grows by a slot that never was on it. -/
theorem Accounts.alloc {c : TokenChain} (h : c.Accounts) (node : Node) :
    (c.alloc node).2.Accounts := by
  rcases c.alloc_books node with ⟨hf, hfree, hocc⟩ | ⟨index, free, hf, hfree, hocc⟩
  · refine ⟨?_, by simp [hfree], ?_⟩
    · rw [size_alloc, hocc, h.size]
      simp
    · intro i
      have hno := h.free_iff i
      rw [hf] at hno
      rw [hfree, hocc, List.getElem?_append]
      split
      · exact hno
      · cases hk : i - c.occupied.length <;> simp
  · have hnd := h.free_nodup
    have hiff := h.free_iff
    rw [hf] at hnd hiff
    obtain ⟨hnot, hnd⟩ := List.nodup_cons.mp hnd
    obtain ⟨hlt, hempty⟩ := List.getElem?_eq_some_iff.mp ((hiff index.toNat).mp (by simp))
    refine ⟨?_, by rw [hfree]; exact hnd, ?_⟩
    · rw [size_alloc, hocc, h.size, List.count_set hlt, hempty]
      rfl
    · intro i
      rw [hfree, hocc, List.getElem?_set]
      split
      · next he =>
        subst he
        simp [UInt32.toNat_inj, hnot]
      · next hne =>
        rw [← hiff i, List.map_cons, List.mem_cons]
        exact (or_iff_right (Ne.symm hne)).symm

/-- The arena grows only when it is full, so it is as large as the size ever was. -/
theorem Accounts.slots_alloc {c : TokenChain} (h : c.Accounts) (node : Node) :
    (c.alloc node).2.slots.size = max (c.alloc node).2.size c.slots.size := by
  have hnew := (h.alloc node).size_le
  have hsize := size_alloc c node
  have hslots := length_occupied (c.alloc node).2
  rcases c.alloc_books node with ⟨hf, -, hocc⟩ | ⟨index, free, -, -, hocc⟩
  · have hfull := h.full hf
    rw [hocc, List.length_append, length_occupied, List.length_singleton] at hslots
    omega
  · rw [hocc, List.length_set, length_occupied] at hslots
    omega

/-! ## A slot left -/

theorem occupied_release (c : TokenChain) (id : TokenId) :
    (c.release id).occupied = c.occupied.set id.index.toNat false := by
  simp [occupied, release, Array.toList_setIfInBounds, List.map_set]

/-- A chain with a live id has a token to give. -/
theorem Accounts.size_release {c : TokenChain} (h : c.Accounts) {id : TokenId} {node : Node}
    (hn : c.node? id = some node) : (c.release id).size + 1 = c.size := by
  have hpos : 0 < c.occupied.count true :=
    List.count_pos_iff.mpr (List.mem_of_getElem? (occupied_of_node? hn))
  have hsize := h.size
  have hless : (c.release id).size = c.size - 1 := rfl
  omega

theorem Accounts.release {c : TokenChain} (h : c.Accounts) {id : TokenId} {node : Node}
    (hn : c.node? id = some node) : (c.release id).Accounts := by
  have hheld := occupied_of_node? hn
  have hfree : (c.release id).free = id.index :: c.free := rfl
  obtain ⟨hlt, hget⟩ := List.getElem?_eq_some_iff.mp hheld
  refine ⟨?_, ?_, ?_⟩
  · have hless := h.size_release hn
    have hcount : (c.release id).occupied.count true = c.size - 1 := by
      rw [occupied_release, List.count_set hlt, hget, ← h.size]
      rfl
    rw [hcount]
    omega
  · rw [hfree, List.nodup_cons]
    refine ⟨?_, h.free_nodup⟩
    intro hm
    have hempty := (h.free_iff _).mp (List.mem_map_of_mem hm)
    rw [hheld] at hempty
    cases hempty
  · intro i
    rw [hfree, occupied_release, List.getElem?_set, List.map_cons, List.mem_cons]
    split
    · next he => simp [he]
    · next hne =>
      rw [← h.free_iff i]
      exact or_iff_right (Ne.symm hne)

end TokenChain

/-! ## Every history -/

namespace History

/-- The history of these requests, whatever ids they use. -/
def run (requests : List Request) : History := requests.foldl step {}

theorem run_concat (requests : List Request) (request : Request) :
    run (requests ++ [request]) = (run requests).step request := by
  simp [run]

end History

/-- One step of the accounts: the books agree, and the arena is as large as it was, or as the size
is now. -/
structure TokenChain.Accounted (c d : TokenChain) : Prop where
  accounts : d.Accounts
  slots : d.slots.size = max d.size c.slots.size

namespace TokenChain

theorem Accounts.accounted_alloc {c d : TokenChain} (h : c.Accounts) {node : Node}
    (hd : (c.alloc node).2.SameBooks d) : c.Accounted d := by
  refine ⟨(h.alloc node).of_same hd, ?_⟩
  rw [hd.slotCount, hd.size]
  exact h.slots_alloc node

/-- As long as the arena does not grow, it is large enough. -/
theorem Accounts.accounted_of_slots {c d : TokenChain} (h : d.Accounts)
    (hd : d.slots.size = c.slots.size) : c.Accounted d := by
  have hle := h.size_le
  exact ⟨h, by omega⟩

theorem Accounts.accounted_erase {c d : TokenChain} (h : c.Accounts) {id : TokenId}
    {token : Token} (he : c.erase id = some (token, d)) :
    c.Accounted d ∧ d.size + 1 = c.size := by
  obtain ⟨node, hn, hd⟩ := Option.map_eq_some_iff.mp he
  cases hd
  have hsame := (sameBooks_linkForward (c.release id) node.prev node.next).trans
    (sameBooks_linkBackward _ node.next node.prev)
  refine ⟨((h.release hn).of_same hsame).accounted_of_slots ?_, ?_⟩
  · rw [hsame.slotCount]
    simp [TokenChain.release]
  · rw [hsame.size]
    exact h.size_release hn

end TokenChain

/-- Every request keeps the accounts, whatever id it uses: its links may go wrong, its slots do
not. -/
theorem TokenChain.Accounts.step {h : History} (ha : h.chain.Accounts) (request : Request) :
    h.chain.Accounted (h.step request).chain := by
  cases request with
  | push token =>
    exact ha.accounted_alloc ((TokenChain.sameBooks_linkForward _ _ _).trans
      (TokenChain.sameBooks_linkBackward _ none _))
  | insertBefore anchor token =>
    exact ha.accounted_alloc ((TokenChain.sameBooks_linkForward _ _ _).trans
      (TokenChain.sameBooks_modifyNode _ _ _))
  | insertAfter anchor token =>
    exact ha.accounted_alloc ((TokenChain.sameBooks_linkBackward _ _ _).trans
      (TokenChain.sameBooks_modifyNode _ _ _))
  | erase id =>
    simp only [History.step]
    split
    · next he => exact (ha.accounted_erase he).1
    · exact ha.accounted_of_slots rfl
  | modify id f =>
    have hsame := TokenChain.sameBooks_modifyNode h.chain id
      fun node => { node with token := f node.token }
    exact (ha.of_same hsame).accounted_of_slots hsame.slotCount

theorem accounts_run (requests : List Request) : (History.run requests).chain.Accounts := by
  induction requests using List.reverseRecOn with
  | nil => exact ⟨rfl, List.nodup_nil, by simp [History.run, TokenChain.occupied, TokenChain.empty]⟩
  | append_singleton requests request ih =>
    rw [History.run_concat]
    exact (ih.step request).accounts

/-- The sizes that the chain has had on the way. -/
def sizesReached (requests : List Request) : Set Nat :=
  {size | ∃ front, front <+: requests ∧ size = (History.run front).chain.size}

theorem sizesReached_concat (requests : List Request) (request : Request) :
    sizesReached (requests ++ [request]) =
      insert (History.run (requests ++ [request])).chain.size (sizesReached requests) := by
  ext size
  simp [sizesReached, List.prefix_concat_iff, or_and_right, exists_or]

/-- There are as many slots as there ever were tokens at a time. -/
theorem isGreatest_slots_run (requests : List Request) :
    IsGreatest (sizesReached requests) (History.run requests).chain.slots.size := by
  induction requests using List.reverseRecOn with
  | nil =>
    have hsizes : sizesReached [] = {0} := by
      ext size
      simp [sizesReached, History.run, TokenChain.empty]
    rw [hsizes]
    exact isGreatest_singleton
  | append_singleton requests request ih =>
    rw [sizesReached_concat, History.run_concat, ((accounts_run requests).step request).slots]
    exact ih.insert _

/-- The accounts of the arena hold whatever ids are used. The size counts the taken slots, the free
list names the others and each of them once, and there are as many slots as there ever were tokens
at a time. So a slot to take is inside the arena, a token can be taken out exactly when its id is
live, and the size goes down by one then. -/
theorem arena_accounts_hold_for_any_ids (requests : List Request) :
    (History.run requests).chain.Accounts ∧
    IsGreatest (sizesReached requests) (History.run requests).chain.slots.size ∧
    (∀ index ∈ (History.run requests).chain.free,
      index.toNat < (History.run requests).chain.slots.size) ∧
    (∀ id, ((History.run requests).chain.erase id).isSome =
      (History.run requests).chain.contains id) ∧
    ∀ id token d, (History.run requests).chain.erase id = some (token, d) →
      d.size + 1 = (History.run requests).chain.size := by
  have ha := accounts_run requests
  refine ⟨ha, isGreatest_slots_run requests, ?_, ?_, ?_⟩
  · intro index hm
    have hempty := (ha.free_iff _).mp (List.mem_map_of_mem hm)
    rw [← TokenChain.length_occupied]
    exact (List.getElem?_eq_some_iff.mp hempty).1
  · intro id
    simp [TokenChain.erase, TokenChain.contains]
  · intro id token d he
    exact (ha.accounted_erase he).2

/-- The first anchor was never given back: it is the id that the new token gets, so the token becomes
its own neighbour. Then a stale anchor and two ids that name no slot. -/
def misusedIds : List Request :=
  [.insertBefore ⟨0, 0⟩ { text := "a", kind := .number }, .push { text := "b", kind := .symbol },
    .erase ⟨0, 0⟩, .erase ⟨0, 0⟩, .insertAfter ⟨0, 0⟩ { text := "c", kind := .comment },
    .insertAfter ⟨9, 0⟩ { text := "d", kind := .string }, .erase ⟨1, 4⟩, .erase ⟨1, 0⟩]

theorem misused_ids_leave_the_accounts_right :
    (History.run (misusedIds.take 1)).chain.prev? ⟨0, 0⟩ = some ⟨0, 0⟩ ∧
    (History.run misusedIds).chain.occupied = [true, false, true] ∧
    (History.run misusedIds).chain.Accounts ∧ IsGreatest (sizesReached misusedIds) 3 ∧
    (History.run misusedIds).chain.erase ⟨1, 0⟩ = none := by
  obtain ⟨ha, hgreatest, -, herase, -⟩ := arena_accounts_hold_for_any_ids misusedIds
  have hslots : (History.run misusedIds).chain.slots.size = 3 := by decide
  have hstale : (History.run misusedIds).chain.contains ⟨1, 0⟩ = false := by decide
  rw [hslots] at hgreatest
  refine ⟨by decide, by decide, ha, hgreatest, ?_⟩
  rw [← Option.not_isSome_iff_eq_none, herase, hstale]
  simp

end LineLayout
