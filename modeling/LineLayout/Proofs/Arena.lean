-- The arena as a map from ids to nodes. Each operation on slots is one change of that map:
-- a node changes in its place, a new id gets a node, an id loses its node. Everything that is
-- said later about links rests on these three equations and on the accounts of the arena.
import LineLayout.Chain.Basic
import Mathlib.Data.List.Nodup
import Mathlib.Tactic.Common

namespace LineLayout

/-- How many slots a slot number can name, and how many tokens can leave a slot before its
generation starts again at zero. It is the 32nd power of two. -/
def slotLimit : Nat := 4294967296

theorem TokenId.eq_of_parts {a b : TokenId} (hi : a.index = b.index)
    (hg : a.generation = b.generation) : a = b := by
  cases a; cases b; simp_all

namespace TokenChain

/-! ## The map -/

theorem node?_eq_some {c : TokenChain} {id : TokenId} {node : Node} :
    c.node? id = some node ↔ c.slots[id.index.toNat]? = some ⟨id.generation, some node⟩ := by
  unfold node?
  split
  · next slot hs =>
    rw [hs]
    obtain ⟨generation, held⟩ := slot
    by_cases hg : generation = id.generation
    · simp [hg]
    · simp [hg]
  · next hs => simp [hs]

/-- A slot without a node has no live id. -/
theorem node?_eq_none_of_empty {c : TokenChain} {id : TokenId} {generation : UInt32}
    (h : c.slots[id.index.toNat]? = some ⟨generation, none⟩) : c.node? id = none := by
  unfold node?
  rw [h]
  simp

theorem node?_eq_none_of_outside {c : TokenChain} {id : TokenId}
    (h : c.slots.size ≤ id.index.toNat) : c.node? id = none := by
  unfold node?
  rw [Array.getElem?_eq_none h]

theorem contains_iff {c : TokenChain} {id : TokenId} :
    c.contains id = true ↔ ∃ node, c.node? id = some node := by
  simp [contains, Option.isSome_iff_exists]

theorem index_lt_of_node? {c : TokenChain} {id : TokenId} {node : Node}
    (h : c.node? id = some node) : id.index.toNat < c.slots.size := by
  obtain ⟨hlt, -⟩ := Array.getElem?_eq_some_iff.mp (node?_eq_some.mp h)
  exact hlt

/-- An id for a slot is live exactly when the slot holds a node of its generation. -/
theorem node?_of_slot {c : TokenChain} {index generation : UInt32} {held : Option Node}
    {id : TokenId} (hs : c.slots[index.toNat]? = some ⟨generation, held⟩)
    (hi : id.index = index) :
    c.node? id = if id.generation = generation then held else none := by
  unfold node?
  rw [hi, hs]
  simp [eq_comm]

/-- A chain has one live id for a slot. -/
theorem eq_of_index {c : TokenChain} {a b : TokenId} (ha : c.contains a = true)
    (hb : c.contains b = true) (h : a.index = b.index) : a = b := by
  obtain ⟨na, hna⟩ := contains_iff.mp ha
  obtain ⟨nb, hnb⟩ := contains_iff.mp hb
  have hs := node?_eq_some.mp hna
  rw [h, node?_eq_some.mp hnb, Option.some.injEq, Slot.mk.injEq] at hs
  exact TokenId.eq_of_parts h hs.1.symm

/-! ## A node changed in its place -/

theorem slots_modifyNode {c : TokenChain} {id : TokenId} {node : Node} (f : Node → Node)
    (h : c.node? id = some node) :
    (c.modifyNode id f).slots =
      c.slots.setIfInBounds id.index.toNat ⟨id.generation, some (f node)⟩ := by
  unfold modifyNode
  rw [h]

theorem modifyNode_of_stale {c : TokenChain} {id : TokenId} (f : Node → Node)
    (h : c.node? id = none) : c.modifyNode id f = c := by
  unfold modifyNode
  rw [h]

/-- A change that leaves the node as it is leaves the arena as it is. -/
theorem modifyNode_of_fixed {c : TokenChain} {id : TokenId} {node : Node} {f : Node → Node}
    (h : c.node? id = some node) (hf : f node = node) : c.modifyNode id f = c := by
  have hslots : c.slots.setIfInBounds id.index.toNat ⟨id.generation, some node⟩ = c.slots := by
    obtain ⟨hlt, hs⟩ := Array.getElem?_eq_some_iff.mp (node?_eq_some.mp h)
    rw [← hs, Array.setIfInBounds_def, dif_pos hlt, Array.set_getElem_self]
  unfold modifyNode
  rw [h]
  simp only [hf, hslots]

/-- The map after a change in place. -/
theorem node?_modifyNode (c : TokenChain) (id : TokenId) (f : Node → Node) (other : TokenId) :
    (c.modifyNode id f).node? other =
      if other = id then (c.node? id).map f else c.node? other := by
  rcases hn : c.node? id with _ | node
  · rw [modifyNode_of_stale f hn]
    by_cases ho : other = id
    · simp [ho, hn]
    · simp [ho]
  · have hs := slots_modifyNode f hn
    have hlt := index_lt_of_node? hn
    by_cases hi : other.index = id.index
    · have hnew : (c.modifyNode id f).slots[id.index.toNat]? =
          some ⟨id.generation, some (f node)⟩ := by
        rw [hs]
        simp [hlt]
      rw [node?_of_slot hnew hi]
      by_cases hg : other.generation = id.generation
      · simp [TokenId.eq_of_parts hi hg]
      · have hne : other ≠ id := fun he => hg (he ▸ rfl)
        rw [node?_of_slot (node?_eq_some.mp hn) hi]
        simp [hg, hne]
    · have hne : other ≠ id := fun he => hi (he ▸ rfl)
      have hin : id.index.toNat ≠ other.index.toNat :=
        fun he => hi (UInt32.toNat_inj.mp he).symm
      unfold node?
      rw [hs, Array.getElem?_setIfInBounds_ne hin]
      simp [hne]

/-- Changes in different places can be made in either order. -/
theorem modifyNode_comm (c : TokenChain) {i j : TokenId} (h : i ≠ j) (f g : Node → Node) :
    (c.modifyNode i f).modifyNode j g = (c.modifyNode j g).modifyNode i f := by
  have hi := node?_modifyNode c j g i
  have hj := node?_modifyNode c i f j
  rw [if_neg h] at hi
  rw [if_neg h.symm] at hj
  rcases hni : c.node? i with _ | ni
  · rw [modifyNode_of_stale f hni, modifyNode_of_stale f (hi.trans hni)]
  rcases hnj : c.node? j with _ | nj
  · rw [modifyNode_of_stale g hnj, modifyNode_of_stale g (hj.trans hnj)]
  have hne : i.index.toNat ≠ j.index.toNat := by
    intro he
    have hsi := node?_eq_some.mp hni
    rw [he, node?_eq_some.mp hnj] at hsi
    simp only [Option.some.injEq, Slot.mk.injEq] at hsi
    exact h (TokenId.eq_of_parts (UInt32.toNat_inj.mp he) hsi.1.symm)
  unfold modifyNode at hi hj ⊢
  rw [hni] at hj
  rw [hnj] at hi
  simp only [hni, hnj] at hi hj ⊢
  rw [hi, hj]
  simp only [Array.setIfInBounds_comm _ _ hne]

@[simp] theorem head_modifyNode (c : TokenChain) (id : TokenId) (f : Node → Node) :
    (c.modifyNode id f).head = c.head := by
  unfold modifyNode; split <;> rfl

@[simp] theorem tail_modifyNode (c : TokenChain) (id : TokenId) (f : Node → Node) :
    (c.modifyNode id f).tail = c.tail := by
  unfold modifyNode; split <;> rfl

@[simp] theorem size_modifyNode (c : TokenChain) (id : TokenId) (f : Node → Node) :
    (c.modifyNode id f).size = c.size := by
  unfold modifyNode; split <;> rfl

@[simp] theorem free_modifyNode (c : TokenChain) (id : TokenId) (f : Node → Node) :
    (c.modifyNode id f).free = c.free := by
  unfold modifyNode; split <;> rfl

@[simp] theorem slotCount_modifyNode (c : TokenChain) (id : TokenId) (f : Node → Node) :
    (c.modifyNode id f).slots.size = c.slots.size := by
  unfold modifyNode; split <;> simp

/-! ## The accounts -/

/-- The accounts of the arena: every slot is counted as held or as free, the free list names
empty slots and each of them once, and a slot number can name every slot. -/
structure Tidy (c : TokenChain) : Prop where
  accounted : c.size + c.free.length = c.slots.size
  free_nodup : c.free.Nodup
  free_empty : ∀ index ∈ c.free, ∃ generation, c.slots[index.toNat]? = some ⟨generation, none⟩
  within : c.slots.size ≤ slotLimit

theorem tidy_empty : empty.Tidy := by
  refine ⟨rfl, List.nodup_nil, ?_, Nat.zero_le _⟩
  intro index h
  cases h

/-- A change in place keeps the accounts: it touches a slot that is not free. -/
theorem Tidy.modifyNode {c : TokenChain} (h : c.Tidy) (id : TokenId) (f : Node → Node) :
    (c.modifyNode id f).Tidy := by
  refine ⟨by simpa using h.accounted, by simpa using h.free_nodup, ?_, by simpa using h.within⟩
  intro index hi
  rw [free_modifyNode] at hi
  obtain ⟨generation, hg⟩ := h.free_empty index hi
  rcases hn : c.node? id with _ | node
  · rw [modifyNode_of_stale f hn]
    exact ⟨generation, hg⟩
  · refine ⟨generation, ?_⟩
    have hne : id.index.toNat ≠ index.toNat := by
      intro he
      rw [← he, node?_eq_some.mp hn] at hg
      simp at hg
    rw [slots_modifyNode f hn, Array.getElem?_setIfInBounds_ne hne]
    exact hg

/-- The accounts do not depend on the ends of the chain. -/
theorem Tidy.withEnds {c : TokenChain} (h : c.Tidy) (head tail : Option TokenId) :
    ({ c with head, tail } : TokenChain).Tidy :=
  ⟨h.accounted, h.free_nodup, h.free_empty, h.within⟩

/-! ## A slot taken -/

/-- Below the limit a slot number is exact. -/
theorem toNat_slotNumber {i : Nat} (h : i < slotLimit) : i.toUInt32.toNat = i := by
  rw [Nat.toUInt32_eq, UInt32.toNat_ofNat_of_lt' h]

/-- What taking a slot does: an empty slot gets the node, or a new one at the end. -/
theorem Tidy.alloc_cases {c : TokenChain} (h : c.Tidy) (node : Node) :
    (∃ index generation free, c.free = index :: free ∧
      c.slots[index.toNat]? = some ⟨generation, none⟩ ∧
      c.alloc node = (⟨index, generation⟩,
        { c with
          slots := c.slots.setIfInBounds index.toNat ⟨generation, some node⟩
          free
          size := c.size + 1 })) ∨
    (c.free = [] ∧
      c.alloc node = (⟨c.slots.size.toUInt32, 0⟩,
        { c with slots := c.slots.push ⟨0, some node⟩, size := c.size + 1 })) := by
  rcases hf : c.free with _ | ⟨index, free⟩
  · refine Or.inr ⟨rfl, ?_⟩
    unfold alloc
    rw [hf]
  · obtain ⟨generation, hg⟩ := h.free_empty index (by simp [hf])
    refine Or.inl ⟨index, generation, free, rfl, hg, ?_⟩
    unfold alloc
    rw [hf]
    simp [hg]

/-- The id that a token gets was not live before. -/
theorem Tidy.node?_fresh {c : TokenChain} (h : c.Tidy) (hroom : c.slots.size < slotLimit)
    (node : Node) : c.node? (c.alloc node).1 = none := by
  rcases h.alloc_cases node with ⟨index, generation, free, -, hs, ha⟩ | ⟨-, ha⟩
  · rw [ha]
    exact node?_eq_none_of_empty hs
  · rw [ha]
    exact node?_eq_none_of_outside (Nat.le_of_eq (toNat_slotNumber hroom).symm)

/-- The map after a slot is taken. -/
theorem Tidy.node?_alloc {c : TokenChain} (h : c.Tidy) (hroom : c.slots.size < slotLimit)
    (node : Node) (other : TokenId) :
    (c.alloc node).2.node? other =
      if other = (c.alloc node).1 then some node else c.node? other := by
  rcases h.alloc_cases node with ⟨index, generation, free, -, hs, ha⟩ | ⟨-, ha⟩
  · rw [ha]
    have hlt : index.toNat < c.slots.size := (Array.getElem?_eq_some_iff.mp hs).1
    by_cases hi : other.index = index
    · have hnew : (c.slots.setIfInBounds index.toNat ⟨generation, some node⟩)[index.toNat]? =
          some ⟨generation, some node⟩ := by
        simp [hlt]
      rw [node?_of_slot hnew hi]
      by_cases hg : other.generation = generation
      · simp [TokenId.eq_of_parts (b := ⟨index, generation⟩) hi hg]
      · have hne : other ≠ ⟨index, generation⟩ := fun he => hg (he ▸ rfl)
        rw [node?_of_slot hs hi]
        simp [hg, hne]
    · have hne : other ≠ ⟨index, generation⟩ := fun he => hi (he ▸ rfl)
      have hin : index.toNat ≠ other.index.toNat := fun he => hi (UInt32.toNat_inj.mp he).symm
      simp only [hne, if_false]
      unfold node?
      rw [Array.getElem?_setIfInBounds_ne hin]
  · rw [ha]
    have hnat := toNat_slotNumber hroom
    by_cases hi : other.index = c.slots.size.toUInt32
    · have hnew : (c.slots.push ⟨0, some node⟩)[c.slots.size.toUInt32.toNat]? =
          some ⟨0, some node⟩ := by
        rw [hnat, Array.getElem?_push_size]
      rw [node?_of_slot hnew hi]
      have hout : c.node? other = none := by
        rw [← hi] at hnat
        exact node?_eq_none_of_outside (Nat.le_of_eq hnat.symm)
      by_cases hg : other.generation = 0
      · simp [TokenId.eq_of_parts (b := ⟨c.slots.size.toUInt32, 0⟩) hi hg]
      · have hne : other ≠ ⟨c.slots.size.toUInt32, 0⟩ := fun he => hg (he ▸ rfl)
        simp [hg, hne, hout]
    · have hne : other ≠ ⟨c.slots.size.toUInt32, 0⟩ := fun he => hi (he ▸ rfl)
      have hin : other.index.toNat ≠ c.slots.size := by
        rw [← hnat]
        exact fun he => hi (UInt32.toNat_inj.mp he)
      simp only [hne, if_false]
      unfold node?
      rw [Array.getElem?_push, if_neg hin]

theorem Tidy.alloc {c : TokenChain} (h : c.Tidy) (hroom : c.slots.size < slotLimit)
    (node : Node) : (c.alloc node).2.Tidy := by
  have hacc := h.accounted
  rcases h.alloc_cases node with ⟨index, generation, free, hf, hs, ha⟩ | ⟨hf, ha⟩
  · rw [ha]
    have hnd := h.free_nodup
    rw [hf] at hacc hnd
    rw [List.nodup_cons] at hnd
    refine ⟨?_, hnd.2, ?_, ?_⟩
    · simp only [List.length_cons, Array.size_setIfInBounds] at hacc ⊢
      omega
    · intro other ho
      obtain ⟨g, hg⟩ := h.free_empty other (by rw [hf]; exact List.mem_cons_of_mem _ ho)
      refine ⟨g, ?_⟩
      have hne : index.toNat ≠ other.toNat :=
        fun he => hnd.1 (UInt32.toNat_inj.mp he ▸ ho)
      rw [← hg]
      exact Array.getElem?_setIfInBounds_ne hne
    · simpa using h.within
  · rw [ha]
    rw [hf] at hacc
    refine ⟨?_, ?_, ?_, ?_⟩
    · simp only [hf, List.length_nil, Array.size_push] at hacc ⊢
      omega
    · simp [hf]
    · intro other ho
      simp [hf] at ho
    · simp only [Array.size_push]
      omega

@[simp] theorem head_alloc (c : TokenChain) (node : Node) : (c.alloc node).2.head = c.head := by
  unfold alloc; split <;> rfl

@[simp] theorem tail_alloc (c : TokenChain) (node : Node) : (c.alloc node).2.tail = c.tail := by
  unfold alloc; split <;> rfl

@[simp] theorem size_alloc (c : TokenChain) (node : Node) :
    (c.alloc node).2.size = c.size + 1 := by
  unfold alloc; split <;> rfl

theorem slotCount_le_alloc (c : TokenChain) (node : Node) :
    c.slots.size ≤ (c.alloc node).2.slots.size := by
  unfold alloc; split <;> simp

/-! ## A slot left -/

/-- The map after a slot is left. -/
theorem node?_release {c : TokenChain} {id : TokenId} {node : Node}
    (h : c.node? id = some node) (other : TokenId) :
    (c.release id).node? other = if other = id then none else c.node? other := by
  have hlt := index_lt_of_node? h
  by_cases hi : other.index = id.index
  · have hnew : (c.release id).slots[id.index.toNat]? = some ⟨id.generation + 1, none⟩ := by
      simp [release, hlt]
    rw [node?_of_slot hnew hi, node?_of_slot (node?_eq_some.mp h) hi]
    by_cases hg : other.generation = id.generation
    · simp [TokenId.eq_of_parts hi hg]
    · simp [hg]
  · have hne : other ≠ id := fun he => hi (he ▸ rfl)
    have hin : id.index.toNat ≠ other.index.toNat :=
      fun he => hi (UInt32.toNat_inj.mp he).symm
    simp only [hne, if_false]
    unfold node? release
    simp only
    rw [Array.getElem?_setIfInBounds_ne hin]

/-- No slot with a live id is free, so different live ids are counted as held. -/
theorem Tidy.length_le_size {c : TokenChain} (h : c.Tidy) {ids : List TokenId} (hnd : ids.Nodup)
    (hlive : ∀ id ∈ ids, c.contains id = true) : ids.length ≤ c.size := by
  have hheld : ∀ id ∈ ids, id.index ∉ c.free := by
    intro id hid hm
    obtain ⟨node, hn⟩ := contains_iff.mp (hlive id hid)
    obtain ⟨g, hg⟩ := h.free_empty _ hm
    rw [node?_eq_some.mp hn] at hg
    simp at hg
  have hindices : (ids.map TokenId.index).Nodup := by
    apply List.Nodup.map_on _ hnd
    intro a ha b hb hab
    exact eq_of_index (hlive a ha) (hlive b hb) hab
  have hall : ((ids.map TokenId.index ++ c.free).map UInt32.toNat).Nodup := by
    apply List.Nodup.map (fun a b hab => UInt32.toNat_inj.mp hab)
    rw [List.nodup_append]
    refine ⟨hindices, h.free_nodup, ?_⟩
    rintro i hi j hj rfl
    obtain ⟨id, hid, rfl⟩ := List.mem_map.mp hi
    exact hheld id hid hj
  have hsub : (ids.map TokenId.index ++ c.free).map UInt32.toNat ⊆ List.range c.slots.size := by
    intro i hi
    obtain ⟨index, hm, rfl⟩ := List.mem_map.mp hi
    rw [List.mem_range]
    rcases List.mem_append.mp hm with hm | hm
    · obtain ⟨id, hid, rfl⟩ := List.mem_map.mp hm
      obtain ⟨node, hn⟩ := contains_iff.mp (hlive id hid)
      exact index_lt_of_node? hn
    · obtain ⟨g, hg⟩ := h.free_empty _ hm
      exact (Array.getElem?_eq_some_iff.mp hg).1
  have hlen := hall.length_le_of_subset hsub
  have hacc := h.accounted
  simp only [List.length_map, List.length_append, List.length_range] at hlen
  omega

/-- A chain with a live id counts it. -/
theorem Tidy.size_pos {c : TokenChain} (h : c.Tidy) {id : TokenId} {node : Node}
    (hn : c.node? id = some node) : 0 < c.size := by
  have hlive : ∀ other ∈ [id], c.contains other = true := by
    intro other ho
    rw [List.mem_singleton] at ho
    rw [ho]
    exact contains_iff.mpr ⟨node, hn⟩
  exact h.length_le_size (List.nodup_singleton id) hlive

theorem Tidy.release {c : TokenChain} (h : c.Tidy) {id : TokenId} {node : Node}
    (hn : c.node? id = some node) : (c.release id).Tidy := by
  have hacc := h.accounted
  have hsize := h.size_pos hn
  have hlt := index_lt_of_node? hn
  refine ⟨?_, ?_, ?_, ?_⟩
  · simp only [TokenChain.release, List.length_cons, Array.size_setIfInBounds]
    omega
  · simp only [TokenChain.release]
    rw [List.nodup_cons]
    refine ⟨?_, h.free_nodup⟩
    intro hm
    obtain ⟨g, hg⟩ := h.free_empty _ hm
    rw [node?_eq_some.mp hn] at hg
    simp at hg
  · intro other ho
    simp only [TokenChain.release, List.mem_cons] at ho ⊢
    by_cases he : other = id.index
    · subst he
      exact ⟨id.generation + 1, by simp [hlt]⟩
    · obtain ⟨g, hg⟩ := h.free_empty other (ho.resolve_left he)
      refine ⟨g, ?_⟩
      have hne : id.index.toNat ≠ other.toNat := fun heq => he (UInt32.toNat_inj.mp heq).symm
      rw [Array.getElem?_setIfInBounds_ne hne, hg]
  · simpa [TokenChain.release] using h.within

/-! ## Generations -/

/-- The generation of a slot. -/
def generation? (c : TokenChain) (slot : Nat) : Option UInt32 :=
  c.slots[slot]?.map Slot.generation

/-- The slot of a live id has the generation of the id. -/
theorem generation?_of_node? {c : TokenChain} {id : TokenId} {node : Node}
    (h : c.node? id = some node) : c.generation? id.index.toNat = some id.generation := by
  simp [generation?, node?_eq_some.mp h]

@[simp] theorem generation?_modifyNode (c : TokenChain) (id : TokenId) (f : Node → Node)
    (slot : Nat) : (c.modifyNode id f).generation? slot = c.generation? slot := by
  rcases hn : c.node? id with _ | node
  · rw [modifyNode_of_stale f hn]
  · unfold generation?
    rw [slots_modifyNode f hn]
    by_cases he : id.index.toNat = slot
    · subst he
      rw [node?_eq_some.mp hn, Array.getElem?_setIfInBounds_self_of_lt (index_lt_of_node? hn)]
      rfl
    · rw [Array.getElem?_setIfInBounds_ne he]

/-- A taken slot keeps its generation, and a new slot starts at zero. -/
theorem Tidy.generation?_alloc {c : TokenChain} (h : c.Tidy) (node : Node) (slot : Nat) :
    (c.alloc node).2.generation? slot = c.generation? slot ∨
      slot = c.slots.size ∧ (c.alloc node).2.generation? slot = some 0 := by
  rcases h.alloc_cases node with ⟨index, generation, free, -, hs, ha⟩ | ⟨-, ha⟩
  · rw [ha]
    apply Or.inl
    unfold generation?
    by_cases he : index.toNat = slot
    · subst he
      have hlt := (Array.getElem?_eq_some_iff.mp hs).1
      simp only [hs, Array.getElem?_setIfInBounds_self_of_lt hlt, Option.map_some]
    · simp only [Array.getElem?_setIfInBounds_ne he]
  · rw [ha]
    unfold generation?
    by_cases he : slot = c.slots.size
    · subst he
      exact Or.inr ⟨rfl, by simp⟩
    · apply Or.inl
      simp only [Array.getElem?_push, if_neg he]

/-- A slot that is left goes to the next generation. -/
theorem generation?_release {c : TokenChain} {id : TokenId} {node : Node}
    (h : c.node? id = some node) (slot : Nat) :
    (c.release id).generation? slot =
      if slot = id.index.toNat then some (id.generation + 1) else c.generation? slot := by
  unfold generation? TokenChain.release
  by_cases he : slot = id.index.toNat
  · simp [he, index_lt_of_node? h]
  · simp only [Array.getElem?_setIfInBounds_ne (Ne.symm he), if_neg he]

/-! ## Links apart -/

/-- Two chains that differ in links, tokens and ends only: the same slots, in the same
generations, with the same ids live. -/
structure SameSlots (c d : TokenChain) : Prop where
  slotCount : d.slots.size = c.slots.size
  generation? : ∀ slot, d.generation? slot = c.generation? slot
  contains : ∀ id, d.contains id = c.contains id

theorem SameSlots.refl (c : TokenChain) : c.SameSlots c := ⟨rfl, fun _ => rfl, fun _ => rfl⟩

theorem SameSlots.trans {c d e : TokenChain} (h : c.SameSlots d) (k : d.SameSlots e) :
    c.SameSlots e :=
  ⟨k.slotCount.trans h.slotCount, fun slot => (k.generation? slot).trans (h.generation? slot),
    fun id => (k.contains id).trans (h.contains id)⟩

theorem sameSlots_modifyNode (c : TokenChain) (id : TokenId) (f : Node → Node) :
    c.SameSlots (c.modifyNode id f) := by
  refine ⟨slotCount_modifyNode c id f, generation?_modifyNode c id f, ?_⟩
  intro other
  unfold TokenChain.contains
  rw [node?_modifyNode]
  by_cases he : other = id
  · simp [he]
  · simp [he]

theorem sameSlots_withEnds (c : TokenChain) (head tail : Option TokenId) :
    c.SameSlots { c with head, tail } :=
  ⟨rfl, fun _ => rfl, fun _ => rfl⟩

theorem sameSlots_linkForward (c : TokenChain) (before next : Option TokenId) :
    c.SameSlots (c.linkForward before next) := by
  cases before with
  | none => exact sameSlots_withEnds c _ _
  | some id => exact sameSlots_modifyNode c id _

theorem sameSlots_linkBackward (c : TokenChain) (after prev : Option TokenId) :
    c.SameSlots (c.linkBackward after prev) := by
  cases after with
  | none => exact sameSlots_withEnds c _ _
  | some id => exact sameSlots_modifyNode c id _

/-! ## Slots that change hands -/

/-- What an edit may do to the slots. It takes one new slot at most. A slot whose token leaves
goes to the next generation, and every other slot stays in its own. -/
structure Recycles (c d : TokenChain) : Prop where
  grown : d.slots.size ≤ c.slots.size + 1
  retired : ∀ id, c.contains id = true → d.contains id = false →
    d.generation? id.index.toNat = some (id.generation + 1)
  unturned : ∀ slot, slot < c.slots.size →
    (∀ id, c.contains id = true → id.index.toNat = slot → d.contains id = true) →
    d.generation? slot = c.generation? slot

theorem SameSlots.recycles {c d : TokenChain} (h : c.SameSlots d) : c.Recycles d := by
  refine ⟨by rw [h.slotCount]; exact Nat.le_succ _, ?_, fun slot _ _ => h.generation? slot⟩
  intro id hc hd
  rw [h.contains, hc] at hd
  cases hd

/-- Links may change before slots change hands. -/
theorem SameSlots.trans_recycles {c d e : TokenChain} (h : c.SameSlots d) (k : d.Recycles e) :
    c.Recycles e := by
  refine ⟨?_, ?_, ?_⟩
  · rw [← h.slotCount]
    exact k.grown
  · intro id hc he
    rw [← h.contains] at hc
    exact k.retired id hc he
  · intro slot hlt hstay
    rw [← h.generation?]
    apply k.unturned slot (by rw [h.slotCount]; exact hlt)
    intro id hd
    rw [h.contains] at hd
    exact hstay id hd

/-- Links may change after slots changed hands. -/
theorem Recycles.trans_sameSlots {c d e : TokenChain} (h : c.Recycles d) (k : d.SameSlots e) :
    c.Recycles e := by
  refine ⟨?_, ?_, ?_⟩
  · rw [k.slotCount]
    exact h.grown
  · intro id hc he
    rw [k.contains] at he
    rw [k.generation?]
    exact h.retired id hc he
  · intro slot hlt hstay
    simp only [k.contains] at hstay
    rw [k.generation?]
    exact h.unturned slot hlt hstay

theorem Tidy.recycles_alloc {c : TokenChain} (h : c.Tidy) (hroom : c.slots.size < slotLimit)
    (node : Node) : c.Recycles (c.alloc node).2 := by
  refine ⟨by unfold TokenChain.alloc; split <;> simp, ?_, ?_⟩
  · intro id hc hd
    unfold TokenChain.contains at hc hd
    rw [h.node?_alloc hroom] at hd
    split at hd
    · cases hd
    · rw [hc] at hd
      cases hd
  · intro slot hlt _
    rcases h.generation?_alloc node slot with hsame | ⟨hnew, -⟩
    · exact hsame
    · omega

theorem recycles_release {c : TokenChain} {id : TokenId} {node : Node}
    (h : c.node? id = some node) : c.Recycles (c.release id) := by
  refine ⟨by simp [release], ?_, ?_⟩
  · intro other hc hd
    unfold TokenChain.contains at hc hd
    rw [node?_release h] at hd
    split at hd
    · next he =>
      subst he
      rw [generation?_release h, if_pos rfl]
    · rw [hc] at hd
      cases hd
  · intro slot _ hstay
    rw [generation?_release h, if_neg]
    rintro rfl
    have hgone := hstay id (contains_iff.mpr ⟨node, h⟩) rfl
    unfold TokenChain.contains at hgone
    rw [node?_release h, if_pos rfl] at hgone
    cases hgone

end TokenChain

end LineLayout
