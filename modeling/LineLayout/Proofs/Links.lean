-- The chain as a list. `Holds` says that the links of a chain run through the entries of a
-- list, forwards and backwards, and that no other token is live. Every operation on the chain
-- is an operation on that list, and every walk reads a part of it.
import LineLayout.Chain.Walk
import LineLayout.Proofs.Arena
import Mathlib.Data.List.Induction

namespace LineLayout

/-- A token with its id. -/
abbrev Entry := TokenId × Token

/-- The id at the front of a list. -/
def frontId (L : List Entry) : Option TokenId := L.head?.map Prod.fst

/-- The id at the end of a list. -/
def backId (L : List Entry) : Option TokenId := L.getLast?.map Prod.fst

@[simp] theorem frontId_nil : frontId [] = none := rfl

@[simp] theorem frontId_cons (e : Entry) (L : List Entry) : frontId (e :: L) = some e.1 := rfl

@[simp] theorem backId_nil : backId [] = none := rfl

@[simp] theorem backId_concat (L : List Entry) (e : Entry) : backId (L ++ [e]) = some e.1 := by
  simp [backId]

theorem frontId_append (A B : List Entry) : frontId (A ++ B) = (frontId A).or (frontId B) := by
  cases A <;> simp [frontId]

theorem backId_append (A B : List Entry) : backId (A ++ B) = (backId B).or (backId A) := by
  unfold backId
  rw [List.getLast?_append]
  cases B.getLast? <;> simp

theorem backId_cons (e : Entry) (L : List Entry) :
    backId (e :: L) = (backId L).or (some e.1) := by
  unfold backId
  rw [List.getLast?_cons]
  cases L.getLast? <;> rfl

theorem mem_of_backId {L : List Entry} {id : TokenId} (h : backId L = some id) :
    id ∈ L.map Prod.fst := by
  obtain ⟨e, he, rfl⟩ := Option.map_eq_some_iff.mp h
  exact List.mem_map_of_mem (List.mem_of_getLast? he)

theorem mem_of_frontId {L : List Entry} {id : TokenId} (h : frontId L = some id) :
    id ∈ L.map Prod.fst := by
  obtain ⟨e, he, rfl⟩ := Option.map_eq_some_iff.mp h
  exact List.mem_map_of_mem (List.mem_of_head? he)

namespace TokenChain

/-! ## Links along a list -/

/-- The nodes of the entries are linked in this order. `before` and `after` are the
neighbours outside the list. -/
def Linked (c : TokenChain) : Option TokenId → List Entry → Option TokenId → Prop
  | _, [], _ => True
  | before, (id, token) :: rest, after =>
    c.node? id = some ⟨token, before, (frontId rest).or after⟩ ∧ Linked c (some id) rest after

theorem linked_append {c : TokenChain} {before after : Option TokenId} {A B : List Entry} :
    c.Linked before (A ++ B) after ↔
      c.Linked before A ((frontId B).or after) ∧ c.Linked ((backId A).or before) B after := by
  induction A generalizing before with
  | nil => simp [Linked]
  | cons e rest ih =>
    obtain ⟨id, token⟩ := e
    simp only [List.cons_append, Linked, ih, frontId_append, backId_cons, Option.or_assoc,
      Option.some_or, and_assoc]

theorem Linked.node?_of_mem {c : TokenChain} {before after : Option TokenId} {L : List Entry}
    (h : c.Linked before L after) {id : TokenId} (hm : id ∈ L.map Prod.fst) :
    ∃ node, c.node? id = some node := by
  induction L generalizing before with
  | nil => simp at hm
  | cons e rest ih =>
    simp only [List.map_cons, List.mem_cons] at hm
    rcases hm with rfl | hm
    · exact ⟨_, h.1⟩
    · exact ih h.2 hm

/-- Links stay when no node of the list changes. -/
theorem Linked.congr {c d : TokenChain} {before after : Option TokenId} {L : List Entry}
    (h : c.Linked before L after) (hd : ∀ id ∈ L.map Prod.fst, d.node? id = c.node? id) :
    d.Linked before L after := by
  induction L generalizing before with
  | nil => trivial
  | cons e rest ih =>
    refine ⟨?_, ih h.2 fun id hm => hd id (by simp [hm])⟩
    rw [hd e.1 (by simp)]
    exact h.1

/-- The last entry of a list gets a new neighbour behind it. -/
theorem Linked.relink_last {c d : TokenChain} {before after new : Option TokenId}
    {L : List Entry} (h : c.Linked before L after) (hnd : (L.map Prod.fst).Nodup)
    (hd : ∀ id ∈ L.map Prod.fst, d.node? id =
      if some id = backId L then (c.node? id).map fun node => { node with next := new }
      else c.node? id) :
    d.Linked before L new := by
  rcases List.eq_nil_or_concat L with rfl | ⟨front, last, rfl⟩
  · trivial
  · obtain ⟨id, token⟩ := last
    rw [List.concat_eq_append] at h hnd hd ⊢
    rw [backId_concat] at hd
    rw [linked_append] at h ⊢
    rw [List.map_append, List.nodup_append] at hnd
    refine ⟨?_, ?_, trivial⟩
    · apply h.1.congr
      intro other ho
      rw [hd other (by simp_all)]
      have hne : other ≠ id := hnd.2.2 other ho id (by simp)
      simp [hne]
    · rw [hd id (by simp), h.2.1]
      simp

/-- The first entry of a list gets a new neighbour in front of it. -/
theorem Linked.relink_first {c d : TokenChain} {before after new : Option TokenId}
    {L : List Entry} (h : c.Linked before L after) (hnd : (L.map Prod.fst).Nodup)
    (hd : ∀ id ∈ L.map Prod.fst, d.node? id =
      if some id = frontId L then (c.node? id).map fun node => { node with prev := new }
      else c.node? id) :
    d.Linked new L after := by
  cases L with
  | nil => trivial
  | cons e rest =>
    obtain ⟨id, token⟩ := e
    rw [List.map_cons, List.nodup_cons] at hnd
    refine ⟨?_, ?_⟩
    · rw [hd id (by simp), h.1]
      simp
    · apply h.2.congr
      intro other ho
      have hne : other ≠ id := fun he => hnd.1 (he ▸ ho)
      rw [hd other (by simp [ho])]
      simp [hne]

/-! ## Walks along a list -/

theorem Linked.walk_next {c : TokenChain} {before : Option TokenId} {L : List Entry}
    (h : c.Linked before L none) {fuel : Nat} (hf : L.length ≤ fuel) :
    c.walk Node.next fuel (frontId L) = L := by
  induction L generalizing before fuel with
  | nil => cases fuel <;> rfl
  | cons e rest ih =>
    obtain ⟨id, token⟩ := e
    obtain ⟨hn, hrest⟩ := h
    cases fuel with
    | zero => simp at hf
    | succ fuel =>
      simp only [frontId_cons, walk, hn, Option.or_none]
      rw [ih hrest (by simpa using hf)]

theorem Linked.walk_prev {c : TokenChain} {after : Option TokenId} {L : List Entry}
    (h : c.Linked none L after) {fuel : Nat} (hf : L.length ≤ fuel) :
    c.walk Node.prev fuel (backId L) = L.reverse := by
  induction L using List.reverseRecOn generalizing after fuel with
  | nil => cases fuel <;> rfl
  | append_singleton front e ih =>
    obtain ⟨id, token⟩ := e
    rw [linked_append] at h
    obtain ⟨hfront, hn, -⟩ := h
    cases fuel with
    | zero => simp at hf
    | succ fuel =>
      simp only [backId_concat, walk, hn, Option.or_none, List.reverse_append,
        List.reverse_singleton, List.singleton_append]
      rw [ih hfront (by simpa using hf)]

/-! ## The list of a chain -/

/-- The links of the chain represent this list, and the list has every live token. -/
structure Holds (c : TokenChain) (L : List Entry) : Prop where
  tidy : c.Tidy
  linked : c.Linked none L none
  distinct : (L.map Prod.fst).Nodup
  all : ∀ id node, c.node? id = some node → id ∈ L.map Prod.fst
  head : c.head = frontId L
  tail : c.tail = backId L
  size : c.size = L.length

theorem holds_empty : empty.Holds [] := by
  refine ⟨tidy_empty, trivial, List.nodup_nil, ?_, rfl, rfl, rfl⟩
  intro id node h
  simp [node?, empty] at h

/-- No chain has more tokens than slots. -/
theorem Holds.length_le {c : TokenChain} {L : List Entry} (h : c.Holds L) :
    L.length ≤ c.slots.size := by
  have hacc := h.tidy.accounted
  rw [h.size] at hacc
  omega

/-- The node of an entry: its neighbours are the ends of the two parts around it. -/
theorem Holds.node?_at {c : TokenChain} {A B : List Entry} {id : TokenId} {token : Token}
    (h : c.Holds (A ++ (id, token) :: B)) :
    c.node? id = some ⟨token, backId A, frontId B⟩ := by
  have hn := (linked_append.mp h.linked).2.1
  simpa using hn

theorem Holds.get?_at {c : TokenChain} {A B : List Entry} {id : TokenId} {token : Token}
    (h : c.Holds (A ++ (id, token) :: B)) : c.get? id = some token := by
  simp [get?, h.node?_at]

theorem Holds.get_at {c : TokenChain} {A B : List Entry} {id : TokenId} {token : Token}
    (h : c.Holds (A ++ (id, token) :: B)) : c.get id = .ok token := by
  simp [get, h.get?_at]

theorem Holds.next?_at {c : TokenChain} {A B : List Entry} {id : TokenId} {token : Token}
    (h : c.Holds (A ++ (id, token) :: B)) : c.next? id = frontId B := by
  simp [next?, h.node?_at]

theorem Holds.prev?_at {c : TokenChain} {A B : List Entry} {id : TokenId} {token : Token}
    (h : c.Holds (A ++ (id, token) :: B)) : c.prev? id = backId A := by
  simp [prev?, h.node?_at]

theorem Holds.entries_eq {c : TokenChain} {L : List Entry} (h : c.Holds L) :
    c.entries = L := by
  unfold entries
  rw [h.head]
  exact h.linked.walk_next h.length_le

theorem Holds.entriesFrom_at {c : TokenChain} {A B : List Entry} {id : TokenId} {token : Token}
    (h : c.Holds (A ++ (id, token) :: B)) : c.entriesFrom id = (id, token) :: B := by
  have hlen := h.length_le
  rw [List.length_append] at hlen
  exact (linked_append.mp h.linked).2.walk_next (by omega)

theorem Holds.entriesBackFrom_at {c : TokenChain} {A B : List Entry} {id : TokenId}
    {token : Token} (h : c.Holds (A ++ (id, token) :: B)) :
    c.entriesBackFrom id = (id, token) :: A.reverse := by
  have hsplit : A ++ (id, token) :: B = (A ++ [(id, token)]) ++ B := by simp
  have hlen := h.length_le
  rw [hsplit, List.length_append] at hlen
  have hl := h.linked
  rw [hsplit] at hl
  have hw := (linked_append.mp hl).1.walk_prev (Nat.le_trans (Nat.le_add_right _ _) hlen)
  rw [backId_concat] at hw
  simpa [entriesBackFrom] using hw

/-- The live ids are the ids of the list. -/
theorem Holds.live_iff {c : TokenChain} {L : List Entry} (h : c.Holds L) {id : TokenId} :
    c.contains id = true ↔ id ∈ L.map Prod.fst := by
  rw [contains_iff]
  constructor
  · rintro ⟨node, hn⟩
    exact h.all id node hn
  · exact h.linked.node?_of_mem

theorem Holds.stale_iff {c : TokenChain} {L : List Entry} (h : c.Holds L) {id : TokenId} :
    c.node? id = none ↔ id ∉ L.map Prod.fst := by
  rw [← h.live_iff, contains_iff]
  cases c.node? id <;> simp

/-- A live token stands at one place of the list. -/
theorem Holds.split {c : TokenChain} {L : List Entry} (h : c.Holds L) {id : TokenId}
    (hc : c.contains id = true) : ∃ A token B, L = A ++ (id, token) :: B := by
  obtain ⟨e, he, rfl⟩ := List.mem_map.mp (h.live_iff.mp hc)
  obtain ⟨A, B, rfl⟩ := List.append_of_mem he
  exact ⟨A, e.2, B, rfl⟩

/-- The token that `get?` gives stands in the list under its id. -/
theorem Holds.split_get? {c : TokenChain} {L : List Entry} (h : c.Holds L) {id : TokenId}
    {token : Token} (hg : c.get? id = some token) : ∃ A B, L = A ++ (id, token) :: B := by
  have hc : c.contains id = true := by
    rw [contains_iff]
    obtain ⟨node, hn, -⟩ := Option.map_eq_some_iff.mp hg
    exact ⟨node, hn⟩
  obtain ⟨A, other, B, rfl⟩ := h.split hc
  rw [h.get?_at] at hg
  cases hg
  exact ⟨A, B, rfl⟩

theorem Holds.get?_of_mem {c : TokenChain} {L : List Entry} (h : c.Holds L) {e : Entry}
    (he : e ∈ L) : c.get? e.1 = some e.2 := by
  obtain ⟨A, B, rfl⟩ := List.append_of_mem he
  exact h.get?_at

theorem Holds.mem_of_get? {c : TokenChain} {L : List Entry} (h : c.Holds L) {id : TokenId}
    {token : Token} (hg : c.get? id = some token) : (id, token) ∈ L := by
  obtain ⟨A, B, rfl⟩ := h.split_get? hg
  exact List.mem_append_right A List.mem_cons_self

/-! ## The operations on the list -/

/-- An entry at its place differs from the entries around it. -/
theorem ids_ne_of_distinct {A B : List Entry} {e : Entry}
    (h : ((A ++ e :: B).map Prod.fst).Nodup) {id : TokenId}
    (hm : id ∈ A.map Prod.fst ∨ id ∈ B.map Prod.fst) : id ≠ e.1 := by
  rw [List.map_append, List.map_cons, List.nodup_append, List.nodup_cons] at h
  obtain ⟨-, ⟨hB, -⟩, hA⟩ := h
  rcases hm with hm | hm
  · exact hA id hm e.1 (by simp)
  · exact fun he => hB (he ▸ hm)

/-- A token changed in its place. -/
theorem Holds.modify {c : TokenChain} {A B : List Entry} {id : TokenId} {token : Token}
    (h : c.Holds (A ++ (id, token) :: B)) (f : Token → Token) :
    (c.modify id f).Holds (A ++ (id, f token) :: B) := by
  have hnode := node?_modifyNode c id fun node => { node with token := f node.token }
  have hl := linked_append.mp h.linked
  refine ⟨h.tidy.modifyNode _ _, linked_append.mpr ⟨?_, ?_, ?_⟩, ?_, ?_, ?_, ?_, ?_⟩
  · apply hl.1.congr
    intro other ho
    rw [TokenChain.modify, hnode, if_neg (ids_ne_of_distinct h.distinct (Or.inl ho))]
  · rw [TokenChain.modify, hnode, hl.2.1]
    simp
  · apply hl.2.2.congr
    intro other ho
    rw [TokenChain.modify, hnode, if_neg (ids_ne_of_distinct h.distinct (Or.inr ho))]
  · simpa using h.distinct
  · intro other node hn
    rw [TokenChain.modify, hnode] at hn
    by_cases he : other = id
    · simp [he]
    · rw [if_neg he] at hn
      simpa using h.all other node hn
  · rw [TokenChain.modify, head_modifyNode, h.head]
    simp [frontId_append]
  · rw [TokenChain.modify, tail_modifyNode, h.tail]
    simp [backId_append, backId_cons]
  · rw [TokenChain.modify, size_modifyNode, h.size]
    simp

theorem node?_linkForward (c : TokenChain) (before next : Option TokenId) (id : TokenId) :
    (c.linkForward before next).node? id =
      if some id = before then (c.node? id).map fun node => { node with next }
      else c.node? id := by
  cases before with
  | none => simp [linkForward, node?]
  | some other =>
    simp only [linkForward, setNext, node?_modifyNode, Option.some.injEq]
    by_cases he : id = other
    · simp [he]
    · simp [he]

theorem node?_linkBackward (c : TokenChain) (after prev : Option TokenId) (id : TokenId) :
    (c.linkBackward after prev).node? id =
      if some id = after then (c.node? id).map fun node => { node with prev }
      else c.node? id := by
  cases after with
  | none => simp [linkBackward, node?]
  | some other =>
    simp only [linkBackward, setPrev, node?_modifyNode, Option.some.injEq]
    by_cases he : id = other
    · simp [he]
    · simp [he]

theorem Tidy.linkForward {c : TokenChain} (h : c.Tidy) (before next : Option TokenId) :
    (c.linkForward before next).Tidy := by
  cases before with
  | none => exact h.withEnds _ _
  | some id => exact h.modifyNode _ _

theorem Tidy.linkBackward {c : TokenChain} (h : c.Tidy) (after prev : Option TokenId) :
    (c.linkBackward after prev).Tidy := by
  cases after with
  | none => exact h.withEnds _ _
  | some id => exact h.modifyNode _ _

/-- `off` apart, the nodes of `d` are those of `c`, but behind the last one of `A` comes `next` now,
and in front of the first one of `B` comes `prev`. -/
def Relinked (c : TokenChain) (A B : List Entry) (off : TokenId) (next prev : Option TokenId)
    (d : TokenChain) : Prop :=
  ∀ id, id ≠ off → d.node? id =
    if some id = backId A then (c.node? id).map fun node => { node with next }
    else if some id = frontId B then (c.node? id).map fun node => { node with prev }
    else c.node? id

section Relinked

variable {c d : TokenChain} {A B : List Entry} {off : TokenId} {next prev : Option TokenId}

theorem Relinked.linked_front {before after : Option TokenId}
    (h : c.Relinked A B off next prev d) (hnd : ((A ++ B).map Prod.fst).Nodup)
    (hoff : off ∉ A.map Prod.fst) (hl : c.Linked before A after) : d.Linked before A next := by
  rw [List.map_append, List.nodup_append] at hnd
  apply hl.relink_last hnd.1
  intro id hm
  rw [h id fun he => hoff (he ▸ hm)]
  by_cases hb : some id = backId A
  · simp [hb]
  · have hf : some id ≠ frontId B := fun he => hnd.2.2 id hm id (mem_of_frontId he.symm) rfl
    simp [hb, hf]

theorem Relinked.linked_behind {before after : Option TokenId}
    (h : c.Relinked A B off next prev d) (hnd : ((A ++ B).map Prod.fst).Nodup)
    (hoff : off ∉ B.map Prod.fst) (hl : c.Linked before B after) : d.Linked prev B after := by
  rw [List.map_append, List.nodup_append] at hnd
  apply hl.relink_first hnd.2.1
  intro id hm
  rw [h id fun he => hoff (he ▸ hm)]
  have hb : some id ≠ backId A := fun he => hnd.2.2 id (mem_of_backId he.symm) id hm rfl
  simp [hb]

theorem Relinked.exists_node {id : TokenId} {node : Node} (h : c.Relinked A B off next prev d)
    (hne : id ≠ off) (hn : d.node? id = some node) : ∃ before, c.node? id = some before := by
  rw [h id hne] at hn
  cases hc : c.node? id with
  | none => simp [hc] at hn
  | some before => exact ⟨before, rfl⟩

end Relinked

/-- A new entry between two parts of the list. The three nodes around it and the ends of the
chain change as stated, and nothing else does. -/
theorem Holds.splice {c d : TokenChain} {A B : List Entry} {new : TokenId} {token : Token}
    (h : c.Holds (A ++ B)) (htidy : d.Tidy) (hfresh : c.node? new = none)
    (hnew : d.node? new = some ⟨token, backId A, frontId B⟩)
    (hnode : c.Relinked A B new (some new) (some new) d)
    (hhead : d.head = if backId A = none then some new else c.head)
    (htail : d.tail = if frontId B = none then some new else c.tail)
    (hsize : d.size = c.size + 1) : d.Holds (A ++ (new, token) :: B) := by
  have hnotin := h.stale_iff.mp hfresh
  obtain ⟨hA, hB⟩ : new ∉ A.map Prod.fst ∧ new ∉ B.map Prod.fst := by simpa using hnotin
  have hl := linked_append.mp h.linked
  refine ⟨htidy, linked_append.mpr ⟨?_, ?_, ?_⟩, ?_, ?_, ?_, ?_, ?_⟩
  · exact hnode.linked_front h.distinct hA hl.1
  · rw [hnew]
    simp
  · exact hnode.linked_behind h.distinct hB hl.2
  · rw [List.map_append, List.map_cons, List.nodup_middle, ← List.map_append]
    exact List.nodup_cons.mpr ⟨hnotin, h.distinct⟩
  · intro id node hn
    by_cases he : id = new
    · simp [he]
    · obtain ⟨before, hbefore⟩ := hnode.exists_node he hn
      have hm := h.all id before hbefore
      rw [List.map_append, List.mem_append] at hm
      simp only [List.map_append, List.map_cons, List.mem_append, List.mem_cons]
      exact hm.imp_right Or.inr
  · rw [hhead, h.head]
    cases A with
    | nil => simp
    | cons e A => simp [backId_cons]
  · rw [htail, h.tail]
    cases B with
    | nil => simp
    | cons e B => simp [backId_cons, backId_append]
  · rw [hsize, h.size]
    simp only [List.length_append, List.length_cons]
    omega

/-- An entry taken out between two parts of the list. -/
theorem Holds.cut {c d : TokenChain} {A B : List Entry} {old : TokenId} {token : Token}
    (h : c.Holds (A ++ (old, token) :: B)) (htidy : d.Tidy) (hold : d.node? old = none)
    (hnode : c.Relinked A B old (frontId B) (backId A) d)
    (hhead : d.head = if backId A = none then frontId B else c.head)
    (htail : d.tail = if frontId B = none then backId A else c.tail)
    (hsize : d.size = c.size - 1) : d.Holds (A ++ B) := by
  have hdistinct := h.distinct
  rw [List.map_append, List.map_cons, List.nodup_middle, ← List.map_append,
    List.nodup_cons] at hdistinct
  obtain ⟨hnotin, hnd⟩ := hdistinct
  obtain ⟨hA, hB⟩ : old ∉ A.map Prod.fst ∧ old ∉ B.map Prod.fst := by simpa using hnotin
  have hl := linked_append.mp h.linked
  refine ⟨htidy, linked_append.mpr ⟨?_, ?_⟩, hnd, ?_, ?_, ?_, ?_⟩
  · rw [Option.or_none]
    exact hnode.linked_front hnd hA hl.1
  · rw [Option.or_none]
    exact hnode.linked_behind hnd hB hl.2.2
  · intro id node hn
    have he : id ≠ old := by
      rintro rfl
      rw [hold] at hn
      cases hn
    obtain ⟨before, hbefore⟩ := hnode.exists_node he hn
    have hm := h.all id before hbefore
    simp only [List.map_append, List.map_cons, List.mem_append, List.mem_cons] at hm ⊢
    exact hm.imp_right fun hm => hm.resolve_left he
  · rw [hhead, h.head]
    cases A with
    | nil => simp
    | cons e A => simp [backId_cons]
  · rw [htail, h.tail]
    cases B with
    | nil => simp
    | cons e B => simp [backId_cons, backId_append]
  · rw [hsize, h.size]
    simp only [List.length_append, List.length_cons]
    omega

@[simp] theorem head_linkForward (c : TokenChain) (before next : Option TokenId) :
    (c.linkForward before next).head = if before = none then next else c.head := by
  cases before <;> simp [linkForward, setNext]

@[simp] theorem tail_linkForward (c : TokenChain) (before next : Option TokenId) :
    (c.linkForward before next).tail = c.tail := by
  cases before <;> simp [linkForward, setNext]

@[simp] theorem size_linkForward (c : TokenChain) (before next : Option TokenId) :
    (c.linkForward before next).size = c.size := by
  cases before <;> simp [linkForward, setNext]

@[simp] theorem head_linkBackward (c : TokenChain) (after prev : Option TokenId) :
    (c.linkBackward after prev).head = c.head := by
  cases after <;> simp [linkBackward, setPrev]

@[simp] theorem tail_linkBackward (c : TokenChain) (after prev : Option TokenId) :
    (c.linkBackward after prev).tail = if after = none then prev else c.tail := by
  cases after <;> simp [linkBackward, setPrev]

@[simp] theorem size_linkBackward (c : TokenChain) (after prev : Option TokenId) :
    (c.linkBackward after prev).size = c.size := by
  cases after <;> simp [linkBackward, setPrev]

/-- The links of two nodes can be set in either order. -/
theorem linkBackward_linkForward (c : TokenChain) {before after : Option TokenId}
    (h : ∀ id, before = some id → after ≠ some id) (next prev : Option TokenId) :
    (c.linkBackward after prev).linkForward before next =
      (c.linkForward before next).linkBackward after prev := by
  cases before with
  | none =>
    cases after with
    | none => rfl
    | some j =>
      unfold linkForward linkBackward setPrev modifyNode
      simp only [node?]
      split <;> rfl
  | some i =>
    cases after with
    | none =>
      unfold linkForward linkBackward setNext modifyNode
      simp only [node?]
      split <;> rfl
    | some j =>
      have hne : j ≠ i := fun he => h i rfl (he ▸ rfl)
      exact modifyNode_comm c hne _ _

/-- A token allocated between two parts of the list, with the links of its neighbours set
forward first. -/
theorem Holds.insertBetween {c : TokenChain} {A B : List Entry} (h : c.Holds (A ++ B))
    (hroom : c.slots.size < slotLimit) (token : Token) :
    let new := c.alloc ⟨token, backId A, frontId B⟩
    ((new.2.linkForward (backId A) (some new.1)).linkBackward (frontId B) (some new.1)).Holds
      (A ++ (new.1, token) :: B) := by
  intro new
  have hfresh : c.node? new.1 = none := h.tidy.node?_fresh hroom _
  have hnode : ∀ id, new.2.node? id =
      if id = new.1 then some ⟨token, backId A, frontId B⟩ else c.node? id :=
    h.tidy.node?_alloc hroom _
  have hnotin := h.stale_iff.mp hfresh
  rw [List.map_append, List.mem_append, not_or] at hnotin
  have hA : some new.1 ≠ backId A := fun he => hnotin.1 (mem_of_backId he.symm)
  have hB : some new.1 ≠ frontId B := fun he => hnotin.2 (mem_of_frontId he.symm)
  have hnd := h.distinct
  rw [List.map_append, List.nodup_append] at hnd
  refine h.splice ?_ hfresh ?_ ?_ ?_ ?_ ?_
  · exact ((h.tidy.alloc hroom _).linkForward _ _).linkBackward _ _
  · rw [node?_linkBackward, node?_linkForward, hnode]
    simp [hA, hB]
  · intro id he
    rw [node?_linkBackward, node?_linkForward, hnode]
    by_cases hb : some id = backId A
    · have hf : some id ≠ frontId B := fun hf =>
        hnd.2.2 id (mem_of_backId hb.symm) id (mem_of_frontId hf.symm) rfl
      simp [he, hb, hb ▸ hf]
    · simp [he, hb]
  · simp [new]
  · simp [new]
  · simp [new]

/-- `push` appends an entry. -/
theorem Holds.push {c : TokenChain} {L : List Entry} (h : c.Holds L)
    (hroom : c.slots.size < slotLimit) (token : Token) :
    (c.push token).2.Holds (L ++ [((c.push token).1, token)]) := by
  have hL : c.Holds (L ++ []) := by simpa using h
  have hnew := hL.insertBetween hroom token
  unfold TokenChain.push
  rw [h.tail]
  exact hnew

/-- `insertBefore` puts an entry directly before its anchor. -/
theorem Holds.insertBefore {c : TokenChain} {A B : List Entry} {anchor : TokenId} {old : Token}
    (h : c.Holds (A ++ (anchor, old) :: B)) (hroom : c.slots.size < slotLimit) (token : Token) :
    (c.insertBefore anchor token).2.Holds
      (A ++ ((c.insertBefore anchor token).1, token) :: (anchor, old) :: B) := by
  have hnew := h.insertBetween hroom token
  unfold TokenChain.insertBefore
  rw [h.prev?_at]
  exact hnew

/-- `insertAfter` puts an entry directly after its anchor. -/
theorem Holds.insertAfter {c : TokenChain} {A B : List Entry} {anchor : TokenId} {old : Token}
    (h : c.Holds (A ++ (anchor, old) :: B)) (hroom : c.slots.size < slotLimit) (token : Token) :
    (c.insertAfter anchor token).2.Holds
      (A ++ (anchor, old) :: ((c.insertAfter anchor token).1, token) :: B) := by
  have hsplit : A ++ (anchor, old) :: B = (A ++ [(anchor, old)]) ++ B := by simp
  have hL : c.Holds ((A ++ [(anchor, old)]) ++ B) := hsplit ▸ h
  have hnew := hL.insertBetween hroom token
  rw [backId_concat] at hnew
  have hapart : ∀ id, some anchor = some id → frontId B ≠ some id := by
    rintro id ⟨⟩ hf
    exact ids_ne_of_distinct h.distinct (Or.inr (mem_of_frontId hf)) rfl
  unfold TokenChain.insertAfter
  rw [h.next?_at]
  simp only
  generalize c.alloc ⟨token, some anchor, frontId B⟩ = new at hnew ⊢
  have horder := linkBackward_linkForward new.2 hapart (some new.1) (some new.1)
  simp only [List.append_assoc, List.singleton_append] at hnew
  rw [← horder] at hnew
  exact hnew

/-- `erase` takes an entry out and gives its token back. -/
theorem Holds.erase {c : TokenChain} {A B : List Entry} {id : TokenId} {token : Token}
    (h : c.Holds (A ++ (id, token) :: B)) :
    ∃ d, c.erase id = some (token, d) ∧ d.Holds (A ++ B) := by
  have hn := h.node?_at
  refine ⟨_, by rw [TokenChain.erase, hn]; rfl, ?_⟩
  have hnode := node?_release hn
  have hnd := h.distinct
  rw [List.map_append, List.map_cons, List.nodup_append] at hnd
  apply h.cut
  · exact ((h.tidy.release hn).linkForward _ _).linkBackward _ _
  · rw [node?_linkBackward, node?_linkForward, hnode]
    simp
  · intro other he
    rw [node?_linkBackward, node?_linkForward, hnode]
    by_cases hb : some other = backId A
    · have hf : some other ≠ frontId B := fun hf =>
        hnd.2.2 other (mem_of_backId hb.symm) other
          (List.mem_cons_of_mem _ (mem_of_frontId hf.symm)) rfl
      simp [he, hb, hb ▸ hf]
    · simp [he, hb]
  · simp [TokenChain.release]
  · simp [TokenChain.release]
  · simp [TokenChain.release]

/-- A stale id takes nothing out. -/
theorem erase_of_stale {c : TokenChain} {id : TokenId} (h : c.node? id = none) :
    c.erase id = none := by
  simp [TokenChain.erase, h]

/-! ## A chain made from a list -/

theorem ofList_concat (tokens : List Token) (token : Token) :
    ofList (tokens ++ [token]) = ((ofList tokens).push token).2 := by
  simp [ofList]

theorem free_linkForward (c : TokenChain) (before next : Option TokenId) :
    (c.linkForward before next).free = c.free := by
  cases before <;> simp [linkForward, setNext]

theorem slots_push_of_full {c : TokenChain} (h : c.free = []) (token : Token) :
    (c.push token).2.free = [] ∧ (c.push token).2.slots.size = c.slots.size + 1 := by
  have ha : (c.alloc ⟨token, c.tail, none⟩).2.free = [] ∧
      (c.alloc ⟨token, c.tail, none⟩).2.slots.size = c.slots.size + 1 := by
    unfold alloc
    rw [h]
    simp
  refine ⟨?_, ?_⟩
  · exact (free_linkForward _ _ _).trans ha.1
  · exact (sameSlots_linkForward _ _ _).slotCount.trans ha.2

/-- Tokens that are only appended take one slot each. -/
theorem slots_ofList (tokens : List Token) :
    (ofList tokens).free = [] ∧ (ofList tokens).slots.size = tokens.length := by
  induction tokens using List.reverseRecOn with
  | nil => exact ⟨rfl, rfl⟩
  | append_singleton tokens token ih =>
    rw [ofList_concat, List.length_append]
    obtain ⟨hfree, hsize⟩ := slots_push_of_full ih.1 token
    exact ⟨hfree, by rw [hsize, ih.2]; rfl⟩

/-- A chain made from a list holds its tokens in order. -/
theorem holds_ofList {tokens : List Token} (h : tokens.length ≤ slotLimit) :
    ∃ L, (ofList tokens).Holds L ∧ L.map Prod.snd = tokens := by
  induction tokens using List.reverseRecOn with
  | nil => exact ⟨[], holds_empty, rfl⟩
  | append_singleton tokens token ih =>
    rw [List.length_append, List.length_singleton] at h
    obtain ⟨L, hL, htokens⟩ := ih (by omega)
    have hroom : (ofList tokens).slots.size < slotLimit := by
      rw [(slots_ofList tokens).2]
      omega
    rw [ofList_concat]
    exact ⟨_, hL.push hroom token, by simp [htokens]⟩

theorem linked_ofList {tokens : List Token} (h : tokens.length ≤ slotLimit) :
    ∃ L, (ofList tokens).Holds L := by
  obtain ⟨L, hL, -⟩ := holds_ofList h
  exact ⟨L, hL⟩

end TokenChain

end LineLayout
