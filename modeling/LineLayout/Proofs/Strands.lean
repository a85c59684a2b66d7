-- Links under stale anchors. A caller that keeps using ids whose token is gone tears the chain into
-- strands: the head and the tail may be on different strands, or stale. Still a link between two
-- live tokens goes both ways, and no strand leads back to itself. Each operation on the chain is
-- one change of links, and both changes keep the strands.
import LineLayout.Proofs.Links

namespace LineLayout

namespace TokenChain

/-! ## Strands -/

/-- The live tokens of a chain stand on strands: a link between live tokens goes both ways, and no
strand is a ring, since links lead upwards. The head is the front of its strand or stale, and the
tail is the back of its strand or stale. -/
structure Strands (c : TokenChain) : Prop where
  both : ∀ p n, c.contains p = true → c.contains n = true →
    (c.next? p = some n ↔ c.prev? n = some p)
  ranked : ∃ rank : TokenId → Int, ∀ p n, c.contains n = true → c.next? p = some n →
    rank p < rank n
  front : ∀ id, c.head = some id → c.prev? id = none
  back : ∀ id, c.tail = some id → c.next? id = none

/-- The chain knows this id: from one of its ends or from a link. -/
def Mentions (c : TokenChain) (id : TokenId) : Prop :=
  c.head = some id ∨ c.tail = some id ∨ (∃ p, c.next? p = some id) ∨ ∃ n, c.prev? n = some id

theorem contains_of_next? {c : TokenChain} {id : TokenId} {n : TokenId}
    (h : c.next? id = some n) : c.contains id = true := by
  obtain ⟨node, hn, -⟩ := Option.bind_eq_some_iff.mp h
  exact contains_iff.mpr ⟨node, hn⟩

theorem contains_of_prev? {c : TokenChain} {id : TokenId} {p : TokenId}
    (h : c.prev? id = some p) : c.contains id = true := by
  obtain ⟨node, hn, -⟩ := Option.bind_eq_some_iff.mp h
  exact contains_iff.mpr ⟨node, hn⟩

theorem next?_of_stale {c : TokenChain} {id : TokenId} (h : c.contains id = false) :
    c.next? id = none := by
  rw [Option.eq_none_iff_forall_ne_some]
  intro n hn
  rw [contains_of_next? hn] at h
  cases h

theorem prev?_of_stale {c : TokenChain} {id : TokenId} (h : c.contains id = false) :
    c.prev? id = none := by
  rw [Option.eq_none_iff_forall_ne_some]
  intro p hp
  rw [contains_of_prev? hp] at h
  cases h

/-! ## Links that are set -/

theorem next?_linkForward (c : TokenChain) (before next : Option TokenId) (id : TokenId) :
    (c.linkForward before next).next? id =
      if some id = before ∧ c.contains id = true then next else c.next? id := by
  unfold next? contains
  rw [node?_linkForward]
  by_cases hb : some id = before
  · cases c.node? id <;> simp [hb]
  · simp [hb]

theorem prev?_linkForward (c : TokenChain) (before next : Option TokenId) (id : TokenId) :
    (c.linkForward before next).prev? id = c.prev? id := by
  unfold prev?
  rw [node?_linkForward]
  by_cases hb : some id = before
  · cases c.node? id <;> simp [hb]
  · simp [hb]

theorem next?_linkBackward (c : TokenChain) (after prev : Option TokenId) (id : TokenId) :
    (c.linkBackward after prev).next? id = c.next? id := by
  unfold next?
  rw [node?_linkBackward]
  by_cases ha : some id = after
  · cases c.node? id <;> simp [ha]
  · simp [ha]

theorem prev?_linkBackward (c : TokenChain) (after prev : Option TokenId) (id : TokenId) :
    (c.linkBackward after prev).prev? id =
      if some id = after ∧ c.contains id = true then prev else c.prev? id := by
  unfold prev? contains
  rw [node?_linkBackward]
  by_cases ha : some id = after
  · cases c.node? id <;> simp [ha]
  · simp [ha]

theorem contains_linkForward (c : TokenChain) (before next : Option TokenId) (id : TokenId) :
    (c.linkForward before next).contains id = c.contains id :=
  (sameSlots_linkForward c before next).contains id

theorem contains_linkBackward (c : TokenChain) (after prev : Option TokenId) (id : TokenId) :
    (c.linkBackward after prev).contains id = c.contains id :=
  (sameSlots_linkBackward c after prev).contains id

/-! ## A token comes in -/

/-- A new token between two ids, as far as links tell. A stale neighbour does not answer: its side
of the link is missing. -/
structure Spliced (c : TokenChain) (before after : Option TokenId) (new : TokenId)
    (d : TokenChain) : Prop where
  contains : ∀ id, d.contains id = true ↔ id = new ∨ c.contains id = true
  next? : ∀ id, d.next? id = if id = new then after
    else if some id = before ∧ c.contains id = true then some new else c.next? id
  prev? : ∀ id, d.prev? id = if id = new then before
    else if some id = after ∧ c.contains id = true then some new else c.prev? id
  head : d.head = if before = none then some new else c.head
  tail : d.tail = if after = none then some new else c.tail

section Splice

variable {c d : TokenChain}

theorem Tidy.contains_alloc (h : c.Tidy) (hroom : c.slots.size < slotLimit) (node : Node)
    (id : TokenId) :
    (c.alloc node).2.contains id = true ↔ id = (c.alloc node).1 ∨ c.contains id = true := by
  unfold TokenChain.contains
  rw [h.node?_alloc hroom]
  by_cases he : id = (c.alloc node).1
  · simp [he]
  · simp [he]

theorem Tidy.next?_alloc (h : c.Tidy) (hroom : c.slots.size < slotLimit) (node : Node)
    (id : TokenId) :
    (c.alloc node).2.next? id = if id = (c.alloc node).1 then node.next else c.next? id := by
  unfold TokenChain.next?
  rw [h.node?_alloc hroom]
  by_cases he : id = (c.alloc node).1
  · simp [he]
  · simp [he]

theorem Tidy.prev?_alloc (h : c.Tidy) (hroom : c.slots.size < slotLimit) (node : Node)
    (id : TokenId) :
    (c.alloc node).2.prev? id = if id = (c.alloc node).1 then node.prev else c.prev? id := by
  unfold TokenChain.prev?
  rw [h.node?_alloc hroom]
  by_cases he : id = (c.alloc node).1
  · simp [he]
  · simp [he]

/-- A slot is taken for a node, and its neighbours get their links. -/
theorem Tidy.spliced (h : c.Tidy) (hroom : c.slots.size < slotLimit) (node : Node)
    (hprev : node.prev ≠ some (c.alloc node).1) (hnext : node.next ≠ some (c.alloc node).1)
    (hslots : (c.alloc node).2.SameSlots d)
    (hdnext : ∀ id, d.next? id =
      if some id = node.prev ∧ (c.alloc node).2.contains id = true then some (c.alloc node).1
      else (c.alloc node).2.next? id)
    (hdprev : ∀ id, d.prev? id =
      if some id = node.next ∧ (c.alloc node).2.contains id = true then some (c.alloc node).1
      else (c.alloc node).2.prev? id)
    (hhead : d.head = if node.prev = none then some (c.alloc node).1 else c.head)
    (htail : d.tail = if node.next = none then some (c.alloc node).1 else c.tail) :
    c.Spliced node.prev node.next (c.alloc node).1 d := by
  have hlive := h.contains_alloc hroom node
  refine ⟨?_, ?_, ?_, hhead, htail⟩
  · intro id
    rw [hslots.contains]
    exact hlive id
  · intro id
    rw [hdnext, h.next?_alloc hroom]
    by_cases he : id = (c.alloc node).1
    · simp [he, hprev.symm]
    · simp [he, hlive]
  · intro id
    rw [hdprev, h.prev?_alloc hroom]
    by_cases he : id = (c.alloc node).1
    · simp [he, hnext.symm]
    · simp [he, hlive]

theorem Tidy.spliced_push (h : c.Tidy) (hroom : c.slots.size < slotLimit) (token : Token)
    (htail : c.tail ≠ some (c.push token).1) :
    c.Spliced c.tail none (c.push token).1 (c.push token).2 := by
  apply h.spliced hroom ⟨token, c.tail, none⟩ htail (Option.some_ne_none _).symm
  · exact (sameSlots_linkForward _ _ _).trans (sameSlots_linkBackward _ none _)
  · exact next?_linkForward _ _ _
  · intro id
    refine (prev?_linkForward _ _ _ id).trans ?_
    simp
  · exact (head_linkForward _ _ _).trans (by rw [head_alloc])
  · rfl

theorem Tidy.spliced_insertBefore (h : c.Tidy) (hroom : c.slots.size < slotLimit)
    {anchor : TokenId} (token : Token)
    (hanchor : some anchor ≠ some (c.insertBefore anchor token).1)
    (hbefore : c.prev? anchor ≠ some (c.insertBefore anchor token).1) :
    c.Spliced (c.prev? anchor) (some anchor) (c.insertBefore anchor token).1
      (c.insertBefore anchor token).2 := by
  apply h.spliced hroom ⟨token, c.prev? anchor, some anchor⟩ hbefore hanchor
  · exact (sameSlots_linkForward _ _ _).trans (sameSlots_linkBackward _ (some anchor) _)
  · intro id
    exact (next?_linkBackward _ (some anchor) _ id).trans (next?_linkForward _ _ _ id)
  · intro id
    refine (prev?_linkBackward _ (some anchor) _ id).trans ?_
    rw [prev?_linkForward, contains_linkForward]
  · exact (head_linkBackward _ (some anchor) _).trans (by simp)
  · exact (tail_linkBackward _ (some anchor) _).trans (by simp)

theorem Tidy.spliced_insertAfter (h : c.Tidy) (hroom : c.slots.size < slotLimit)
    {anchor : TokenId} (token : Token)
    (hanchor : some anchor ≠ some (c.insertAfter anchor token).1)
    (hafter : c.next? anchor ≠ some (c.insertAfter anchor token).1) :
    c.Spliced (some anchor) (c.next? anchor) (c.insertAfter anchor token).1
      (c.insertAfter anchor token).2 := by
  apply h.spliced hroom ⟨token, some anchor, c.next? anchor⟩ hanchor hafter
  · exact (sameSlots_linkBackward _ _ _).trans (sameSlots_linkForward _ (some anchor) _)
  · intro id
    refine (next?_linkForward _ (some anchor) _ id).trans ?_
    rw [next?_linkBackward, contains_linkBackward]
  · intro id
    exact (prev?_linkForward _ (some anchor) _ id).trans (prev?_linkBackward _ _ _ id)
  · exact (head_linkForward _ (some anchor) _).trans (by simp)
  · exact (tail_linkForward _ (some anchor) _).trans (by simp)

/-- Two ids are neighbours, as far as the live ones know. -/
structure Gap (c : TokenChain) (before after : Option TokenId) : Prop where
  next? : ∀ p, before = some p → c.contains p = true → c.next? p = after
  prev? : ∀ n, after = some n → c.contains n = true → c.prev? n = before

/-- Between two neighbours there is room for a rank, once all ranks are doubled. -/
theorem Gap.exists_rank {before after : Option TokenId} (hgap : c.Gap before after)
    {rank : TokenId → Int}
    (hrank : ∀ p n, c.contains n = true → c.next? p = some n → rank p < rank n) :
    ∃ r : Int, (∀ p, before = some p → c.contains p = true → 2 * rank p < r) ∧
      ∀ n, after = some n → c.contains n = true → r < 2 * rank n := by
  by_cases ha : ∃ n, after = some n ∧ c.contains n = true
  · obtain ⟨n, rfl, hn⟩ := ha
    refine ⟨2 * rank n - 1, ?_, ?_⟩
    · intro p hp hlive
      have hlt := hrank p n hn (hgap.next? p hp hlive)
      omega
    · rintro m ⟨⟩ _
      omega
  · have hnone : ∀ n, after = some n → ¬ c.contains n = true := fun n hn hlive => ha ⟨n, hn, hlive⟩
    cases before with
    | none => exact ⟨0, by simp, fun n hn hlive => absurd hlive (hnone n hn)⟩
    | some p =>
      refine ⟨2 * rank p + 1, ?_, fun n hn hlive => absurd hlive (hnone n hn)⟩
      rintro q ⟨⟩ _
      omega

/-- A link is set between live tokens from both sides, or from none. -/
theorem Strands.both_splice (h : c.Strands) {before after : Option TokenId} {new : TokenId}
    (hs : c.Spliced before after new d) (hgap : c.Gap before after) (hnew : ¬ c.Mentions new)
    (hbefore : before ≠ some new) (hafter : after ≠ some new) {p n : TokenId}
    (hp : d.contains p = true) (hn : d.contains n = true) :
    d.next? p = some n ↔ d.prev? n = some p := by
  have hnext : c.next? p ≠ some new := fun hm => hnew (Or.inr (Or.inr (Or.inl ⟨p, hm⟩)))
  have hprev : c.prev? n ≠ some new := fun hm => hnew (Or.inr (Or.inr (Or.inr ⟨n, hm⟩)))
  rw [hs.contains] at hp hn
  rw [hs.next?, hs.prev?]
  by_cases hpn : p = new
  · by_cases hnn : n = new
    · simp [hpn, hnn, hbefore, hafter]
    · by_cases ha : some n = after
      · simp [hpn, hnn, ha, hn.resolve_left hnn]
      · simp [hpn, hnn, ha, Ne.symm ha, hprev]
  · have hplive := hp.resolve_left hpn
    by_cases hnn : n = new
    · by_cases hb : some p = before
      · simp [hpn, hnn, hb, hplive]
      · simp [hpn, hnn, hb, Ne.symm hb, hnext]
    · have hnlive := hn.resolve_left hnn
      have hboth := h.both p n hplive hnlive
      by_cases hb : some p = before
      · have hpa := hgap.next? p hb.symm hplive
        subst hb
        by_cases ha : some n = after
        · subst ha
          simp [hpn, hnn, hplive, hnlive, Ne.symm hpn, Ne.symm hnn]
        · have hno : c.prev? n ≠ some p := by
            rw [Ne, ← hboth, hpa]
            exact Ne.symm ha
          simp [hpn, hnn, ha, hplive, Ne.symm hnn, hno]
      · by_cases ha : some n = after
        · have hna := hgap.prev? n ha.symm hnlive
          subst ha
          have hno : c.next? p ≠ some n := by
            rw [Ne, hboth, hna]
            exact Ne.symm hb
          simp [hpn, hnn, hb, hnlive, Ne.symm hpn, hno]
        · simpa [hpn, hnn, hb, ha] using hboth

/-- With the ranks doubled, the rank of the new token lies in its gap. -/
theorem Spliced.lt_of_gap {before after : Option TokenId} {new : TokenId}
    (hs : c.Spliced before after new d) (hnew : ¬ c.Mentions new) (hafter : after ≠ some new)
    {rank : TokenId → Int}
    (hrank : ∀ p n, c.contains n = true → c.next? p = some n → rank p < rank n) {r : Int}
    (hbelow : ∀ p, before = some p → c.contains p = true → 2 * rank p < r)
    (habove : ∀ n, after = some n → c.contains n = true → r < 2 * rank n) {p n : TokenId}
    (hn : d.contains n = true) (hlink : d.next? p = some n) :
    (if p = new then r else 2 * rank p) < if n = new then r else 2 * rank n := by
  rw [hs.contains] at hn
  rw [hs.next?] at hlink
  by_cases hpn : p = new
  · rw [if_pos hpn] at hlink
    have hnn : n ≠ new := fun he => hafter (he ▸ hlink)
    simpa [hpn, hnn] using habove n hlink (hn.resolve_left hnn)
  · rw [if_neg hpn] at hlink
    split at hlink
    · next hb =>
      cases hlink
      simpa [hpn] using hbelow p hb.1.symm hb.2
    · have hnn : n ≠ new := fun he => hnew (Or.inr (Or.inr (Or.inl ⟨p, he ▸ hlink⟩)))
      simpa [hpn, hnn] using hrank p n (hn.resolve_left hnn) hlink

theorem Strands.front_splice (h : c.Strands) {before after : Option TokenId} {new : TokenId}
    (hs : c.Spliced before after new d) (hgap : c.Gap before after) (hnew : ¬ c.Mentions new)
    {id : TokenId} (hid : d.head = some id) : d.prev? id = none := by
  rw [hs.head] at hid
  split at hid
  · next hb =>
    cases hid
    simpa [hs.prev?] using hb
  · next hb =>
    have hne : id ≠ new := fun he => hnew (Or.inl (he ▸ hid))
    have hfront := h.front id hid
    rw [hs.prev?, if_neg hne, if_neg, hfront]
    rintro ⟨ha, hlive⟩
    exact hb ((hgap.prev? id ha.symm hlive).symm.trans hfront)

theorem Strands.back_splice (h : c.Strands) {before after : Option TokenId} {new : TokenId}
    (hs : c.Spliced before after new d) (hgap : c.Gap before after) (hnew : ¬ c.Mentions new)
    {id : TokenId} (hid : d.tail = some id) : d.next? id = none := by
  rw [hs.tail] at hid
  split at hid
  · next ha =>
    cases hid
    simpa [hs.next?] using ha
  · next ha =>
    have hne : id ≠ new := fun he => hnew (Or.inr (Or.inl (he ▸ hid)))
    have hback := h.back id hid
    rw [hs.next?, if_neg hne, if_neg, hback]
    rintro ⟨hb, hlive⟩
    exact ha ((hgap.next? id hb.symm hlive).symm.trans hback)

/-- A token that comes in between two neighbours keeps the strands. -/
theorem Strands.splice (h : c.Strands) {before after : Option TokenId} {new : TokenId}
    (hs : c.Spliced before after new d) (hgap : c.Gap before after) (hnew : ¬ c.Mentions new)
    (hbefore : before ≠ some new) (hafter : after ≠ some new) : d.Strands := by
  obtain ⟨rank, hrank⟩ := h.ranked
  obtain ⟨r, hbelow, habove⟩ := hgap.exists_rank hrank
  refine ⟨?_, ⟨fun id => if id = new then r else 2 * rank id, ?_⟩, ?_, ?_⟩
  · intro p n hp hn
    exact h.both_splice hs hgap hnew hbefore hafter hp hn
  · intro p n hn hlink
    exact hs.lt_of_gap hnew hafter hrank hbelow habove hn hlink
  · intro id hid
    exact h.front_splice hs hgap hnew hid
  · intro id hid
    exact h.back_splice hs hgap hnew hid

/-- What the chain knows of afterwards it knew before, or it is the new token or its neighbour. -/
theorem Spliced.mentions {before after : Option TokenId} {new id : TokenId}
    (hs : c.Spliced before after new d) (hm : d.Mentions id) :
    id = new ∨ before = some id ∨ after = some id ∨ c.Mentions id := by
  rcases hm with hm | hm | ⟨p, hm⟩ | ⟨n, hm⟩
  · rw [hs.head] at hm
    split at hm
    · cases hm
      exact Or.inl rfl
    · exact Or.inr (Or.inr (Or.inr (Or.inl hm)))
  · rw [hs.tail] at hm
    split at hm
    · cases hm
      exact Or.inl rfl
    · exact Or.inr (Or.inr (Or.inr (Or.inr (Or.inl hm))))
  · rw [hs.next?] at hm
    split at hm
    · exact Or.inr (Or.inr (Or.inl hm))
    split at hm
    · cases hm
      exact Or.inl rfl
    · exact Or.inr (Or.inr (Or.inr (Or.inr (Or.inr (Or.inl ⟨p, hm⟩)))))
  · rw [hs.prev?] at hm
    split at hm
    · exact Or.inr (Or.inl hm)
    split at hm
    · cases hm
      exact Or.inl rfl
    · exact Or.inr (Or.inr (Or.inr (Or.inr (Or.inr (Or.inr ⟨n, hm⟩)))))

theorem Strands.gap_tail (h : c.Strands) : c.Gap c.tail none :=
  ⟨fun p hp _ => h.back p hp, by simp⟩

theorem Strands.gap_before (h : c.Strands) (anchor : TokenId) :
    c.Gap (c.prev? anchor) (some anchor) := by
  refine ⟨?_, ?_⟩
  · intro p hp hlive
    exact (h.both p anchor hlive (contains_of_prev? hp)).mpr hp
  · rintro n ⟨⟩ _
    rfl

theorem Strands.gap_after (h : c.Strands) (anchor : TokenId) :
    c.Gap (some anchor) (c.next? anchor) := by
  refine ⟨?_, ?_⟩
  · rintro p ⟨⟩ _
    rfl
  · intro n hn hlive
    exact (h.both anchor n (contains_of_next? hn) hlive).mp hn

end Splice

/-! ## A token goes -/

/-- A token taken out, as far as links tell. -/
structure Unspliced (c : TokenChain) (old : TokenId) (d : TokenChain) : Prop where
  contains : ∀ id, d.contains id = true ↔ id ≠ old ∧ c.contains id = true
  next? : ∀ id, d.next? id = if id = old then none
    else if c.prev? old = some id ∧ c.contains id = true then c.next? old else c.next? id
  prev? : ∀ id, d.prev? id = if id = old then none
    else if c.next? old = some id ∧ c.contains id = true then c.prev? old else c.prev? id
  head : d.head = if c.prev? old = none then c.next? old else c.head
  tail : d.tail = if c.next? old = none then c.prev? old else c.tail

section Unsplice

variable {c d : TokenChain} {old : TokenId}

theorem contains_release {node : Node} (hn : c.node? old = some node) (id : TokenId) :
    (c.release old).contains id = true ↔ id ≠ old ∧ c.contains id = true := by
  unfold TokenChain.contains
  rw [node?_release hn]
  by_cases he : id = old
  · simp [he]
  · simp [he]

theorem next?_release {node : Node} (hn : c.node? old = some node) (id : TokenId) :
    (c.release old).next? id = if id = old then none else c.next? id := by
  unfold TokenChain.next?
  rw [node?_release hn]
  by_cases he : id = old
  · simp [he]
  · simp [he]

theorem prev?_release {node : Node} (hn : c.node? old = some node) (id : TokenId) :
    (c.release old).prev? id = if id = old then none else c.prev? id := by
  unfold TokenChain.prev?
  rw [node?_release hn]
  by_cases he : id = old
  · simp [he]
  · simp [he]

theorem unspliced_erase {token : Token} (h : c.erase old = some (token, d)) :
    c.Unspliced old d := by
  obtain ⟨node, hn, hd⟩ := Option.map_eq_some_iff.mp h
  cases hd
  have hprev : c.prev? old = node.prev := by simp [TokenChain.prev?, hn]
  have hnext : c.next? old = node.next := by simp [TokenChain.next?, hn]
  have hlive := contains_release hn
  refine ⟨?_, ?_, ?_, ?_, ?_⟩
  · intro id
    rw [contains_linkBackward, contains_linkForward]
    exact hlive id
  · intro id
    rw [next?_linkBackward, next?_linkForward, next?_release hn, hprev, hnext]
    by_cases he : id = old
    · simp [he, hlive]
    · simp [he, hlive, eq_comm (a := some id)]
  · intro id
    rw [prev?_linkBackward, prev?_linkForward, contains_linkForward, prev?_release hn, hprev,
      hnext]
    by_cases he : id = old
    · simp [he, hlive]
    · simp [he, hlive, eq_comm (a := some id)]
  · rw [head_linkBackward, head_linkForward, hprev, hnext]
    rfl
  · rw [tail_linkBackward, tail_linkForward, hprev, hnext]
    rfl

theorem Strands.both_unsplice (h : c.Strands) (hs : c.Unspliced old d)
    (hold : c.contains old = true) {p n : TokenId} (hp : d.contains p = true)
    (hn : d.contains n = true) : d.next? p = some n ↔ d.prev? n = some p := by
  obtain ⟨hpo, hplive⟩ := (hs.contains p).mp hp
  obtain ⟨hno, hnlive⟩ := (hs.contains n).mp hn
  have hboth := h.both p n hplive hnlive
  have hbefore := h.both p old hplive hold
  have hafter := h.both old n hold hnlive
  rw [hs.next?, hs.prev?, if_neg hpo, if_neg hno]
  by_cases hb : c.prev? old = some p
  · by_cases ha : c.next? old = some n
    · simp [hb, ha, hplive, hnlive]
    · have hnot : c.prev? n ≠ some p := by
        rw [Ne, ← hboth, hbefore.mpr hb, Option.some.injEq]
        exact Ne.symm hno
      simp [hb, ha, hplive, hnot]
  · by_cases ha : c.next? old = some n
    · have hnot : c.next? p ≠ some n := by
        rw [Ne, hboth, hafter.mp ha, Option.some.injEq]
        exact Ne.symm hpo
      simp [hb, ha, hnlive, hnot]
    · simpa [hb, ha] using hboth

/-- The ranks from before still do: the link over the gap leads from below the token to above it. -/
theorem Strands.lt_of_unsplice (h : c.Strands) (hs : c.Unspliced old d)
    (hold : c.contains old = true) {rank : TokenId → Int}
    (hrank : ∀ p n, c.contains n = true → c.next? p = some n → rank p < rank n) {p n : TokenId}
    (hn : d.contains n = true) (hlink : d.next? p = some n) : rank p < rank n := by
  obtain ⟨-, hnlive⟩ := (hs.contains n).mp hn
  rw [hs.next?] at hlink
  split at hlink
  · cases hlink
  split at hlink
  · next hb =>
    have hup := hrank p old hold ((h.both p old hb.2 hold).mpr hb.1)
    have hon := hrank old n hnlive hlink
    omega
  · exact hrank p n hnlive hlink

theorem Strands.front_unsplice (h : c.Strands) (hs : c.Unspliced old d)
    (hold : c.contains old = true) {id : TokenId} (hid : d.head = some id) :
    d.prev? id = none := by
  rw [hs.prev?]
  split
  · rfl
  rw [hs.head] at hid
  split at hid
  · next hb =>
    by_cases hlive : c.contains id = true
    · rw [if_pos ⟨hid, hlive⟩, hb]
    · rw [Bool.not_eq_true] at hlive
      simp [hlive, prev?_of_stale hlive]
  · have hfront := h.front id hid
    rw [if_neg, hfront]
    rintro ⟨ha, hlive⟩
    rw [(h.both old id hold hlive).mp ha] at hfront
    cases hfront

theorem Strands.back_unsplice (h : c.Strands) (hs : c.Unspliced old d)
    (hold : c.contains old = true) {id : TokenId} (hid : d.tail = some id) :
    d.next? id = none := by
  rw [hs.next?]
  split
  · rfl
  rw [hs.tail] at hid
  split at hid
  · next ha =>
    by_cases hlive : c.contains id = true
    · rw [if_pos ⟨hid, hlive⟩, ha]
    · rw [Bool.not_eq_true] at hlive
      simp [hlive, next?_of_stale hlive]
  · have hback := h.back id hid
    rw [if_neg, hback]
    rintro ⟨hb, hlive⟩
    rw [(h.both id old hlive hold).mpr hb] at hback
    cases hback

/-- A token that goes leaves its neighbours linked to each other. -/
theorem Strands.unsplice (h : c.Strands) (hs : c.Unspliced old d) (hold : c.contains old = true) :
    d.Strands := by
  obtain ⟨rank, hrank⟩ := h.ranked
  refine ⟨?_, ⟨rank, ?_⟩, ?_, ?_⟩
  · intro p n hp hn
    exact h.both_unsplice hs hold hp hn
  · intro p n hn hlink
    exact h.lt_of_unsplice hs hold hrank hn hlink
  · intro id hid
    exact h.front_unsplice hs hold hid
  · intro id hid
    exact h.back_unsplice hs hold hid

theorem Unspliced.mentions {id : TokenId} (hs : c.Unspliced old d) (hm : d.Mentions id) :
    c.Mentions id := by
  have hnext : c.next? old = some id → c.Mentions id :=
    fun h => Or.inr (Or.inr (Or.inl ⟨old, h⟩))
  have hprev : c.prev? old = some id → c.Mentions id :=
    fun h => Or.inr (Or.inr (Or.inr ⟨old, h⟩))
  rcases hm with hm | hm | ⟨p, hm⟩ | ⟨n, hm⟩
  · rw [hs.head] at hm
    split at hm
    · exact hnext hm
    · exact Or.inl hm
  · rw [hs.tail] at hm
    split at hm
    · exact hprev hm
    · exact Or.inr (Or.inl hm)
  · rw [hs.next?] at hm
    split at hm
    · cases hm
    split at hm
    · exact hnext hm
    · exact Or.inr (Or.inr (Or.inl ⟨p, hm⟩))
  · rw [hs.prev?] at hm
    split at hm
    · cases hm
    split at hm
    · exact hprev hm
    · exact Or.inr (Or.inr (Or.inr ⟨n, hm⟩))

end Unsplice

end TokenChain

end LineLayout
