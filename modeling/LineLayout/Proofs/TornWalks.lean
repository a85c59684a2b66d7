-- Walks along a torn chain. On strands every walk leads upwards, so it ends and visits no token
-- twice, and the check never finds a link that goes one way only. Every history is on strands,
-- whichever stale ids its requests used.
import LineLayout.Consistency
import LineLayout.Proofs.Handles
import LineLayout.Proofs.Strands

namespace LineLayout

namespace TokenChain

/-! ## Walks along strands -/

/-- A walk to its end: it visits these tokens, and then there is no further link, or a stale one. -/
inductive Visits (c : TokenChain) (link : Node → Option TokenId) :
    Option TokenId → List Entry → Prop where
  | done : Visits c link none []
  | stale (id : TokenId) : c.node? id = none → Visits c link (some id) []
  | visit (id : TokenId) (node : Node) (rest : List Entry) : c.node? id = some node →
      Visits c link (link node) rest → Visits c link (some id) ((id, node.token) :: rest)

/-- Every step of a walk leads upwards. -/
def Climbs (c : TokenChain) (link : Node → Option TokenId) (rank : TokenId → Int) : Prop :=
  ∀ id node next, c.node? id = some node → link node = some next → c.contains next = true →
    rank id < rank next

section Walks

variable {c : TokenChain} {link : Node → Option TokenId} {rank : TokenId → Int}

theorem mem_walk {fuel : Nat} {start : Option TokenId} {e : Entry}
    (h : e ∈ c.walk link fuel start) :
    ∃ n id node, fuel = n + 1 ∧ start = some id ∧ c.node? id = some node ∧
      (e = (id, node.token) ∨ e ∈ c.walk link n (link node)) := by
  cases fuel with
  | zero => cases h
  | succ n =>
    cases start with
    | none => cases h
    | some id =>
      cases hn : c.node? id with
      | none =>
        rw [walk, hn] at h
        cases h
      | some node =>
        rw [walk, hn] at h
        exact ⟨n, id, node, rfl, rfl, hn, List.mem_cons.mp h⟩

theorem contains_of_mem_walk {fuel : Nat} {start : Option TokenId} {e : Entry}
    (h : e ∈ c.walk link fuel start) : c.contains e.1 = true := by
  induction fuel generalizing start with
  | zero => cases h
  | succ fuel ih =>
    obtain ⟨_, id, node, ⟨⟩, -, hn, rfl | he⟩ := mem_walk h
    · exact contains_iff.mpr ⟨node, hn⟩
    · exact ih he

theorem Climbs.lt_of_mem_walk (hc : c.Climbs link rank) {fuel : Nat} {id : TokenId} {node : Node}
    (hn : c.node? id = some node) {e : Entry} (h : e ∈ c.walk link fuel (link node)) :
    rank id < rank e.1 := by
  induction fuel generalizing id node with
  | zero => cases h
  | succ fuel ih =>
    obtain ⟨_, next, onward, ⟨⟩, hl, hnext, he⟩ := mem_walk h
    have hup := hc id node next hn hl (contains_iff.mpr ⟨onward, hnext⟩)
    rcases he with rfl | he
    · exact hup
    · exact Int.lt_trans hup (ih hnext he)

theorem Climbs.walk_nodup (hc : c.Climbs link rank) (fuel : Nat) (start : Option TokenId) :
    ((c.walk link fuel start).map Prod.fst).Nodup := by
  induction fuel generalizing start with
  | zero => exact List.nodup_nil
  | succ fuel ih =>
    cases start with
    | none => exact List.nodup_nil
    | some id =>
      cases hn : c.node? id with
      | none =>
        rw [walk, hn]
        exact List.nodup_nil
      | some node =>
        rw [walk, hn]
        refine List.nodup_cons.mpr ⟨?_, ih (link node)⟩
        intro hm
        obtain ⟨e, he, rfl⟩ := List.mem_map.mp hm
        exact Int.lt_irrefl _ (hc.lt_of_mem_walk hn he)

theorem visits_walk_or_full (c : TokenChain) (link : Node → Option TokenId) (fuel : Nat)
    (start : Option TokenId) :
    c.Visits link start (c.walk link fuel start) ∨
      (c.walk link (fuel + 1) start).length = fuel + 1 := by
  induction fuel generalizing start with
  | zero =>
    cases start with
    | none => exact Or.inl .done
    | some id =>
      cases hn : c.node? id with
      | none => exact Or.inl (.stale id hn)
      | some node => exact Or.inr (by simp [walk, hn])
  | succ fuel ih =>
    cases start with
    | none => exact Or.inl .done
    | some id =>
      cases hn : c.node? id with
      | none =>
        rw [walk, hn]
        exact Or.inl (.stale id hn)
      | some node =>
        rcases ih (link node) with hv | hfull
        · rw [walk, hn]
          exact Or.inl (.visit id node _ hn hv)
        · apply Or.inr
          rw [walk, hn, List.length_cons, hfull]

/-- A walk upwards comes to its end: it cannot visit more tokens than there are slots. -/
theorem Tidy.visits_walk (h : c.Tidy) (hc : c.Climbs link rank) (start : Option TokenId) :
    c.Visits link start (c.walk link c.slots.size start) := by
  rcases visits_walk_or_full c link c.slots.size start with hv | hfull
  · exact hv
  · have hle := h.length_le_size (hc.walk_nodup (c.slots.size + 1) start) (by
      intro id hm
      obtain ⟨e, he, rfl⟩ := List.mem_map.mp hm
      exact contains_of_mem_walk he)
    have hacc := h.accounted
    rw [List.length_map, hfull] at hle
    omega

theorem Strands.climbs_next (h : c.Strands) : ∃ rank, c.Climbs Node.next rank := by
  obtain ⟨rank, hrank⟩ := h.ranked
  refine ⟨rank, ?_⟩
  intro id node next hn hl hlive
  exact hrank id next hlive (by rw [next?, hn]; exact hl)

theorem Strands.climbs_prev (h : c.Strands) : ∃ rank, c.Climbs Node.prev rank := by
  obtain ⟨rank, hrank⟩ := h.ranked
  refine ⟨fun id => - rank id, ?_⟩
  intro id node before hn hl hlive
  have hid : c.contains id = true := contains_iff.mpr ⟨node, hn⟩
  have hprev : c.prev? id = some before := by
    rw [prev?, hn]
    exact hl
  exact Int.neg_lt_neg (hrank before id hid ((h.both before id hlive hid).mpr hprev))

end Walks

/-! ## The check of a torn chain -/

theorem stepViolation?_ne_unlinked (n m : Nat) (before t : Token) :
    stepViolation? n before t ≠ .ok (some (.unlinked m)) := by
  unfold stepViolation?
  repeat' split
  all_goals simp

section Check

variable {c : TokenChain}

/-- No link behind a live token goes one way only. -/
theorem Strands.checkBehind_ne_unlinked (h : c.Strands) (m fuel n : Nat) {before : Entry}
    (hlive : c.contains before.1 = true) :
    c.checkBehind n before (c.walk Node.next fuel (c.next? before.1)) ≠
      .ok (some (.unlinked m)) := by
  induction fuel generalizing n before with
  | zero => simp [walk, checkBehind]
  | succ fuel ih =>
    cases hl : c.next? before.1 with
    | none => simp [walk, checkBehind]
    | some id =>
      cases hn : c.node? id with
      | none => simp [walk, hn, checkBehind]
      | some node =>
        have hid : c.contains id = true := contains_iff.mpr ⟨node, hn⟩
        have hprev := (h.both before.1 id hlive hid).mp hl
        have hnext : c.next? id = node.next := by rw [next?, hn]; rfl
        have hon := @ih (n + 1) (id, node.token) hid
        rw [hnext] at hon
        simp only [walk, hn, checkBehind, hprev, ne_eq, not_true_eq_false, if_false]
        split
        · exact hon
        · exact stepViolation?_ne_unlinked n m _ _

theorem Strands.checkEntries_ne_unlinked (h : c.Strands) (m : Nat) :
    c.checkEntries c.entries ≠ .ok (some (.unlinked m)) := by
  unfold entries
  cases hs : c.slots.size with
  | zero => simp [walk, checkEntries]
  | succ fuel =>
    cases hhead : c.head with
    | none => simp [walk, checkEntries]
    | some id =>
      cases hn : c.node? id with
      | none => simp [walk, hn, checkEntries]
      | some node =>
        have hid : c.contains (id, node.token).1 = true := contains_iff.mpr ⟨node, hn⟩
        have hnext : c.next? id = node.next := by rw [next?, hn]; rfl
        have hbehind := h.checkBehind_ne_unlinked m fuel 1 hid
        rw [hnext] at hbehind
        simp only [walk, hn, checkEntries, h.front id hhead, ne_eq, not_true_eq_false, if_false]
        split
        · next violation hv =>
          unfold headViolation? at hv
          rintro ⟨⟩
          split at hv
          · cases hv
          split at hv <;> cases hv
        · exact hbehind

theorem Strands.check_ne_unlinked (h : c.Strands) (m : Nat) :
    c.check ≠ .ok (some (.unlinked m)) := by
  unfold check
  split
  · split <;> simp
  · exact h.checkEntries_ne_unlinked m

theorem contains_of_mem_ids {id : TokenId} (h : id ∈ c.ids) : c.contains id = true := by
  obtain ⟨e, he, rfl⟩ := List.mem_map.mp h
  exact contains_of_mem_walk he

/-- A check that finds nothing has met as many tokens as the chain counts. -/
theorem length_ids_of_check (h : c.check = .ok none) : c.ids.length = c.size := by
  unfold check at h
  split at h
  · split at h
    · next hlen => simpa [ids] using hlen
    · cases h
  · next hnot => exact absurd h (hnot · )

/-- Then it has met every live token, since tokens that it missed would be counted too. -/
theorem Tidy.count_ids_of_check (h : c.Tidy) (hnd : c.ids.Nodup) (hcheck : c.check = .ok none)
    {id : TokenId} (hlive : c.contains id = true) : c.ids.count id = 1 := by
  by_cases hm : id ∈ c.ids
  · exact List.count_eq_one_of_mem hnd hm
  · have hall : ∀ other ∈ id :: c.ids, c.contains other = true := by
      intro other ho
      rcases List.mem_cons.mp ho with rfl | ho
      · exact hlive
      · exact contains_of_mem_ids ho
    have hle := h.length_le_size (List.nodup_cons.mpr ⟨hm, hnd⟩) hall
    have hlen := length_ids_of_check hcheck
    rw [List.length_cons] at hle
    omega

end Check

/-- What a caller can rely on who walks along the links of a chain, torn or whole. A link between
live tokens goes both ways. Every walk comes to its end and visits no token twice. When the check
finds nothing, the walk from the head visits every live token once. -/
structure SoundWalks (c : TokenChain) : Prop where
  both : ∀ p n, c.contains p = true → c.contains n = true →
    (c.next? p = some n ↔ c.prev? n = some p)
  forward : c.Visits Node.next c.head c.entries ∧ c.ids.Nodup
  onward : ∀ start, c.Visits Node.next (some start) (c.entriesFrom start) ∧
    ((c.entriesFrom start).map Prod.fst).Nodup
  backward : ∀ start, c.Visits Node.prev (some start) (c.entriesBackFrom start) ∧
    ((c.entriesBackFrom start).map Prod.fst).Nodup
  linked : ∀ n, c.check ≠ .ok (some (.unlinked n))
  complete : c.check = .ok none → ∀ id, c.contains id = true → c.ids.count id = 1

theorem Strands.soundWalks {c : TokenChain} (h : c.Strands) (ht : c.Tidy) : c.SoundWalks := by
  obtain ⟨rank, hnext⟩ := h.climbs_next
  obtain ⟨depth, hprev⟩ := h.climbs_prev
  have hnodup : c.ids.Nodup := hnext.walk_nodup _ _
  exact {
    both := h.both
    forward := ⟨ht.visits_walk hnext _, hnodup⟩
    onward := fun _ => ⟨ht.visits_walk hnext _, hnext.walk_nodup _ _⟩
    backward := fun _ => ⟨ht.visits_walk hprev _, hprev.walk_nodup _ _⟩
    linked := h.check_ne_unlinked
    complete := fun hcheck _ => ht.count_ids_of_check hnodup hcheck }

end TokenChain

/-! ## Histories with stale anchors -/

/-- The chain is on strands, and it knows no id that was not given back. So the id of a new token
cannot be in a link that is left over. -/
structure History.Strung (h : History) : Prop where
  strands : h.chain.Strands
  issued : ∀ id, h.chain.Mentions id → id ∈ h.issued

theorem strung_empty : ({} : History).Strung := by
  have hnode : ∀ id, TokenChain.empty.node? id = none := by
    intro id
    simp [TokenChain.node?, TokenChain.empty]
  have hnext : ∀ id, TokenChain.empty.next? id = none := by simp [TokenChain.next?, hnode]
  have hprev : ∀ id, TokenChain.empty.prev? id = none := by simp [TokenChain.prev?, hnode]
  refine ⟨⟨?_, ⟨fun _ => 0, ?_⟩, ?_, ?_⟩, ?_⟩
  · simp [hnext, hprev]
  · simp [hnext]
  · simp [hprev]
  · simp [hnext]
  · rintro id (hm | hm | ⟨p, hm⟩ | ⟨n, hm⟩)
    · cases hm
    · cases hm
    · cases (hnext p).symm.trans hm
    · cases (hprev n).symm.trans hm

theorem History.Strung.record {h : History} (hs : h.Strung) {before after : Option TokenId}
    {new : TokenId} {d : TokenChain} (hspliced : h.chain.Spliced before after new d)
    (hgap : h.chain.Gap before after) (hnew : new ∉ h.issued)
    (hbefore : ∀ id, before = some id → id ∈ h.issued)
    (hafter : ∀ id, after = some id → id ∈ h.issued) : (h.record (new, d)).Strung := by
  refine ⟨?_, ?_⟩
  · exact hs.strands.splice hspliced hgap (fun hm => hnew (hs.issued new hm))
      (fun he => hnew (hbefore new he)) (fun he => hnew (hafter new he))
  · intro id hm
    apply List.mem_cons.mpr
    rcases hspliced.mentions hm with rfl | hb | ha | hm
    · exact Or.inl rfl
    · exact Or.inr (hbefore id hb)
    · exact Or.inr (hafter id ha)
    · exact Or.inr (hs.issued id hm)

theorem History.Strung.erase {h : History} (hs : h.Strung) (id : TokenId) :
    (h.step (.erase id)).Strung := by
  cases herase : h.chain.erase id with
  | none => simpa [History.step, herase] using hs
  | some out =>
    have hunspliced := TokenChain.unspliced_erase herase
    have hlive : h.chain.contains id = true := by
      obtain ⟨node, hn, -⟩ := Option.map_eq_some_iff.mp herase
      exact TokenChain.contains_iff.mpr ⟨node, hn⟩
    simp only [History.step, herase]
    refine ⟨hs.strands.unsplice hunspliced hlive, ?_⟩
    intro other hm
    exact hs.issued other (hunspliced.mentions hm)

/-- No request tears a strand into a ring, whichever stale ids it uses. -/
theorem History.Strung.step {h : History} (hs : h.Strung) (hw : h.Within) (hr : h.Recorded)
    {request : Request} (hk : request.Known h) : (h.step request).Strung := by
  cases request with
  | push token =>
    have hinsertion : h.insertion? (.push token) = some ((h.chain.push token).1, token) := rfl
    have hnew := hr.fresh_insertion hw hinsertion
    have htail : ∀ id, h.chain.tail = some id → id ∈ h.issued :=
      fun id hid => hs.issued id (Or.inr (Or.inl hid))
    exact hs.record (hr.tidy.spliced_push hw.slots token fun he => hnew (htail _ he))
      hs.strands.gap_tail hnew htail (by simp)
  | insertBefore anchor token =>
    have hinsertion : h.insertion? (.insertBefore anchor token) =
      some ((h.chain.insertBefore anchor token).1, token) := rfl
    have hnew := hr.fresh_insertion hw hinsertion
    have hbefore : ∀ id, h.chain.prev? anchor = some id → id ∈ h.issued :=
      fun id hid => hs.issued id (Or.inr (Or.inr (Or.inr ⟨anchor, hid⟩)))
    have hafter : ∀ id, some anchor = some id → id ∈ h.issued := by
      rintro id ⟨⟩
      exact hk
    exact hs.record (hr.tidy.spliced_insertBefore hw.slots token (fun he => hnew (hafter _ he))
      fun he => hnew (hbefore _ he)) (hs.strands.gap_before anchor) hnew hbefore hafter
  | insertAfter anchor token =>
    have hinsertion : h.insertion? (.insertAfter anchor token) =
      some ((h.chain.insertAfter anchor token).1, token) := rfl
    have hnew := hr.fresh_insertion hw hinsertion
    have hbefore : ∀ id, some anchor = some id → id ∈ h.issued := by
      rintro id ⟨⟩
      exact hk
    have hafter : ∀ id, h.chain.next? anchor = some id → id ∈ h.issued :=
      fun id hid => hs.issued id (Or.inr (Or.inr (Or.inl ⟨anchor, hid⟩)))
    exact hs.record (hr.tidy.spliced_insertAfter hw.slots token (fun he => hnew (hbefore _ he))
      fun he => hnew (hafter _ he)) (hs.strands.gap_after anchor) hnew hbefore hafter
  | modify id f => exact hk.elim
  | erase id => exact hs.erase id

theorem Later.strung {h k : History} (hl : Later h k) (hw : h.Within) (hr : h.Recorded)
    (hs : h.Strung) : k.Strung := by
  induction hl with
  | refl => exact hs
  | step request hl hk _ ih =>
    obtain ⟨hwk, hrk⟩ := hl.recorded hw hr
    exact ih.step hwk hrk hk

/-- Stale anchors tear a chain at most. They never make a link between live tokens go one way only,
and they never make a ring. -/
theorem stale_anchors_keep_walks_sound (h : History) (hh : Later {} h) : h.chain.SoundWalks := by
  obtain ⟨-, hr⟩ := hh.recorded within_empty recorded_empty
  exact (hh.strung within_empty recorded_empty strung_empty).strands.soundWalks hr.tidy

/-- A stale anchor on both sides, and then the token before it is taken out. The head is the stale
id afterwards, and each of the two tokens left is a strand of its own. -/
def tornRequests : List Request :=
  [.push { text := "a", kind := .number }, .push { text := "b", kind := .symbol },
    .erase ⟨0, 0⟩, .insertBefore ⟨0, 0⟩ { text := "c", kind := .comment },
    .insertAfter ⟨0, 0⟩ { text := "d", kind := .string }, .erase ⟨0, 1⟩]

theorem torn_chain_has_sound_walks :
    (tornRequests.foldl History.step {}).chain.head = some ⟨0, 0⟩ ∧
    (tornRequests.foldl History.step {}).chain.check = .ok (some (.miscounted 0 2)) ∧
    (tornRequests.foldl History.step {}).chain.SoundWalks := by
  exact ⟨by decide, by decide, stale_anchors_keep_walks_sound _ (Later.refl.run (by decide))⟩

end LineLayout
