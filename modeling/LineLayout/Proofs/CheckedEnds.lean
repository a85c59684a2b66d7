-- The two ends of a checked chain. The check walks from the head and counts, so it never reads the
-- tail. After a stale anchor the tail may be missing or stale, and the check may still find
-- nothing. Where the tail is live, the check vouches for it: the chain is whole, and a token that
-- is pushed comes last.
import LineLayout.Proofs.TornWalks

namespace LineLayout

namespace TokenChain

/-! ## From walks to links -/

section Walks

variable {c : TokenChain}

theorem Strands.linked_of_visits (h : c.Strands) {start before : Option TokenId}
    {L : List Entry} (hv : c.Visits Node.next start L)
    (hbefore : ∀ id, start = some id → c.prev? id = before ∨ c.contains id = false) :
    ∃ after, start = (frontId L).or after ∧ c.Linked before L after := by
  induction hv generalizing before with
  | done => exact ⟨none, rfl, trivial⟩
  | stale id hn => exact ⟨some id, rfl, trivial⟩
  | visit id node rest hn hv ih =>
    have hlive : c.contains id = true := contains_iff.mpr ⟨node, hn⟩
    have hprev : node.prev = before := by
      have hor := hbefore id rfl
      simpa [prev?, hn, hlive] using hor
    have hnext : ∀ next, node.next = some next →
        c.prev? next = some id ∨ c.contains next = false := by
      intro next hl
      cases hc : c.contains next with
      | false => exact Or.inr rfl
      | true => exact Or.inl ((h.both id next hlive hc).mp (by rw [next?, hn]; exact hl))
    obtain ⟨after, hafter, hlinked⟩ := ih hnext
    refine ⟨after, rfl, ?_, hlinked⟩
    rw [hn, ← hprev, ← hafter]

theorem Strands.linked_entries (h : c.Strands) (ht : c.Tidy) :
    ∃ after, c.head = (frontId c.entries).or after ∧ c.Linked none c.entries after :=
  h.linked_of_visits (h.soundWalks ht).forward.1 fun id hid => Or.inl (h.front id hid)

theorem getLast?_ids (c : TokenChain) : c.ids.getLast? = backId c.entries :=
  List.getLast?_map

/-- The walk back from the last token retraces the walk from the head, torn or whole. -/
theorem Strands.entriesBackFrom_last (h : c.Strands) (ht : c.Tidy) {last : TokenId}
    (hlast : c.ids.getLast? = some last) : c.entriesBackFrom last = c.entries.reverse := by
  obtain ⟨after, -, hlinked⟩ := h.linked_entries ht
  have hlen := ht.length_le_size (h.soundWalks ht).forward.2 fun id hm => contains_of_mem_ids hm
  have hacc := ht.accounted
  have hfuel : c.entries.length ≤ c.slots.size := by
    rw [ids, List.length_map] at hlen
    omega
  rw [entriesBackFrom, ← hlast, getLast?_ids]
  exact hlinked.walk_prev hfuel

/-! ## A live tail -/

/-- The tail names a token of the chain. -/
def TailLive (c : TokenChain) : Prop := ∃ id, c.tail = some id ∧ c.contains id = true

/-- With a live tail, a check that finds nothing means that the links represent a list. -/
theorem Strands.holds_of_check (h : c.Strands) (ht : c.Tidy) (hcheck : c.check = .ok none)
    (htail : c.TailLive) : c.Holds c.entries := by
  obtain ⟨tail, htail, hlive⟩ := htail
  have hwalks := h.soundWalks ht
  obtain ⟨after, hhead, hlinked⟩ := h.linked_entries ht
  have hall : ∀ id, c.contains id = true → id ∈ c.ids := by
    intro id hc
    have hone := hwalks.complete hcheck id hc
    exact List.count_pos_iff.mp (by omega)
  obtain ⟨⟨_, token⟩, he, rfl⟩ := List.mem_map.mp (hall tail hlive)
  obtain ⟨A, B, hsplit⟩ := List.append_of_mem he
  have hback := h.back _ htail
  have hnode := hlinked
  rw [hsplit] at hnode
  rw [next?, (linked_append.mp hnode).2.1] at hback
  obtain ⟨hB, rfl⟩ := Option.or_eq_none_iff.mp hback
  have hnil : B = [] := by
    cases B with
    | nil => rfl
    | cons e rest => cases hB
  refine ⟨ht, hlinked, hwalks.forward.2, ?_, by simpa using hhead, ?_, ?_⟩
  · intro id node hn
    exact hall id (contains_iff.mpr ⟨node, hn⟩)
  · rw [htail, hsplit, hnil, backId_concat]
  · rw [← length_ids_of_check hcheck, ids, List.length_map]

end Walks

/-! ## A change of a token -/

theorem next?_modify (c : TokenChain) (id : TokenId) (f : Token → Token) (other : TokenId) :
    (c.modify id f).next? other = c.next? other := by
  unfold next? modify
  rw [node?_modifyNode]
  by_cases he : other = id
  · cases hn : c.node? id <;> simp [he, hn]
  · simp [he]

theorem prev?_modify (c : TokenChain) (id : TokenId) (f : Token → Token) (other : TokenId) :
    (c.modify id f).prev? other = c.prev? other := by
  unfold prev? modify
  rw [node?_modifyNode]
  by_cases he : other = id
  · cases hn : c.node? id <;> simp [he, hn]
  · simp [he]

theorem head_modify (c : TokenChain) (id : TokenId) (f : Token → Token) :
    (c.modify id f).head = c.head := head_modifyNode c id _

theorem tail_modify (c : TokenChain) (id : TokenId) (f : Token → Token) :
    (c.modify id f).tail = c.tail := tail_modifyNode c id _

theorem Strands.modify {c : TokenChain} (h : c.Strands) (id : TokenId) (f : Token → Token) :
    (c.modify id f).Strands := by
  have hlive : ∀ other, (c.modify id f).contains other = c.contains other :=
    (sameSlots_modifyNode c id _).contains
  refine ⟨?_, ?_, ?_, ?_⟩
  · simpa only [hlive, next?_modify, prev?_modify] using h.both
  · simpa only [hlive, next?_modify] using h.ranked
  · simpa only [head_modify, prev?_modify] using h.front
  · simpa only [tail_modify, next?_modify] using h.back

theorem mentions_of_modify {c : TokenChain} {id other : TokenId} {f : Token → Token}
    (hm : (c.modify id f).Mentions other) : c.Mentions other := by
  simpa only [Mentions, next?_modify, prev?_modify, head_modify, tail_modify] using hm

/-! ## The ends -/

/-- What a check that finds nothing says about the ends of a chain with tokens. The walk from the
head visits every live token once, and the walk back from its last token is the same in reverse.
That last token is the tail, and a pushed token comes behind all others, exactly when the tail is
live. -/
structure EndsChecked (c : TokenChain) : Prop where
  complete : ∀ id, c.contains id = true → c.ids.count id = 1
  reverse : ∃ last, c.ids.getLast? = some last ∧ c.entriesBackFrom last = c.entries.reverse
  tail : c.tail = c.ids.getLast? ↔ c.TailLive
  back : ∀ id, c.tail = some id → c.contains id = true →
    c.next? id = none ∧ c.entriesBackFrom id = c.entries.reverse
  push : ∀ token, (c.push token).2.entries = c.entries ++ [((c.push token).1, token)] ↔ c.TailLive

end TokenChain

/-! ## Histories with stale anchors -/

/-- What callers promise who may hold on to stale anchors: an anchor was given back once. They may
take out and change tokens by any id. -/
def Request.Anchored (h : History) : Request → Prop
  | .push _ => True
  | .insertBefore anchor _ => anchor ∈ h.issued
  | .insertAfter anchor _ => anchor ∈ h.issued
  | .erase _ => True
  | .modify _ _ => True

instance Request.decidableAnchored (h : History) : (r : Request) → Decidable (r.Anchored h)
  | .push _ => isTrue trivial
  | .insertBefore anchor _ => inferInstanceAs (Decidable (anchor ∈ h.issued))
  | .insertAfter anchor _ => inferInstanceAs (Decidable (anchor ∈ h.issued))
  | .erase _ => isTrue trivial
  | .modify _ _ => isTrue trivial

/-- The histories of such callers. -/
inductive Drifted : History → Prop where
  | empty : Drifted {}
  | step {h : History} (request : Request) : Drifted h → request.Anchored h →
      (h.step request).Within → Drifted (h.step request)

theorem Drifted.run {h : History} (hh : Drifted h) {requests : List Request}
    (hin : Request.InTurn Request.Anchored requests h) : Drifted (requests.foldl History.step h) :=
  hin.run (fun _ request hk hanchored hw => hk.step request hanchored hw) hh

theorem History.Strung.modify {h : History} (hs : h.Strung) (id : TokenId) (f : Token → Token) :
    (h.step (.modify id f)).Strung :=
  ⟨hs.strands.modify id f, fun other hm => hs.issued other (TokenChain.mentions_of_modify hm)⟩

theorem History.Strung.anchored_step {h : History} (hs : h.Strung) (hw : h.Within)
    (hr : h.Recorded) {request : Request} (ha : request.Anchored h) :
    (h.step request).Strung := by
  cases request with
  | push token =>
    have hk : (Request.push token).Known h := ha
    exact hs.step hw hr hk
  | insertBefore anchor token =>
    have hk : (Request.insertBefore anchor token).Known h := ha
    exact hs.step hw hr hk
  | insertAfter anchor token =>
    have hk : (Request.insertAfter anchor token).Known h := ha
    exact hs.step hw hr hk
  | erase id => exact hs.erase id
  | modify id f => exact hs.modify id f

theorem Drifted.strung {h : History} (hh : Drifted h) : h.Within ∧ h.Recorded ∧ h.Strung := by
  induction hh with
  | empty => exact ⟨within_empty, recorded_empty, strung_empty⟩
  | step request _ ha hnext ih =>
    obtain ⟨hw, hr, hs⟩ := ih
    exact ⟨hnext, hr.after hw hnext, hs.anchored_step hw hr ha⟩

/-- A pushed token that comes last has the token before it as its link back. -/
theorem History.Strung.tail_of_appended {h : History} (hs : h.Strung) (hw : h.Within)
    (hr : h.Recorded) {token : Token} (happ : (h.chain.push token).2.entries =
      h.chain.entries ++ [((h.chain.push token).1, token)]) :
    h.chain.tail = h.chain.ids.getLast? := by
  have hinsertion : h.insertion? (.push token) = some ((h.chain.push token).1, token) := rfl
  have hnew := hr.fresh_insertion hw hinsertion
  have hspliced := hr.tidy.spliced_push hw.slots token
    fun he => hnew (hs.issued _ (Or.inr (Or.inl he)))
  have hprev : (h.chain.push token).2.prev? (h.chain.push token).1 = h.chain.tail := by
    rw [hspliced.prev?, if_pos rfl]
  have hanchored : (Request.push token).Anchored h := trivial
  have hpushed : (h.chain.push token).2.Strands := (hs.anchored_step hw hr hanchored).strands
  obtain ⟨after, -, hlinked⟩ :=
    hpushed.linked_entries (inserted_push hr.tidy hw.slots token).tidy
  rw [happ] at hlinked
  rw [← hprev, TokenChain.prev?, (TokenChain.linked_append.mp hlinked).2.1,
    TokenChain.getLast?_ids]
  simp

/-- Whichever stale anchors were used, a check that finds nothing vouches for the tail exactly when
the tail is live. -/
theorem checked_chain_ends_at_a_live_tail (h : History) (hh : Drifted h)
    (hcheck : h.chain.check = .ok none) (hsize : h.chain.size ≠ 0) : h.chain.EndsChecked := by
  obtain ⟨hw, hr, hs⟩ := hh.strung
  have hstrands := hs.strands
  have hwhole := hstrands.holds_of_check hr.tidy hcheck
  obtain ⟨last, hlast⟩ : ∃ last, h.chain.ids.getLast? = some last := by
    have hlen := TokenChain.length_ids_of_check hcheck
    rw [← Option.isSome_iff_exists, List.getLast?_isSome]
    exact List.length_pos_iff.mp (by omega)
  have hlive : h.chain.tail = h.chain.ids.getLast? → h.chain.TailLive := by
    intro htail
    exact ⟨last, htail.trans hlast, TokenChain.contains_of_mem_ids (List.mem_of_getLast? hlast)⟩
  have htail : h.chain.TailLive → h.chain.tail = h.chain.ids.getLast? := by
    intro hlive
    rw [(hwhole hlive).tail, TokenChain.getLast?_ids]
  refine ⟨(hstrands.soundWalks hr.tidy).complete hcheck,
    ⟨last, hlast, hstrands.entriesBackFrom_last hr.tidy hlast⟩, ⟨hlive, htail⟩, ?_, ?_⟩
  · intro id hid hc
    refine ⟨hstrands.back id hid, hstrands.entriesBackFrom_last hr.tidy ?_⟩
    rw [← htail ⟨id, hid, hc⟩, hid]
  · intro token
    refine ⟨fun happ => hlive (hs.tail_of_appended hw hr happ), ?_⟩
    intro hc
    exact ((hwhole hc).push hw.slots token).entries_eq

/-- A stale anchor tears the chain, and a live one mends it: the head is stale before the last
token comes in. The place of the token behind it is put right at the end. -/
def mendingRequests : List Request :=
  [.push { text := "a", kind := .number }, .push { text := "b", kind := .symbol, col := 7 },
    .erase ⟨0, 0⟩, .insertBefore ⟨0, 0⟩ { text := "c", kind := .comment }, .erase ⟨0, 1⟩,
    .insertBefore ⟨1, 0⟩ { text := "d", kind := .string, beginsLine := true },
    .modify ⟨1, 0⟩ fun t => { t with col := 1 }]

theorem mended_chain_ends_at_its_tail :
    (mendingRequests.foldl History.step {}).chain.ids = [⟨0, 2⟩, ⟨1, 0⟩] ∧
    (mendingRequests.foldl History.step {}).chain.TailLive ∧
    (mendingRequests.foldl History.step {}).chain.EndsChecked := by
  exact ⟨by decide, ⟨⟨1, 0⟩, by decide, by decide⟩,
    checked_chain_ends_at_a_live_tail _ (Drifted.empty.run (by decide)) (by decide) (by decide)⟩

/-- A token in front of the id of the only token, which is gone. -/
def tailLosingRequests : List Request :=
  [.push { text := "a", kind := .number }, .erase ⟨0, 0⟩,
    .insertBefore ⟨0, 0⟩ { text := "c", kind := .comment, beginsLine := true }]

/-- The check finds nothing, and yet there is no tail: the last token has a stale link onwards, and
the next push loses it. -/
theorem checked_chain_without_tail :
    Drifted (tailLosingRequests.foldl History.step {}) ∧
    (tailLosingRequests.foldl History.step {}).chain.size ≠ 0 ∧
    (tailLosingRequests.foldl History.step {}).chain.check = .ok none ∧
    (tailLosingRequests.foldl History.step {}).chain.ids = [⟨0, 1⟩] ∧
    (tailLosingRequests.foldl History.step {}).chain.tail = none ∧
    (tailLosingRequests.foldl History.step {}).chain.next? ⟨0, 1⟩ = some ⟨0, 0⟩ ∧
    ((tailLosingRequests.foldl History.step {}).chain.push
      { text := "d", kind := .string }).2.ids = [⟨1, 0⟩] := by
  exact ⟨Drifted.empty.run (by decide), by decide, by decide, by decide, by decide, by decide,
    by decide⟩

end LineLayout
