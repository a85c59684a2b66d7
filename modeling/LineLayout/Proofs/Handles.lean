-- Ids as handles. A caller may keep every id that it was given and use it at any later time, also
-- as an anchor when its token is gone. No id is given out twice, an id whose token was taken out
-- names nothing ever after, and every other id names the token that was put in under it.
import LineLayout.Proofs.History

namespace LineLayout

/-! ## Callers that keep stale ids -/

/-- What these callers promise: every id that they use was given back once. Its token may be gone.
They put tokens in and take tokens out, and change none in its place. -/
def Request.Known (h : History) : Request → Prop
  | .push _ => True
  | .insertBefore anchor _ => anchor ∈ h.issued
  | .insertAfter anchor _ => anchor ∈ h.issued
  | .erase id => id ∈ h.issued
  | .modify _ _ => False

instance Request.decidableKnown (h : History) : (r : Request) → Decidable (r.Known h)
  | .push _ => isTrue trivial
  | .insertBefore anchor _ => inferInstanceAs (Decidable (anchor ∈ h.issued))
  | .insertAfter anchor _ => inferInstanceAs (Decidable (anchor ∈ h.issued))
  | .erase id => inferInstanceAs (Decidable (id ∈ h.issued))
  | .modify _ _ => isFalse id

/-- The histories that such callers reach from a history. -/
inductive Later (h : History) : History → Prop where
  | refl : Later h h
  | step {k : History} (request : Request) : Later h k → request.Known k →
      (k.step request).Within → Later h (k.step request)

theorem Later.run {h k : History} (hl : Later h k) {requests : List Request}
    (hin : Request.InTurn Request.Known requests k) : Later h (requests.foldl History.step k) :=
  hin.run (fun _ request hk hknown hw => hk.step request hknown hw) hl

/-- The id that an insertion gives back, with the token that it puts in. -/
def History.insertion? (h : History) : Request → Option Entry
  | .push token => some ((h.chain.push token).1, token)
  | .insertBefore anchor token => some ((h.chain.insertBefore anchor token).1, token)
  | .insertAfter anchor token => some ((h.chain.insertAfter anchor token).1, token)
  | .erase _ => none
  | .modify _ _ => none

/-- The id names no token, and nothing can be taken out with it. -/
structure History.Gone (h : History) (id : TokenId) : Prop where
  contains : h.chain.contains id = false
  get? : h.chain.get? id = none
  next? : h.chain.next? id = none
  prev? : h.chain.prev? id = none
  erase : h.chain.erase id = none
  unchanged : h.step (.erase id) = h

/-- What a caller can rely on who keeps the ids of a history. No id was given back twice, and an
insertion gives back a new one. From then on the id names the token of the insertion, until this is
taken out, and then the id is gone for good. -/
structure History.SafeHandles (h : History) : Prop where
  distinct : h.issued.Nodup
  fresh : ∀ request id token, request.Known h → h.insertion? request = some (id, token) →
    id ∉ h.issued
  kept : ∀ request id token, request.Known h → (h.step request).Within →
    h.insertion? request = some (id, token) → ∀ k, Later (h.step request) k → id ∉ k.removed →
      k.chain.contains id = true ∧ k.chain.get? id = some token
  gone : ∀ id token d, id ∈ h.issued → h.chain.erase id = some (token, d) →
    (h.step (.erase id)).Within → ∀ k, Later (h.step (.erase id)) k → k.Gone id

/-! ## The books of a later history -/

theorem within_empty : ({} : History).Within :=
  History.within_of_length (by decide) (by decide)

theorem Later.recorded {h k : History} (hl : Later h k) (hw : h.Within) (hr : h.Recorded) :
    k.Within ∧ k.Recorded := by
  induction hl with
  | refl => exact ⟨hw, hr⟩
  | step request _ _ hnext ih => exact ⟨hnext, ih.2.after ih.1 hnext⟩

theorem History.removed_step {h : History} (request : Request) {id : TokenId}
    (hm : id ∈ h.removed) : id ∈ (h.step request).removed := by
  cases request with
  | push token => exact hm
  | insertBefore anchor token => exact hm
  | insertAfter anchor token => exact hm
  | modify other f => exact hm
  | erase other =>
    simp only [History.step]
    split
    · exact List.mem_cons_of_mem _ hm
    · exact hm

theorem Later.removed {h k : History} (hl : Later h k) {id : TokenId} (hm : id ∈ h.removed) :
    id ∈ k.removed := by
  induction hl with
  | refl => exact hm
  | step request _ _ _ ih => exact History.removed_step request ih

theorem History.gone_of_stale {h : History} {id : TokenId} (hn : h.chain.node? id = none) :
    h.Gone id := by
  have herase := TokenChain.erase_of_stale hn
  refine ⟨?_, ?_, ?_, ?_, herase, ?_⟩
  · simp [TokenChain.contains, hn]
  · simp [TokenChain.get?, hn]
  · simp [TokenChain.next?, hn]
  · simp [TokenChain.prev?, hn]
  · simp [History.step, herase]

/-! ## Tokens under their ids -/

namespace TokenChain

/-- Links say nothing about tokens. -/
theorem get?_modifyNode_of_token (c : TokenChain) (id : TokenId) {f : Node → Node}
    (hf : ∀ node, (f node).token = node.token) (other : TokenId) :
    (c.modifyNode id f).get? other = c.get? other := by
  unfold get?
  rw [node?_modifyNode]
  by_cases he : other = id
  · simp [he, hf, Function.comp_def]
  · simp [he]

theorem get?_setNext (c : TokenChain) (other : TokenId) (next : Option TokenId) (id : TokenId) :
    (c.setNext other next).get? id = c.get? id := by
  apply get?_modifyNode_of_token
  exact fun _ => rfl

theorem get?_setPrev (c : TokenChain) (other : TokenId) (prev : Option TokenId) (id : TokenId) :
    (c.setPrev other prev).get? id = c.get? id := by
  apply get?_modifyNode_of_token
  exact fun _ => rfl

theorem get?_linkForward (c : TokenChain) (before next : Option TokenId) (id : TokenId) :
    (c.linkForward before next).get? id = c.get? id := by
  cases before with
  | none => rfl
  | some other => exact get?_setNext c other next id

theorem get?_linkBackward (c : TokenChain) (after prev : Option TokenId) (id : TokenId) :
    (c.linkBackward after prev).get? id = c.get? id := by
  cases after with
  | none => rfl
  | some other => exact get?_setPrev c other prev id

/-- What every insertion does to the tokens: one new id names the new token. -/
structure Places (c : TokenChain) (token : Token) (new : TokenId × TokenChain) : Prop where
  fresh : c.contains new.1 = false
  get? : ∀ id, new.2.get? id = if id = new.1 then some token else c.get? id

theorem Tidy.places {c d : TokenChain} {token : Token} {prev next : Option TokenId} (h : c.Tidy)
    (hroom : c.slots.size < slotLimit)
    (hd : ∀ id, d.get? id = (c.alloc ⟨token, prev, next⟩).2.get? id) :
    c.Places token ((c.alloc ⟨token, prev, next⟩).1, d) := by
  refine ⟨by simp [TokenChain.contains, h.node?_fresh hroom], ?_⟩
  intro id
  rw [hd id, TokenChain.get?, h.node?_alloc hroom]
  by_cases he : id = (c.alloc ⟨token, prev, next⟩).1
  · simp [he]
  · simp [he, TokenChain.get?]

theorem Tidy.places_push {c : TokenChain} (h : c.Tidy) (hroom : c.slots.size < slotLimit)
    (token : Token) : c.Places token (c.push token) := by
  apply h.places hroom
  exact get?_linkForward _ _ _

theorem Tidy.places_insertBefore {c : TokenChain} (h : c.Tidy)
    (hroom : c.slots.size < slotLimit) (anchor : TokenId) (token : Token) :
    c.Places token (c.insertBefore anchor token) := by
  apply h.places hroom
  intro id
  rw [get?_setPrev, get?_linkForward]

theorem Tidy.places_insertAfter {c : TokenChain} (h : c.Tidy)
    (hroom : c.slots.size < slotLimit) (anchor : TokenId) (token : Token) :
    c.Places token (c.insertAfter anchor token) := by
  apply h.places hroom
  intro id
  rw [get?_setNext, get?_linkBackward]

theorem get?_erase {c d : TokenChain} {id : TokenId} {token : Token}
    (h : c.erase id = some (token, d)) (other : TokenId) :
    d.get? other = if other = id then none else c.get? other := by
  obtain ⟨node, hn, hd⟩ := Option.map_eq_some_iff.mp h
  cases hd
  rw [get?_linkBackward, get?_linkForward, TokenChain.get?, node?_release hn]
  by_cases he : other = id
  · simp [he]
  · simp [he, TokenChain.get?]

end TokenChain

/-! ## One request -/

/-- An insertion puts its token in under the id that it gives back, and records the id. -/
theorem History.Recorded.insertion {h : History} (hw : h.Within) (hr : h.Recorded)
    {request : Request} {id : TokenId} {token : Token}
    (hi : h.insertion? request = some (id, token)) :
    ∃ d, h.step request = h.record (id, d) ∧ h.chain.Places token (id, d) ∧
      Inserted h.chain (id, d) := by
  cases request with
  | push =>
    cases hi
    exact ⟨_, rfl, hr.tidy.places_push hw.slots token, inserted_push hr.tidy hw.slots token⟩
  | insertBefore anchor =>
    cases hi
    exact ⟨_, rfl, hr.tidy.places_insertBefore hw.slots anchor token,
      inserted_insertBefore hr.tidy hw.slots anchor token⟩
  | insertAfter anchor =>
    cases hi
    exact ⟨_, rfl, hr.tidy.places_insertAfter hw.slots anchor token,
      inserted_insertAfter hr.tidy hw.slots anchor token⟩
  | erase other => cases hi
  | modify other f => cases hi

/-- The id of an insertion is new. An id that was given back is live, or it was removed, and then
its slot is in a later generation. -/
theorem History.Recorded.fresh_insertion {h : History} (hw : h.Within) (hr : h.Recorded)
    {request : Request} {id : TokenId} {token : Token}
    (hi : h.insertion? request = some (id, token)) : id ∉ h.issued := by
  obtain ⟨d, -, hplaces, hinserted⟩ := hr.insertion hw hi
  intro hm
  rcases hr.live_or_removed id hm with hlive | hremoved
  · rw [hplaces.fresh] at hlive
    cases hlive
  · have hstale := (hr.record hinserted).stale hremoved
    have hlive := hinserted.live
    simp only [History.record] at hstale
    simp [TokenChain.contains, hstale] at hlive

/-- What a request can do: it puts a token in under a new id, it takes one out, or it finds the id
stale and does nothing. -/
theorem History.Recorded.step_cases {h : History} (hw : h.Within) (hr : h.Recorded)
    {request : Request} (hk : request.Known h) :
    (∃ id token d, id ∉ h.issued ∧ h.step request = h.record (id, d) ∧
      h.chain.Places token (id, d)) ∨
    (∃ id token d, h.chain.erase id = some (token, d) ∧
      h.step request = { h with chain := d, removed := id :: h.removed }) ∨
    h.step request = h := by
  cases hi : h.insertion? request with
  | some entry =>
    obtain ⟨d, hstep, hplaces, -⟩ := hr.insertion hw hi
    exact Or.inl ⟨_, _, d, hr.fresh_insertion hw hi, hstep, hplaces⟩
  | none =>
    apply Or.inr
    cases request with
    | push token => cases hi
    | insertBefore anchor token => cases hi
    | insertAfter anchor token => cases hi
    | modify id f => exact hk.elim
    | erase id =>
      cases herase : h.chain.erase id with
      | some out => exact Or.inl ⟨id, out.1, out.2, herase, by simp [History.step, herase]⟩
      | none => exact Or.inr (by simp [History.step, herase])

/-- A token stays under its id as long as it is not taken out. -/
theorem History.Recorded.get?_step {h : History} (hw : h.Within) (hr : h.Recorded)
    {request : Request} (hk : request.Known h) {id : TokenId} {token : Token}
    (hget : h.chain.get? id = some token) (hm : id ∉ (h.step request).removed) :
    (h.step request).chain.get? id = some token := by
  rcases hr.step_cases hw hk with
    ⟨new, t, d, -, hstep, hplaces⟩ | ⟨old, t, d, herase, hstep⟩ | hstep
  · have hne : id ≠ new := by
      rintro rfl
      obtain ⟨node, hnode, -⟩ := Option.map_eq_some_iff.mp hget
      have hfresh := hplaces.fresh
      simp [TokenChain.contains, hnode] at hfresh
    rw [hstep]
    exact (hplaces.get? id).trans (by rw [if_neg hne, hget])
  · rw [hstep] at hm ⊢
    have hne : id ≠ old := fun he => hm (by simp [he])
    exact (TokenChain.get?_erase herase id).trans (by rw [if_neg hne, hget])
  · rw [hstep]
    exact hget

/-- No request gives an id back a second time. -/
theorem History.Recorded.issued_step {h : History} (hw : h.Within) (hr : h.Recorded)
    {request : Request} (hk : request.Known h) (hd : h.issued.Nodup) :
    (h.step request).issued.Nodup := by
  rcases hr.step_cases hw hk with ⟨new, t, d, hnew, hstep, -⟩ | ⟨old, t, d, -, hstep⟩ | hstep
  · rw [hstep]
    exact List.nodup_cons.mpr ⟨hnew, hd⟩
  · rw [hstep]
    exact hd
  · rw [hstep]
    exact hd

/-! ## Every history -/

theorem Later.get? {h k : History} (hl : Later h k) (hw : h.Within) (hr : h.Recorded)
    {id : TokenId} {token : Token} (hget : h.chain.get? id = some token) (hm : id ∉ k.removed) :
    k.chain.get? id = some token := by
  induction hl with
  | refl => exact hget
  | step request hl hk _ ih =>
    obtain ⟨hwk, hrk⟩ := hl.recorded hw hr
    exact hrk.get?_step hwk hk (ih fun hin => hm (History.removed_step request hin)) hm

theorem Later.issued_nodup {h k : History} (hl : Later h k) (hw : h.Within) (hr : h.Recorded)
    (hd : h.issued.Nodup) : k.issued.Nodup := by
  induction hl with
  | refl => exact hd
  | step request hl hk _ ih =>
    obtain ⟨hwk, hrk⟩ := hl.recorded hw hr
    exact hrk.issued_step hwk hk ih

/-- Ids are safe handles, whatever a caller put in or took out before, and whichever stale ids it
used as anchors. -/
theorem ids_are_safe_handles (h : History) (hh : Later {} h) : h.SafeHandles := by
  obtain ⟨hw, hr⟩ := hh.recorded within_empty recorded_empty
  refine ⟨hh.issued_nodup within_empty recorded_empty List.nodup_nil, ?_, ?_, ?_⟩
  · intro request id token _ hi
    exact hr.fresh_insertion hw hi
  · intro request id token _ hnext hi k hl hm
    obtain ⟨d, hstep, hplaces, -⟩ := hr.insertion hw hi
    have hget : (h.step request).chain.get? id = some token := by
      rw [hstep]
      simp only [History.record]
      rw [hplaces.get? id, if_pos rfl]
    have hlater := hl.get? hnext (hr.after hw hnext) hget hm
    obtain ⟨node, hnode, -⟩ := Option.map_eq_some_iff.mp hlater
    exact ⟨TokenChain.contains_iff.mpr ⟨node, hnode⟩, hlater⟩
  · intro id token d _ herase hnext k hl
    have hremoved : id ∈ (h.step (.erase id)).removed := by simp [History.step, herase]
    obtain ⟨-, hrk⟩ := hl.recorded hnext (hr.after hw hnext)
    exact History.gone_of_stale (hrk.stale (hl.removed hremoved))

/-- Two tokens, the first one taken out, and its stale id used as an anchor on both sides. The
first of the new tokens takes the slot of the stale id. -/
def staleAnchors : List Request :=
  [.push { text := "a", kind := .number }, .push { text := "b", kind := .symbol },
    .erase ⟨0, 0⟩, .insertBefore ⟨0, 0⟩ { text := "c", kind := .comment },
    .insertAfter ⟨0, 0⟩ { text := "d", kind := .string }]

theorem stale_anchors_leave_handles_safe :
    ((staleAnchors.foldl History.step {}).chain.get? ⟨0, 1⟩ =
      some { text := "c", kind := .comment }) ∧
    (staleAnchors.foldl History.step {}).SafeHandles := by
  exact ⟨by decide, ids_are_safe_handles _ (Later.refl.run (by decide))⟩

end LineLayout
