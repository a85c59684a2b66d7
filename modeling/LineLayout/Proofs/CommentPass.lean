-- The pass over the comments, whatever the marks and places say. The pass keeps a list of ids
-- while it edits. The comments of the list stay, since they are code. What the pass takes out was
-- there before it, and is never a token that the pass put in. So a slot changes hands once, and no
-- id comes back under another token.
import LineLayout.Proofs.Alignment
import LineLayout.Proofs.Traces
import Mathlib.Logic.Relation

namespace LineLayout

/-! ## Ids that do not come back -/

namespace TokenChain

/-- Each of these ids is live, or its slot is in the next generation. -/
def Retired (old : List TokenId) (c : TokenChain) : Prop :=
  ∀ id ∈ old, c.contains id = true ∨ c.generation? id.index.toNat = some (id.generation + 1)

/-- No two of these ids are for one slot. -/
def OnePerSlot (ids : List TokenId) : Prop := ∀ a ∈ ids, ∀ b ∈ ids, a.index = b.index → a = b

theorem generation?_of_contains {c : TokenChain} {id : TokenId} (h : c.contains id = true) :
    c.generation? id.index.toNat = some id.generation := by
  obtain ⟨node, hn⟩ := contains_iff.mp h
  exact generation?_of_node? hn

theorem not_contains_of_next {c : TokenChain} {id : TokenId}
    (h : c.generation? id.index.toNat = some (id.generation + 1)) : c.contains id = false := by
  rw [← Bool.not_eq_true]
  intro hc
  rw [generation?_of_contains hc, Option.some.injEq] at h
  have hnat := congrArg UInt32.toNat h
  rw [UInt32.toNat_add] at hnat
  have hone : (1 : UInt32).toNat = 1 := rfl
  omega

section Retired

variable {old : List TokenId} {c d : TokenChain}

/-- When only ids of the list leave, an id of the list that left before stays away. -/
theorem Retired.stays_away (h : Retired old c) (hr : c.Recycles d)
    (hone : OnePerSlot old)
    (hgone : ∀ id, c.contains id = true → d.contains id = false → id ∈ old) {id : TokenId}
    (hid : id ∈ old) (hc : c.contains id = false) :
    d.generation? id.index.toNat = some (id.generation + 1) := by
  have hnext : c.generation? id.index.toNat = some (id.generation + 1) :=
    (h id hid).resolve_left (by simp [hc])
  rw [hr.unturned, hnext]
  · unfold generation? at hnext
    obtain ⟨slot, hs, -⟩ := Option.map_eq_some_iff.mp hnext
    exact (Array.getElem?_eq_some_iff.mp hs).1
  · intro other hother hindex
    rw [← Bool.not_eq_false]
    intro hleft
    have he := hone other (hgone other hother hleft) id hid (UInt32.toNat_inj.mp hindex)
    rw [he, hc] at hother
    cases hother

theorem Retired.step (h : Retired old c) (hr : c.Recycles d)
    (hone : OnePerSlot old)
    (hgone : ∀ id, c.contains id = true → d.contains id = false → id ∈ old) : Retired old d := by
  intro id hid
  cases hc : c.contains id with
  | false => exact Or.inr (h.stays_away hr hone hgone hid hc)
  | true =>
    cases hd : d.contains id with
    | true => exact Or.inl rfl
    | false => exact Or.inr (hr.retired id hc hd)

end Retired

/-! ## Where the pass looks -/

section Standalone

variable {c : TokenChain} {A B : List Entry}

/-- Backwards over whitespace: the start is the nearest token so far, or whitespace that only
whitespace divides from it. -/
theorem leadingStart?_cases {first start : TokenId} {before : List Entry}
    (h : leadingStart? first before = some start) :
    start = first ∨ ∃ W t rest, before = W ++ (start, t) :: rest ∧ t.isWhitespace = true ∧
      ∀ e ∈ W, e.2.isWhitespace = true := by
  induction before generalizing first with
  | nil =>
    simp only [leadingStart?, Option.some.injEq] at h
    exact Or.inl h.symm
  | cons e before ih =>
    obtain ⟨id, token⟩ := e
    have hw : token.isWhitespace = true := by
      rw [← Bool.not_eq_false]
      intro hw
      simp [leadingStart?, hw] at h
    simp only [leadingStart?, hw, Bool.not_true, Bool.false_eq_true, if_false] at h
    right
    split at h
    · cases h
      exact ⟨[], token, before, rfl, hw, by simp⟩
    · rcases ih h with rfl | ⟨W, t, rest, rfl, ht, hW⟩
      · exact ⟨[], token, before, rfl, hw, by simp⟩
      · refine ⟨(id, token) :: W, t, rest, rfl, ht, ?_⟩
        rw [List.forall_mem_cons]
        exact ⟨hw, hW⟩

/-- The line of a standalone comment starts with the comment, or with whitespace that has
whitespace or the comment right behind it. -/
theorem Holds.standaloneStart?_cases {comment start : TokenId} {t : Token}
    (h : c.Holds (A ++ (comment, t) :: B)) (hs : c.standaloneStart? comment = some start) :
    start = comment ∨ ∃ P u n Q, A ++ (comment, t) :: B = P ++ (start, u) :: n :: Q ∧
      u.isWhitespace = true ∧ (n.1 = comment ∨ n.2.isWhitespace = true) := by
  unfold standaloneStart? at hs
  rw [h.entriesBackFrom_at] at hs
  dsimp only at hs
  split at hs
  · exact Or.inl (Option.some.inj hs).symm
  · refine (leadingStart?_cases hs).imp_right ?_
    rintro ⟨W, u, rest, hA, hu, hW⟩
    rw [List.reverse_eq_iff, List.reverse_append, List.reverse_cons, List.append_assoc,
      List.singleton_append] at hA
    rw [hA, List.append_assoc, List.cons_append]
    cases hW' : W.reverse with
    | nil => exact ⟨rest.reverse, u, (comment, t), B, rfl, hu, Or.inl rfl⟩
    | cons e V =>
      have he : e ∈ W := by
        rw [← List.mem_reverse, hW']
        exact List.mem_cons_self
      exact ⟨rest.reverse, u, e, _, rfl, hu, Or.inr (hW e he)⟩

end Standalone

end TokenChain

/-! ## Results that are sure -/

/-- No fault on a stale id, and a result with this property. -/
def Lands {α : Type} (P : α → Prop) : Except Fault α → Prop
  | .ok a => P a
  | .error fault => ∀ id, fault ≠ .staleId id

section Lands

variable {α β : Type} {P : α → Prop} {Q : β → Prop} {x : Except Fault α}

theorem Lands.mono {P' : α → Prop} (h : Lands P x) (hP : ∀ a, P a → P' a) : Lands P' x := by
  cases x with
  | ok a => exact hP a h
  | error fault => exact h

theorem Lands.bind {f : α → Except Fault β} (h : Lands P x) (hf : ∀ a, P a → Lands Q (f a)) :
    Lands Q (x >>= f) := by
  cases x with
  | ok a => exact hf a h
  | error fault => exact h

theorem Lands.map {f : α → β} (h : Lands P x) (hf : ∀ a, P a → Q (f a)) : Lands Q (x.map f) := by
  cases x with
  | ok a => exact hf a h
  | error fault => exact h

end Lands

namespace TokenChain

variable {c : TokenChain}

/-- The column for a comment needs no more than what the list holds. -/
theorem Holds.lands_alignmentColumn? {A B : List Entry} {comment : TokenId} {t : Token}
    (h : c.Holds (A ++ (comment, t) :: B)) (closers : List String) :
    Lands (fun _ => True) (c.alignmentColumn? closers comment) := by
  unfold TokenChain.alignmentColumn?
  rw [h.nextCode?_at]
  rcases hfind : B.find? fun e => !e.2.isTrivia with _ | ⟨anchor, code⟩
  · simp only [hfind]
    trivial
  · obtain ⟨P, Q, rfl⟩ := List.append_of_mem (List.mem_of_find?_eq_some hfind)
    have hcode : c.Holds ((A ++ (comment, t) :: P) ++ (anchor, code) :: Q) := by simpa using h
    have hget : ∀ {P : List Entry} {id : TokenId} {t : Token} {Q : List Entry},
        c.Holds (P ++ (id, t) :: Q) → Lands (fun _ => True) (c.get id) := by
      intro P id t Q hat
      rw [hat.get_at]
      trivial
    have hend : ∀ t : Token, Lands (fun _ => True) t.endPlace := by
      intro t
      unfold Token.endPlace
      split <;> simp [Lands]
    simp only [hfind, Option.map_some]
    refine (hget hcode).bind fun code _ => (hget h).bind fun note _ => (hend note).bind ?_
    intro ending _
    split <;> trivial

theorem Holds.lands_alignmentOf? {A B : List Entry} {comment : TokenId} {t : Token}
    (h : c.Holds (A ++ (comment, t) :: B)) (closers : List String) :
    Lands (fun goal => ∀ start column, goal = some (start, column) →
      c.standaloneStart? comment = some start) (c.alignmentOf? closers comment) := by
  unfold alignmentOf?
  rcases hs : c.standaloneStart? comment with _ | start
  · simp [Lands]
  · refine (h.lands_alignmentColumn? closers).bind ?_
    rintro (_ | column) -
    · simp [Lands, pure, Except.pure]
    · simp [Lands, pure, Except.pure]

/-! ## The pass over the comments -/

/-- The chain in the middle of the pass. `S` are the stamps before it. Whatever was put in stands
in front of a comment that the pass is done with. -/
structure Passing (S : List Stamp) (done : List TokenId) (c : TokenChain) (M : List Entry) :
    Prop where
  holds : c.Holds M
  traced : Traced (fun n => n.id ∈ done ∧ n.kind = .comment) S (stampsOf M)
  retired : Retired (S.map Stamp.id) c

/-- One turn of the pass: a line gets its indentation, and no token of `old` comes back. -/
def Turn (old : List TokenId) (M M' : List Entry) : Prop :=
  ∃ A start t B level value, M = A ++ (start, t) :: B ∧
    Reindented moveRow A start t B level value M' ∧ (value ∉ M.map Prod.fst → value ∉ old)

theorem Holds.next?_of_neighbours {M : List Entry} (h : c.Holds M) {a b : TokenId}
    (hab : [a, b] <:+: M.map Prod.fst) : c.next? a = some b := by
  obtain ⟨P, Q, hM⟩ := hab
  rw [List.append_assoc] at hM
  obtain ⟨A, R, rfl, -, hR⟩ := List.map_eq_append_iff.mp hM.symm
  obtain ⟨e, R, rfl, he, hR⟩ := List.map_eq_cons_iff.mp hR
  obtain ⟨n, B, rfl, hn, -⟩ := List.map_eq_cons_iff.mp hR
  have hat : c.Holds (A ++ (e.1, e.2) :: n :: B) := h
  rw [← he, hat.next?_at, ← hn]
  rfl

section Pass

variable {S : List Stamp} {done : List TokenId} {A B : List Entry} {comment start : TokenId}
  {t : Token}

/-- Whitespace with whitespace, or with the next comment, right behind it was there before the
pass. -/
theorem Passing.old_of_whitespace {n : Entry} {Q : List Entry}
    (h : Passing S done c (A ++ (start, t) :: n :: Q)) (hdone : comment ∉ done)
    (hn : n.1 = comment ∨ n.2.isWhitespace = true) : start ∈ S.map Stamp.id := by
  have hmem : stampOf (start, t) ∈ stampsOf (A ++ (start, t) :: n :: Q) := by simp [stampsOf]
  rcases h.traced.origin _ hmem with ⟨s, hs, hkeeps⟩ | ⟨-, -, v, hv, hfront, hnext, -⟩
  · rw [show start = s.id from hkeeps.id]
    exact List.mem_map_of_mem hs
  · rw [stampsOf_ids] at hnext
    have hlink := h.holds.next?_of_neighbours hnext
    change c.next? start = some v.id at hlink
    rw [h.holds.next?_at, frontId_cons, Option.some.injEq] at hlink
    have hnd := h.holds.distinct
    rw [← stampsOf_ids] at hnd
    have hvn : v = stampOf n := eq_of_id hnd (by simp [stampsOf]) hv hlink.symm
    rcases hn with hcomment | hw
    · rw [← hlink, hcomment] at hfront
      exact absurd hfront.1 hdone
    · have hkind : n.2.kind = .comment := by
        rw [hvn] at hfront
        exact hfront.2
      simp [Token.isWhitespace, hkind] at hw

theorem Passing.setIndent (h : Passing S done c (A ++ (start, t) :: B))
    (hone : OnePerSlot (S.map Stamp.id)) (hdone : comment ∉ done)
    (hstart : start = comment ∧ t.isComment = true ∨ t.isWhitespace = true ∧
      ∃ n Q, B = n :: Q ∧ (n.1 = comment ∨ n.2.isWhitespace = true))
    (hroom : c.slots.size < slotLimit) (level : Nat) :
    Lands (fun e => (∃ M, Passing S (comment :: done) e.chain M ∧
        Turn (S.map Stamp.id) (A ++ (start, t) :: B) M) ∧
      e.chain.slots.size ≤ c.slots.size + 1) (c.setIndent start level) := by
  rcases h.holds.setIndent_outcome hroom level with ⟨e, L, hok, hL, hre, hslots⟩ | ⟨-, hfault⟩
  · rw [hok]
    have hold : t.isWhitespace = true → start ∈ S.map Stamp.id := by
      intro hw
      rcases hstart with ⟨-, hc⟩ | ⟨-, n, Q, rfl, hn⟩
      · simp_all [Token.isWhitespace, Token.isComment]
      · exact h.old_of_whitespace hdone hn
    have hgone : ∀ id, c.contains id = true → e.chain.contains id = false →
        id ∈ S.map Stamp.id := by
      intro id hc he
      rw [← Bool.not_eq_true, hL.live_iff] at he
      obtain ⟨rfl, hw⟩ := (hre.ids.2 id (h.holds.live_iff.mp hc)).resolve_left he
      exact hold hw
    have hnew : e.value ∉ (A ++ (start, t) :: B).map Prod.fst → e.value ∉ S.map Stamp.id := by
      intro hfresh hin
      rw [← h.holds.live_iff, Bool.not_eq_true] at hfresh
      have haway := not_contains_of_next (h.retired.stays_away hslots hone hgone hin hfresh)
      rw [hL.live_iff.mpr hre.ids.1] at haway
      cases haway
    refine ⟨⟨L, ⟨hL, ?_, h.retired.step hslots hone hgone⟩,
      A, start, t, B, level, e.value, rfl, hre, hnew⟩, hslots.grown⟩
    refine hre.traced h.traced h.holds.distinct hnew ?_ ?_ ?_
    · exact fun n hn => ⟨List.mem_cons_of_mem _ hn.1, hn.2⟩
    · rintro ⟨hin, hkind⟩
      rcases hstart with ⟨rfl, -⟩ | ⟨hw, -⟩
      · exact hdone hin
      · simp_all [Token.isWhitespace, stampOf]
    · intro hw
      rcases hstart with ⟨rfl, hc⟩ | ⟨hw', -⟩
      · exact ⟨List.mem_cons_self, by simpa [Token.isComment, stampOf] using hc⟩
      · rw [hw] at hw'
        cases hw'
  · rcases hfault with hfault | hfault
    · simp [hfault, Lands]
    · simp [hfault, Lands]

theorem Passing.alignEach {M : List Entry} (h : Passing S done c M)
    (hone : OnePerSlot (S.map Stamp.id)) (closers : List String) {todo : List TokenId}
    (hnd : todo.Nodup)
    (hdone : ∀ id ∈ todo, id ∉ done)
    (htodo : ∀ id ∈ todo, ∃ s ∈ S, s.id = id ∧ s.kind = .comment)
    (hroom : c.slots.size + todo.length ≤ slotLimit) :
    Lands (fun e => ∃ done' M', Passing S done' e.chain M' ∧
      Relation.ReflTransGen (Turn (S.map Stamp.id)) M M') (alignEach closers todo c) := by
  induction todo generalizing c done M with
  | nil => exact ⟨done, M, h, .refl⟩
  | cons comment todo ih =>
    rw [List.nodup_cons] at hnd
    rw [List.forall_mem_cons] at hdone htodo
    rw [List.length_cons] at hroom
    obtain ⟨⟨s, hs, rfl, hkind⟩, htodo⟩ := htodo
    have hcode : s ∈ codeOf (stampsOf M) := by
      rw [h.traced.code, mem_codeOf]
      exact ⟨hs, by simp [hkind]⟩
    obtain ⟨⟨id, t⟩, he, rfl⟩ := List.mem_map.mp (mem_codeOf.mp hcode).1
    obtain ⟨A, B, rfl⟩ := List.append_of_mem he
    have hcomment : t.isComment = true := by simpa [Token.isComment, stampOf] using hkind
    rw [TokenChain.alignEach]
    refine (h.holds.lands_alignmentOf? closers).bind ?_
    rintro (_ | ⟨start, column⟩) hof
    · exact ih h hnd.2 hdone.2 htodo (by omega)
    have hstart := hof start column rfl
    have hmoved : Lands (fun e => (∃ M', Passing S (id :: done) e.chain M' ∧
          Turn (S.map Stamp.id) (A ++ (id, t) :: B) M') ∧
        e.chain.slots.size ≤ c.slots.size + 1) (c.setIndent start column) := by
      rcases h.holds.standaloneStart?_cases hstart with rfl | ⟨P, u, n, Q, hM, hu, hn⟩
      · exact h.setIndent hone hdone.1 (Or.inl ⟨rfl, hcomment⟩) (by omega) column
      · rw [hM] at h ⊢
        exact h.setIndent hone hdone.1 (Or.inr ⟨hu, n, Q, rfl, hn⟩) (by omega) column
    refine hmoved.bind ?_
    rintro e ⟨⟨M', hM', hturn⟩, hgrown⟩
    have hdone' : ∀ other ∈ todo, other ∉ id :: done := by
      intro other hother hin
      rcases List.mem_cons.mp hin with rfl | hin
      · exact hnd.1 hother
      · exact hdone.2 other hother hin
    refine (ih hM' hnd.2 hdone' htodo (by omega)).bind ?_
    rintro others ⟨done'', M'', hM'', hturns⟩
    exact ⟨done'', M'', hM'', .head hturn hturns⟩

end Pass

end TokenChain

end LineLayout
