-- What the check of a chain decides. The check compares each token with the one before it. The
-- rule that it stands for looks at the whole text: a token stands at the row and the column where
-- the text of all tokens before it stops. The two agree, and the check never meets a place that
-- does not fit in a word, because it stops at the first token that is out of place.
import LineLayout.Proofs.Placed
import Mathlib.Data.List.TakeWhile

namespace LineLayout

/-! ## The rule -/

/-- The place right after a text that starts at the front: its line breaks, and the characters
behind the last one. -/
def textEnd (text : List Char) : Position := ⟨text.count '\n', (lastLine text).length⟩

/-- Every token stands where the text of all tokens before it stops. The first one begins a line,
and so does one behind a text that ends with a line break, as both tokens say. Whitespace comes
directly behind whitespace only over a line break. -/
structure Rendered (tokens : List Token) : Prop where
  place : ∀ A t B, tokens = A ++ t :: B →
    t.position = textEnd (A.flatMap fun u => u.text.toList)
  first : ∀ t ∈ tokens.head?, t.beginsLine = true
  marks : ∀ A before t B, tokens = A ++ before :: t :: B →
    t.beginsLine = before.endsLine ∧ before.endsLine = before.endsWithBreak
  apart : ∀ A before t B, tokens = A ++ before :: t :: B → t.isWhitespace = true →
    before.isWhitespace = true → before.endsWithBreak = true

/-! ## Where joined texts stop -/

theorem lastLine_append_of_break (a : List Char) {b : List Char} (h : '\n' ∈ b) :
    lastLine (a ++ b) = lastLine b := by
  have hshort : (b.reverse.takeWhile (· != '\n')).length ≠ b.reverse.length := by
    intro hlen
    have hall := (List.takeWhile_sublist _).eq_of_length hlen
    have hno := List.takeWhile_eq_self_iff.mp hall '\n' (List.mem_reverse.mpr h)
    simp at hno
  unfold lastLine
  rw [List.reverse_append, List.takeWhile_append, if_neg hshort]

theorem lastLine_append_of_plain (a : List Char) {b : List Char} (h : '\n' ∉ b) :
    lastLine (a ++ b) = lastLine a ++ b := by
  have hall : ∀ ch ∈ b.reverse, (ch != '\n') = true := by
    intro ch hch
    simp only [bne_iff_ne]
    rintro rfl
    exact h (List.mem_reverse.mp hch)
  unfold lastLine
  rw [List.reverse_append, List.takeWhile_append_of_pos hall, List.reverse_append,
    List.reverse_reverse]

/-- To go on from where a text stops is to put the texts together. -/
theorem after_textEnd (a b : List Char) : (textEnd a).after b = textEnd (a ++ b) := by
  by_cases h : '\n' ∈ b
  · rw [Position.after_of_break _ h]
    simp only [textEnd, lastLine_append_of_break a h, List.count_append]
  · rw [Position.after_of_plain _ h]
    simp only [textEnd, lastLine_append_of_plain a h, List.count_append, List.length_append,
      List.count_eq_zero_of_not_mem h, Nat.add_zero]

theorem textEnd_row_le (text : List Char) : (textEnd text).row ≤ text.length :=
  List.count_le_length

theorem textEnd_col_le (text : List Char) : (textEnd text).col ≤ text.length := by
  have h := (List.takeWhile_sublist (l := text.reverse) (· != '\n')).length_le
  simpa [textEnd, lastLine] using h

theorem Token.following_of_textEnd {t : Token} {text : List Char}
    (h : t.position = textEnd text) : t.following = textEnd (text ++ t.text.toList) := by
  rw [following, h, after_textEnd]

theorem Token.following_lt {t : Token} {text : List Char} (h : t.position = textEnd text)
    (hlen : (text ++ t.text.toList).length < wordLimit) :
    t.following.row < wordLimit ∧ t.following.col < wordLimit := by
  rw [following_of_textEnd h]
  exact ⟨Nat.lt_of_le_of_lt (textEnd_row_le _) hlen, Nat.lt_of_le_of_lt (textEnd_col_le _) hlen⟩

/-! ## The rule for neighbours and the rule for the text -/

theorem textOf_append (A B : List Entry) : textOf (A ++ B) = textOf A ++ textOf B :=
  List.flatMap_append

theorem textOf_cons (e : Entry) (L : List Entry) :
    textOf (e :: L) = e.2.text.toList ++ textOf L :=
  List.flatMap_cons

theorem textOf_tokens (L : List Entry) :
    ((L.map Prod.snd).flatMap fun t => t.text.toList) = textOf L :=
  List.flatMap_map ..

theorem PlacedAfter.stop {before : Option Token} {L : List Entry} {text : List Char}
    (h : PlacedAfter before L) (hstop : stopOf before = textEnd text) :
    stopOf (lastToken before L) = textEnd (text ++ textOf L) := by
  induction L generalizing before text with
  | nil => simpa [textOf] using hstop
  | cons e rest ih =>
    have hplace : e.2.position = textEnd text := h.1.place.trans hstop
    rw [lastToken_cons, ih h.2 (Token.following_of_textEnd hplace), textOf_cons,
      List.append_assoc]

theorem PlacedAfter.place_at {A B : List Entry} {e : Entry}
    (h : PlacedAfter none (A ++ e :: B)) : e.2.position = textEnd (textOf A) := by
  obtain ⟨hA, he, -⟩ := placed_append.mp h
  have hfront : stopOf none = textEnd [] := rfl
  rw [he.place, hA.stop hfront, List.nil_append]

theorem PlacedAfter.rendered {L : List Entry} (h : PlacedAfter none L) :
    Rendered (L.map Prod.snd) := by
  have hjoin : ∀ A before t B, L.map Prod.snd = A ++ before :: t :: B → Follows before t := by
    intro A before t B hsplit
    obtain ⟨LA, LB, rfl, rfl, hLB⟩ := List.map_eq_append_iff.mp hsplit
    obtain ⟨b, LT, rfl, rfl, hLT⟩ := List.map_eq_cons_iff.mp hLB
    obtain ⟨e, LR, rfl, rfl, -⟩ := List.map_eq_cons_iff.mp hLT
    exact (placed_append.mp h).2.2.1
  refine ⟨?_, ?_, ?_, ?_⟩
  · intro A t B hsplit
    obtain ⟨LA, LB, rfl, rfl, hLB⟩ := List.map_eq_append_iff.mp hsplit
    obtain ⟨e, LB, rfl, rfl, -⟩ := List.map_eq_cons_iff.mp hLB
    rw [h.place_at, textOf_tokens]
  · intro t ht
    cases L with
    | nil => cases ht
    | cons e rest =>
      cases ht
      exact h.1.1
  · intro A before t B hsplit
    have hf := hjoin A before t B hsplit
    exact ⟨hf.marks, hf.breaks⟩
  · intro A before t B hsplit ht hb
    have hf := hjoin A before t B hsplit
    exact hf.breaks.symm.trans (hf.apart ht hb)

theorem Rendered.joins {A B : List Entry} {e : Entry}
    (h : Rendered ((A ++ e :: B).map Prod.snd)) : Joins (lastToken none A) e.2 := by
  have hplace : e.2.position = textEnd (textOf A) := by
    rw [← textOf_tokens]
    exact h.place (A.map Prod.snd) e.2 (B.map Prod.snd) (by simp)
  rcases List.eq_nil_or_concat A with rfl | ⟨front, b, rfl⟩
  · exact ⟨h.first e.2 (by simp), hplace⟩
  · rw [List.concat_eq_append] at h hplace ⊢
    have hsplit : (front ++ [b] ++ e :: B).map Prod.snd =
        front.map Prod.snd ++ b.2 :: e.2 :: B.map Prod.snd := by
      simp
    have hb : b.2.position = textEnd (textOf front) := by
      rw [← textOf_tokens]
      exact h.place _ _ _ hsplit
    obtain ⟨hmark, hbreak⟩ := h.marks _ _ _ _ hsplit
    rw [lastToken_concat]
    refine ⟨hmark, hbreak, ?_, fun ht hw => hbreak.trans (h.apart _ _ _ _ hsplit ht hw)⟩
    rw [Token.following_of_textEnd hb, hplace, textOf_append, textOf_cons]
    simp [textOf]

theorem Rendered.placed {A B : List Entry} (h : Rendered ((A ++ B).map Prod.snd)) :
    PlacedAfter (lastToken none A) B := by
  induction B generalizing A with
  | nil => trivial
  | cons e rest ih =>
    refine ⟨h.joins, ?_⟩
    have hnext : Rendered (((A ++ [e]) ++ rest).map Prod.snd) := by simpa using h
    have hrest := ih hnext
    rwa [lastToken_concat] at hrest

/-- Tokens join one another exactly when the whole text puts them where they are. -/
theorem placed_iff_rendered {L : List Entry} : PlacedAfter none L ↔ Rendered (L.map Prod.snd) :=
  ⟨PlacedAfter.rendered, fun h => Rendered.placed (A := []) h⟩

/-! ## The check answers -/

/-- One comparison answers, as long as the place behind the first token fits. -/
theorem stepViolation?_answers (n : Nat) {before : Token} (t : Token)
    (hr : before.following.row < wordLimit) (hc : before.following.col < wordLimit) :
    ∃ found, stepViolation? n before t = .ok found := by
  unfold stepViolation?
  split
  · exact ⟨_, rfl⟩
  split
  · exact ⟨_, rfl⟩
  rw [Token.endPlace_of_lt hr hc]
  simp only
  split
  · exact ⟨_, rfl⟩
  split
  · exact ⟨_, rfl⟩
  · exact ⟨_, rfl⟩

namespace TokenChain

/-- The check behind a token answers. It goes on to the next token only when that one is in its
place, so each place that it computes is a place in the text. -/
theorem checkBehind_answers (c : TokenChain) (n : Nat) {before : Entry} {L : List Entry}
    {text : List Char} (hplace : before.2.position = textEnd text)
    (hlen : (text ++ textOf (before :: L)).length < wordLimit) :
    ∃ found, c.checkBehind n before L = .ok found := by
  induction L generalizing n before text with
  | nil => exact ⟨none, rfl⟩
  | cons e rest ih =>
    rw [textOf_cons, ← List.append_assoc] at hlen
    obtain ⟨hr, hc⟩ := Token.following_lt hplace
      (Nat.lt_of_le_of_lt (List.sublist_append_left _ _).length_le hlen)
    obtain ⟨found, hfound⟩ := stepViolation?_answers n e.2 hr hc
    unfold checkBehind
    split
    · exact ⟨_, rfl⟩
    rw [hfound]
    cases found with
    | some violation => exact ⟨some violation, rfl⟩
    | none =>
      have hf := follows_of_check hfound
      exact ih (n + 1) (hf.place.trans (Token.following_of_textEnd hplace)) hlen

theorem checkEntries_answers (c : TokenChain) {L : List Entry}
    (hlen : (textOf L).length < wordLimit) : ∃ found, c.checkEntries L = .ok found := by
  cases L with
  | nil => exact ⟨none, rfl⟩
  | cons e rest =>
    simp only [checkEntries]
    split
    · exact ⟨_, rfl⟩
    cases hhead : headViolation? e.2 with
    | some violation => exact ⟨some violation, rfl⟩
    | none =>
      have hplace : e.2.position = textEnd [] := (joins_of_headCheck hhead).2
      exact c.checkBehind_answers 1 hplace hlen

theorem check_answers (c : TokenChain) (hlen : (textOf c.entries).length < wordLimit) :
    ∃ found, c.check = .ok found := by
  obtain ⟨found, hfound⟩ := c.checkEntries_answers hlen
  unfold check
  rw [hfound]
  cases found with
  | some violation => exact ⟨some violation, rfl⟩
  | none =>
    simp only
    split
    · exact ⟨_, rfl⟩
    · exact ⟨_, rfl⟩

/-- Tokens in their places in a text that is short enough pass the check. -/
theorem Holds.check_of_short {c : TokenChain} {L : List Entry} (h : c.Holds L)
    (hp : PlacedAfter none L) (hlen : (textOf L).length < wordLimit) : c.check = .ok none := by
  apply h.check_of_fits hp
  intro e he
  obtain ⟨A, B, rfl⟩ := List.append_of_mem he
  rw [textOf_append, textOf_cons, ← List.append_assoc] at hlen
  exact Token.following_lt hp.place_at
    (Nat.lt_of_le_of_lt (List.sublist_append_left _ _).length_le hlen)

/-- In a text that is short enough, the check finds nothing exactly in rendered tokens. -/
theorem Holds.check_none_iff {c : TokenChain} {L : List Entry} (h : c.Holds L)
    (hlen : (textOf L).length < wordLimit) : c.check = .ok none ↔ Rendered (L.map Prod.snd) := by
  rw [← placed_iff_rendered]
  exact ⟨h.placed_of_check, fun hp => h.check_of_short hp hlen⟩

end TokenChain

/-- The check of a chain always answers, and it finds nothing exactly when every token stands where
the text before it stops and marks the lines that its text begins and ends. -/
theorem check_finds_nothing_exactly_in_rendered_chains (c : TokenChain) (L : List Entry)
    (h : c.Holds L) (hlen : c.render.length < wordLimit) :
    (∃ found, c.check = .ok found) ∧ (c.check = .ok none ↔ Rendered c.toList) := by
  have htext : (textOf L).length < wordLimit := by
    rw [← h.render_toList, String.length_toList]
    exact hlen
  have hentries := h.entries_eq
  refine ⟨c.check_answers (by rw [hentries]; exact htext), ?_⟩
  unfold TokenChain.toList
  rw [hentries, ← placed_iff_rendered]
  exact ⟨h.placed_of_check, fun hp => h.check_of_short hp htext⟩

/-- A comment over two lines with an empty text behind it. -/
def nestedTokens : List Token :=
  [{ text := "\x7ba\nb\x7d", kind := .comment, beginsLine := true },
    { text := "", kind := .symbol, row := 1, col := 2 },
    { text := "\n\n", kind := .whitespace, endsLine := true, row := 1, col := 2 },
    { text := " ", kind := .whitespace, beginsLine := true, row := 3 }]

/-- The same tokens, with the last one on the last row that a word can name. -/
def strayTokens : List Token :=
  nestedTokens.dropLast ++
    [{ text := " \n", kind := .whitespace, beginsLine := true, row := wordLimit - 1 }]

theorem nested_chain_is_rendered_and_stray_chain_is_not :
    Rendered (TokenChain.ofList nestedTokens).toList ∧
      (∃ found, (TokenChain.ofList strayTokens).check = .ok found) ∧
      ¬ Rendered (TokenChain.ofList strayTokens).toList := by
  obtain ⟨L, hL⟩ := TokenChain.linked_ofList (by decide : nestedTokens.length ≤ slotLimit)
  obtain ⟨M, hM⟩ := TokenChain.linked_ofList (by decide : strayTokens.length ≤ slotLimit)
  have hnested := check_finds_nothing_exactly_in_rendered_chains _ L hL (by decide +kernel)
  have hstray := check_finds_nothing_exactly_in_rendered_chains _ M hM (by decide +kernel)
  refine ⟨hnested.2.mp (by decide +kernel), hstray.1, ?_⟩
  rw [← hstray.2]
  decide +kernel

end LineLayout
