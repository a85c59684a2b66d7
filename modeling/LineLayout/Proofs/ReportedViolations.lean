-- What the check of a chain reports. The check goes from token to token and computes each place
-- from the token before, so it can be trusted only as far as it has come. It stops at the first
-- token that the text before it does not put where it is, and up to there the computed places are
-- the true ones: the violation names the right token and holds of it.
import LineLayout.Proofs.RenderedPlaces

namespace LineLayout

/-! ## Violations that are so -/

/-- What a violation says of a token with the tokens `front` before it. A break mark is about the
last token of `front`, which is why its ordinal is one less. -/
def Violation.HoldsOf (front : List Token) (t : Token) : Violation → Prop
  | .unlinked _ => False
  | .firstInsideLine ordinal => front = [] ∧ ordinal = 0 ∧ t.beginsLine = false
  | .lineMarks ordinal beginsLine endsLine =>
    ordinal = front.length ∧ beginsLine = t.beginsLine ∧ beginsLine ≠ endsLine ∧
      ∃ before, front.getLast? = some before ∧ endsLine = before.endsLine
  | .breakMark ordinal endsLine =>
    ordinal + 1 = front.length ∧
      ∃ before, front.getLast? = some before ∧ endsLine = before.endsLine ∧
        endsLine ≠ before.endsWithBreak
  | .misplaced ordinal expected found =>
    ordinal = front.length ∧ found = t.position ∧
      expected = textEnd (front.flatMap fun u => u.text.toList) ∧ expected ≠ found
  | .adjacentWhitespace ordinal =>
    ordinal = front.length ∧ t.isWhitespace = true ∧
      ∃ before, front.getLast? = some before ∧ before.isWhitespace = true ∧
        before.endsLine = false ∧ before.endsWithBreak = false
  | .miscounted _ _ => False

/-- The violation is about the first token that is wrong. The tokens before it are rendered, with
it they are not, and what the violation says is so. -/
def Violation.FirstIn (tokens : List Token) (v : Violation) : Prop :=
  ∃ front t rest, tokens = front ++ t :: rest ∧ Rendered front ∧ ¬ Rendered (front ++ [t]) ∧
    v.HoldsOf front t

theorem Violation.firstIn_of_entries {A B : List Entry} {e : Entry} {v : Violation}
    (hp : PlacedAfter none A) (hj : ¬ Joins (lastToken none A) e.2)
    (hv : v.HoldsOf (A.map Prod.snd) e.2) : v.FirstIn ((A ++ e :: B).map Prod.snd) := by
  refine ⟨A.map Prod.snd, e.2, B.map Prod.snd, by simp, hp.rendered, ?_, hv⟩
  intro hr
  have hmap : A.map Prod.snd ++ [e.2] = (A ++ [e]).map Prod.snd := by simp
  rw [hmap, ← placed_iff_rendered] at hr
  exact hj (placed_append.mp hr).2.1

/-! ## One comparison -/

theorem headViolation?_holdsOf {t : Token} {v : Violation} (h : headViolation? t = some v) :
    v.HoldsOf [] t ∧ ¬ Joins none t := by
  unfold headViolation? at h
  split at h
  · next hb =>
    cases h
    simp only [Bool.not_eq_true'] at hb
    exact ⟨⟨rfl, rfl, hb⟩, fun hj => by simp [hj.1] at hb⟩
  split at h
  · next hp =>
    cases h
    exact ⟨⟨rfl, rfl, rfl, Ne.symm hp⟩, fun hj => hp hj.2⟩
  · cases h

theorem PlacedAfter.following_last {A : List Entry} {before : Entry}
    (h : PlacedAfter none (A ++ [before])) :
    before.2.following =
      textEnd (((A ++ [before]).map Prod.snd).flatMap fun u => u.text.toList) := by
  have hplace := Token.following_of_textEnd h.place_at
  rw [hplace, textOf_tokens, textOf_append]
  simp [textOf]

theorem stepViolation?_holdsOf {A : List Entry} {before : Entry} {t : Token} {v : Violation}
    (hp : PlacedAfter none (A ++ [before]))
    (h : stepViolation? (A.length + 1) before.2 t = .ok (some v)) :
    v.HoldsOf ((A ++ [before]).map Prod.snd) t ∧ ¬ Follows before.2 t := by
  have hlen : ((A ++ [before]).map Prod.snd).length = A.length + 1 := by simp
  have hlast : ((A ++ [before]).map Prod.snd).getLast? = some before.2 := by simp
  unfold stepViolation? at h
  split at h
  · next hm =>
    cases h
    exact ⟨⟨hlen.symm, rfl, hm, _, hlast, rfl⟩, fun hf => hm hf.marks⟩
  split at h
  · next hb =>
    cases h
    exact ⟨⟨hlen.symm, _, hlast, rfl, hb⟩, fun hf => hb hf.breaks⟩
  next hb =>
  split at h
  · cases h
  next expected hend =>
  have hexpected : expected = before.2.following := Token.eq_following_of_endPlace hend
  split at h
  · next hne =>
    cases h
    refine ⟨⟨hlen.symm, rfl, hexpected.trans hp.following_last, Ne.symm hne⟩, ?_⟩
    exact fun hf => hne (hf.place.trans hexpected.symm)
  split at h
  · next ha =>
    cases h
    simp only [Bool.and_eq_true, Bool.not_eq_true'] at ha
    obtain ⟨⟨ht, hw⟩, hends⟩ := ha
    refine ⟨⟨hlen.symm, ht, _, hlast, hw, hends, (not_not.mp hb).symm.trans hends⟩, ?_⟩
    intro hf
    rw [hf.apart ht hw] at hends
    cases hends
  · cases h

/-! ## The whole check -/

namespace TokenChain

/-- The check behind a token goes on only while the tokens are in their places, so it stops at the
first one that is not. -/
theorem firstIn_of_checkBehind {c : TokenChain} {A L : List Entry} {before : Entry}
    {after : Option TokenId} {v : Violation} (hl : c.Linked (some before.1) L after)
    (hp : PlacedAfter none (A ++ [before]))
    (h : c.checkBehind (A.length + 1) before L = .ok (some v)) :
    v.FirstIn ((A ++ before :: L).map Prod.snd) := by
  induction L generalizing A before with
  | nil => cases h
  | cons e rest ih =>
    have hassoc : A ++ before :: e :: rest = (A ++ [before]) ++ e :: rest := by simp
    have hlast : lastToken none (A ++ [before]) = some before.2 := lastToken_concat _ _ _
    have hprev : c.prev? e.1 = some before.1 := by simp [prev?, hl.1]
    unfold checkBehind at h
    rw [if_neg (not_not.mpr hprev)] at h
    rw [hassoc]
    split at h
    · next hstep =>
      have hnext : PlacedAfter none ((A ++ [before]) ++ [e]) := by
        refine placed_append.mpr ⟨hp, ?_, trivial⟩
        rw [hlast]
        exact follows_of_check hstep
      apply ih hl.2 hnext
      simpa using h
    · obtain ⟨hv, hnot⟩ := stepViolation?_holdsOf hp h
      apply Violation.firstIn_of_entries hp _ hv
      rw [hlast]
      exact hnot

theorem Holds.firstIn_of_check {c : TokenChain} {L : List Entry} (h : c.Holds L) {v : Violation}
    (hv : c.check = .ok (some v)) : v.FirstIn (L.map Prod.snd) := by
  have hentries : c.checkEntries L = .ok (some v) := by
    unfold check at hv
    rw [h.entries_eq, h.size] at hv
    split at hv
    · simp at hv
    · exact hv
  cases L with
  | nil => cases hentries
  | cons e rest =>
    have hprev : c.prev? e.1 = none := by simp [prev?, h.linked.1]
    simp only [checkEntries] at hentries
    rw [if_neg (not_not.mpr hprev)] at hentries
    split at hentries
    · next hhead =>
      cases hentries
      obtain ⟨hof, hnot⟩ := headViolation?_holdsOf hhead
      exact Violation.firstIn_of_entries (A := []) trivial hnot hof
    · next hhead =>
      have hfirst : PlacedAfter none ([] ++ [e]) := ⟨joins_of_headCheck hhead, trivial⟩
      exact firstIn_of_checkBehind h.linked.2 hfirst hentries

end TokenChain

/-- The check of a chain answers. It is silent exactly when every token is right, and a violation
that it reports is real and the earliest: it is about the first token that is wrong, and what it
says of this token is so. -/
theorem reported_violations_are_real_and_earliest (c : TokenChain) (L : List Entry)
    (h : c.Holds L) (hlen : c.render.length < wordLimit) :
    ∃ found, c.check = .ok found ∧ (found = none ↔ Rendered c.toList) ∧
      ∀ v ∈ found, v.FirstIn c.toList := by
  have htext := h.short_text hlen
  have hlist : c.toList = L.map Prod.snd := by rw [TokenChain.toList, h.entries_eq]
  obtain ⟨found, hfound⟩ := c.check_answers (by rwa [h.entries_eq])
  rw [hlist]
  refine ⟨found, hfound, ?_, ?_⟩
  · rw [← h.check_none_iff htext, hfound]
    simp
  · intro v hv
    rw [Option.mem_def.mp hv] at hfound
    exact h.firstIn_of_check hfound

/-- Several rules are broken at once. The second token has the wrong mark, which shows at the third
one: this one is also in the wrong column and comes right behind whitespace. The fourth token is on
the wrong row. -/
def tangledTokens : List Token :=
  [{ text := "\x7ba\nb\x7d", kind := .comment, beginsLine := true },
    { text := "\t", kind := .whitespace, endsLine := true, row := 1, col := 2 },
    { text := " ", kind := .whitespace, beginsLine := true, row := 1, col := 7 },
    { text := "c", kind := .identifier, row := 9 }]

theorem tangled_chain_is_reported_at_its_second_token :
    (TokenChain.ofList tangledTokens).check = .ok (some (.breakMark 1 true)) ∧
    (Violation.breakMark 1 true).FirstIn (TokenChain.ofList tangledTokens).toList := by
  obtain ⟨L, hL⟩ := TokenChain.linked_ofList (by decide : tangledTokens.length ≤ slotLimit)
  have hcheck : (TokenChain.ofList tangledTokens).check = .ok (some (.breakMark 1 true)) := by
    decide +kernel
  obtain ⟨found, hfound, -, hall⟩ :=
    reported_violations_are_real_and_earliest _ L hL (by decide +kernel)
  rw [hcheck] at hfound
  cases hfound
  exact ⟨hcheck, hall _ rfl⟩

end LineLayout
