-- Setting an indentation a second time. The token that begins the line after the first call is
-- whitespace of the right width, or content when the width is zero, so the second call has nothing
-- to do. Marks and places may be wrong. Only whitespace right behind whitespace is ruled out, where
-- the first call would take one of the two out and the second call the other.
import LineLayout.Proofs.Indentation
import Mathlib.Data.List.Chain

namespace LineLayout

/-- Inside a line no whitespace follows other whitespace. -/
def Spaced (tokens : List Token) : Prop :=
  tokens.IsChain fun t n => t.isWhitespace = true → t.endsLine = false → n.isWhitespace = false

instance (tokens : List Token) : Decidable (Spaced tokens) :=
  inferInstanceAs (Decidable (tokens.IsChain _))

theorem Spaced.content_behind {A rest : List Entry} {start next : TokenId} {t n : Token}
    (h : Spaced ((A ++ (start, t) :: (next, n) :: rest).map Prod.snd))
    (hw : t.isWhitespace = true) (he : t.endsLine = false) : n.isWhitespace = false := by
  unfold Spaced at h
  rw [List.map_append, List.map_cons, List.map_cons] at h
  exact (List.isChain_append_cons_cons.mp h).2.1 hw he

/-- The token that begins the line has the width that was asked for. -/
theorem Reindented.rests {A B : List Entry} {start : TokenId} {t : Token} {level : Nat}
    {value : TokenId} {L : List Entry} (h : Reindented moveRow A start t B level value L)
    (hs : Spaced ((A ++ (start, t) :: B).map Prod.snd)) :
    ∃ u S, L = A ++ (value, u) :: S ∧
      (u.isWhitespace = true → S = [] ∨ u.endsLine = true ∨ u.width = level) ∧
      (u.isWhitespace = false → level = 0) := by
  cases h with
  | stays hw hn => exact ⟨t, B, rfl, hw, hn⟩
  | resized next n rest hB hw _ _ _ =>
    refine ⟨_, _, rfl, fun _ => Or.inr (Or.inr (length_blanks level)), ?_⟩
    intro hc
    exact absurd (hw.symm.trans hc) (by decide)
  | removed next n rest hB hw he _ hzero =>
    subst hB
    have hcontent := hs.content_behind hw he
    refine ⟨Token.shiftColumn { n with beginsLine := true } (-t.width),
      moveRow n.row (-t.width) rest, by simp [moveRow], ?_, fun _ => hzero⟩
    intro hws
    exact absurd (hcontent.symm.trans hws) (by decide)
  | inserted new hw _ _ =>
    refine ⟨_, _, rfl, fun _ => Or.inr (Or.inr (length_blanks level)), ?_⟩
    intro hc
    cases hc

/-- Setting the indentation of the token that the first call gave back changes nothing. -/
theorem indenting_the_answer_changes_nothing (c : TokenChain) (L : List Entry) (start : TokenId)
    (level : Nat) (e : Edited TokenId) (h : c.Holds L) (hs : Spaced (L.map Prod.snd))
    (hroom : c.slots.size < slotLimit) (hlive : c.contains start = true)
    (hok : c.setIndent start level = .ok e) :
    e.chain.setIndent e.value level = .ok (e.chain.unchanged e.value) := by
  obtain ⟨A, t, B, rfl⟩ := h.split hlive
  rcases h.setIndent_outcome hroom level with ⟨e', L', hok', hL', hre, -⟩ | ⟨-, hfault | hfault⟩
  · cases Except.ok.inj (hok.symm.trans hok')
    obtain ⟨u, S, rfl, hw, hn⟩ := hre.rests hs
    exact hL'.setIndent_rests hw hn
  · cases hok.symm.trans hfault
  · cases hok.symm.trans hfault

/-- Whitespace with a line break in front of a token that stands elsewhere. -/
def strayLead : List Token :=
  [{ text := "x", kind := .identifier, endsLine := true, row := 3 },
    { text := "\t\n", kind := .whitespace, row := 8, col := 2 },
    { text := "y", kind := .number, row := 8, col := 1 },
    { text := "", kind := .whitespace, row := 8 }]

/-- The whitespace goes, and the second call is made on the token behind it. -/
theorem stray_lead_goes_once :
    ∃ e, (TokenChain.ofList strayLead).setIndent ⟨1, 0⟩ 0 = .ok e ∧ e.value = ⟨2, 0⟩ ∧
      e.chain.setIndent e.value 0 = .ok (e.chain.unchanged e.value) := by
  obtain ⟨L, hL, htokens⟩ := TokenChain.holds_ofList (by decide : strayLead.length ≤ slotLimit)
  have hspaced : Spaced (L.map Prod.snd) := by
    rw [htokens]
    decide
  have hvalue : ((TokenChain.ofList strayLead).setIndent ⟨1, 0⟩ 0).map Edited.value =
      .ok ⟨2, 0⟩ := by decide
  cases hok : (TokenChain.ofList strayLead).setIndent ⟨1, 0⟩ 0 with
  | error fault =>
    rw [hok] at hvalue
    cases hvalue
  | ok e =>
    rw [hok] at hvalue
    exact ⟨e, rfl, Except.ok.inj hvalue, indenting_the_answer_changes_nothing _ L ⟨1, 0⟩ 0 e hL
      hspaced (by decide) (by decide) hok⟩

end LineLayout
