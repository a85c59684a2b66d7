-- Lexing loses nothing. The chain of a program text shows this text again and passes the check. No
-- token of it is empty, whitespace holds one line break at most and has it at its end, and no other
-- token ends with a line break, apart from the last one.
import LineLayout.Proofs.FreshLexing
import LineLayout.Proofs.RenderedPlaces

namespace LineLayout

open Lexeme (Lexed Cuts)

/-- Some spaces and tabs, or any number of them with a line break behind. -/
def BlankText (text : List Char) : Prop :=
  ∃ run : List Char, (∀ x ∈ run, x = ' ' ∨ x = '\t') ∧
    (run ≠ [] ∧ text = run ∨ text = run ++ ['\n'] ∨ text = run ++ ['\r', '\n'])

/-- A chain with all of a program text in it, cut into tokens as it should be. -/
structure TokenChain.Lossless (c : TokenChain) (source : String) : Prop where
  render : c.render = source
  check : c.check = .ok none
  nonempty : ∀ t ∈ c.toList, t.text ≠ ""
  whitespace : ∀ t ∈ c.toList, t.isWhitespace = true → BlankText t.text.toList
  breaks : ∀ A t B, c.toList = A ++ t :: B → B ≠ [] → t.endsWithBreak = true →
    t.isWhitespace = true

theorem Lexeme.Cuts.blankText {p : Lexeme} {rest : List Char} (h : Cuts p rest)
    (hp : p.kind = .whitespace) : BlankText p.text := by
  obtain ⟨-, run, hrun, hcases⟩ := Lexeme.whitespace?_cases (h.of_whitespace hp)
  refine ⟨run, ?_, ?_⟩
  · intro x hx
    simpa [Lexeme.isBlank] using hrun x hx
  · rcases hcases with ⟨ending, rfl | rfl, htext⟩ | ⟨hne, htext, -⟩
    · exact Or.inr (Or.inl htext)
    · exact Or.inr (Or.inr htext)
    · exact Or.inl ⟨hne, htext⟩

/-! ## The chain of a program text -/

/-- The chain of a program text is lossless, as long as its slots have numbers and its places fit
into words. -/
theorem lexing_is_lossless (source : String) (features : Features)
    (hroom : (TokenChain.ofSource source features).slots.size ≤ slotLimit)
    (hlen : source.length < wordLimit) :
    (TokenChain.ofSource source features).Lossless source := by
  obtain ⟨L, hL, htokens⟩ := exists_holds_ofSource hroom
  obtain ⟨hsound, hfresh⟩ := sound_of_source htokens
  have hrender := render_ofSource hroom
  have htoList : (TokenChain.ofSource source features).toList = L.map Prod.snd := by
    rw [TokenChain.toList, hL.entries_eq]
  have htext : (textOf L).length < wordLimit := by
    rw [← hL.render_toList, hrender, String.length_toList]
    exact hlen
  have hcuts : ∀ t ∈ L.map Prod.snd, ∃ rest, Cuts ⟨t.kind, t.text.toList⟩ rest := by
    intro t ht
    obtain ⟨e, he, rfl⟩ := List.mem_map.mp ht
    obtain ⟨A, B, rfl⟩ := List.append_of_mem he
    exact ⟨_, cuts_of_lexed hfresh.lexed⟩
  refine ⟨hrender, hL.check_of_short hsound.placed htext, ?_, ?_, ?_⟩
  · intro t ht hempty
    rw [htoList] at ht
    obtain ⟨rest, hcut⟩ := hcuts t ht
    exact hcut.text_ne_nil (by simp [hempty])
  · intro t ht hw
    rw [htoList] at ht
    obtain ⟨rest, hcut⟩ := hcuts t ht
    exact hcut.blankText (by simpa [Token.isWhitespace] using hw)
  · intro A t B hsplit hB hbreak
    rw [htoList] at hsplit
    obtain ⟨LA, LB, rfl, -, hrest⟩ := List.map_eq_append_iff.mp hsplit
    obtain ⟨e, LB, rfl, rfl, rfl⟩ := List.map_eq_cons_iff.mp hrest
    have hbehind : Lexed (partsOf ((LA ++ [e]) ++ LB)) := by
      rw [List.append_assoc]
      exact hfresh.lexed
    have hne := textOf_ne_nil_of_lexed hbehind (by simpa using hB)
    have hcut := (cuts_of_lexed hfresh.lexed).whitespace_of_break hne
      (endsWithBreak_iff_part.mp hbreak)
    exact whitespace_iff_part.mpr (Lexeme.whitespace?_cases hcut).1

/-- Lone and paired carriage returns, a directive, an open quote, a sign of another script, and a
brace that is never closed in front of the last line break. -/
def crampedSource : String :=
  "a \t\r\n\x7b$b\n\x7d\t \r c:=\x27d \n\n // é\r\n..≠\x7b\n"

theorem cramped_source_is_lossless :
    (TokenChain.ofSource crampedSource Features.none).slots.size ≤ slotLimit ∧
    crampedSource.length < wordLimit ∧
    (TokenChain.ofSource crampedSource Features.none).Lossless crampedSource := by
  have hroom : (TokenChain.ofSource crampedSource Features.none).slots.size ≤ slotLimit := by
    decide +kernel
  have hlen : crampedSource.length < wordLimit := by decide +kernel
  exact ⟨hroom, hlen, lexing_is_lossless crampedSource Features.none hroom hlen⟩

end LineLayout
