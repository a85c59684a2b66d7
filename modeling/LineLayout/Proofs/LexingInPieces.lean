-- A program text can be lexed in pieces. Where the lexemes of a piece end with whitespace that
-- has a line break at its end, no lexeme of the piece could have grown or changed its kind with
-- more text behind it: an open brace would have taken the line break too, a quote stops in front
-- of it, and all others stop earlier.
import LineLayout.Proofs.FreshLexing

namespace LineLayout

open Lexeme (Lexed)

/-- The lexemes of a text are those of a piece that ends a line, and then those of the rest. -/
theorem Lexeme.ofText_append {a b : List Char}
    (h : ∀ p ∈ (ofText a).getLast?, p.kind = .whitespace ∧ p.text.getLast? = some '\n') :
    ofText (a ++ b) = ofText a ++ ofText b := by
  obtain ⟨ha, hlexa⟩ := lexed_ofText a
  obtain ⟨hb, hlexb⟩ := lexed_ofText b
  rw [← List.append_nil (ofText a)] at hlexa
  have hboth : Lexed (ofText a ++ ofText b) := hlexa.replace_behind hlexb h
  unfold Lexed at hboth
  rwa [joined_append, ha, hb] at hboth

namespace TokenChain

theorem slots_ofSource (source : String) (features : Features) :
    (ofSource source features).slots.size = (Lexeme.ofText source.toList).length := by
  rw [ofSource, slots_ofParts, List.length_map]

/-- The tokens of a program text have the kinds and texts of its lexemes. -/
theorem parts_ofSource {source : String} {features : Features}
    (h : (ofSource source features).slots.size ≤ slotLimit) :
    (ofSource source features).toList.map Token.part =
      (Lexeme.ofText source.toList).map Lexeme.pair := by
  obtain ⟨L, hL, htokens⟩ := exists_holds_ofSource h
  rw [toList, hL.entries_eq, htokens, place_parts]

end TokenChain

/-- Lexing can be cut behind a line break: when the last token of a text is whitespace with a line
break at its end, more text behind it only adds the tokens of that text. -/
theorem lexing_is_cut_at_line_breaks (a b : String) (features : Features)
    (hroom : (TokenChain.ofSource a features).slots.size ≤ slotLimit)
    (hroom' : (TokenChain.ofSource (a ++ b) features).slots.size ≤ slotLimit)
    (hlast : ∀ t ∈ (TokenChain.ofSource a features).toList.getLast?,
      t.isWhitespace = true ∧ t.endsWithBreak = true) :
    (TokenChain.ofSource (a ++ b) features).toList.map Token.part =
      (TokenChain.ofSource a features).toList.map Token.part ++
        (TokenChain.ofSource b features).toList.map Token.part := by
  have hparts := TokenChain.parts_ofSource hroom
  have hbreak : ∀ p ∈ (Lexeme.ofText a.toList).getLast?,
      p.kind = .whitespace ∧ p.text.getLast? = some '\n' := by
    intro p hp
    have hpair := congrArg List.getLast? hparts
    rw [List.getLast?_map, List.getLast?_map, Option.mem_def.mp hp, Option.map_some] at hpair
    obtain ⟨t, ht, htp⟩ := Option.map_eq_some_iff.mp hpair
    obtain ⟨hkind, htext⟩ := Prod.mk.inj htp
    obtain ⟨hw, hend⟩ := hlast t ht
    simp only [Token.isWhitespace, beq_iff_eq] at hw
    simp only [Token.endsWithBreak, htext, String.toList_ofList, beq_iff_eq] at hend
    exact ⟨hkind ▸ hw, hend⟩
  have hboth : Lexeme.ofText (a ++ b).toList =
      Lexeme.ofText a.toList ++ Lexeme.ofText b.toList := by
    rw [String.toList_append]
    exact Lexeme.ofText_append hbreak
  have hrest : (TokenChain.ofSource b features).slots.size ≤ slotLimit := by
    rw [TokenChain.slots_ofSource, hboth, List.length_append] at hroom'
    rw [TokenChain.slots_ofSource]
    omega
  rw [hparts, TokenChain.parts_ofSource hroom', TokenChain.parts_ofSource hrest, hboth,
    List.map_append]

/-- A piece with a comment over two lines and a quote that is not closed on its line. -/
def frontPiece : String := "\x7ba\n\x7d \x27b \x7b\x7d\t\n c \t\r\n"

/-- A piece with a blank line in front, a brace that closes nothing and one that stays open. -/
def backPiece : String := "\t\n\x7d\x27d\x27 \x7be\n"

theorem pieces_are_lexed_apart :
    (TokenChain.ofSource frontPiece Features.none).slots.size ≤ slotLimit ∧
    (TokenChain.ofSource (frontPiece ++ backPiece) Features.none).slots.size ≤ slotLimit ∧
    (∃ t, (TokenChain.ofSource frontPiece Features.none).toList.getLast? = some t ∧
      t.isWhitespace = true ∧ t.endsWithBreak = true) ∧
    (TokenChain.ofSource (frontPiece ++ backPiece) Features.none).toList.map Token.part =
      (TokenChain.ofSource frontPiece Features.none).toList.map Token.part ++
        (TokenChain.ofSource backPiece Features.none).toList.map Token.part := by
  have hroom : (TokenChain.ofSource frontPiece Features.none).slots.size ≤ slotLimit := by
    decide +kernel
  have hroom' : (TokenChain.ofSource (frontPiece ++ backPiece) Features.none).slots.size ≤
      slotLimit := by
    decide +kernel
  obtain ⟨t, ht, hw, hend⟩ : ∃ t, (TokenChain.ofSource frontPiece Features.none).toList.getLast? =
      some t ∧ t.isWhitespace = true ∧ t.endsWithBreak = true :=
    ⟨⟨" \t\r\n", .whitespace, false, true, Features.none, 2, 2⟩, by decide +kernel⟩
  refine ⟨hroom, hroom', ⟨t, ht, hw, hend⟩, ?_⟩
  apply lexing_is_cut_at_line_breaks _ _ _ hroom hroom'
  rw [ht]
  rintro u ⟨⟩
  exact ⟨hw, hend⟩

end LineLayout
