-- Edits and fresh lexing agree. Tokens that are in their places and are the lexemes of their
-- own text are the tokens that lexing this text gives. A chain of a program text starts with
-- such tokens, and every layout operation keeps them.
import LineLayout.Proofs.Relexing
import LineLayout.Proofs.PlacedParts

namespace LineLayout

open Lexeme (Lexed lexed_cons joined)

/-! ## Placed lexemes are sound -/

/-- The token behind `before` begins a line. -/
def opensLine : Option Token → Bool
  | none => true
  | some before => before.endsLine

/-- The kind and the text of a lexeme, as the placement takes them. -/
def Lexeme.pair (p : Lexeme) : Kind × String := (p.kind, String.ofList p.text)

theorem Lexeme.Lexed.break_between {p q : Lexeme} {parts : List Lexeme}
    (h : Lexed (p :: q :: parts)) (hp : p.kind = .whitespace) (hq : q.kind = .whitespace) :
    p.text.getLast? = some '\n' := by
  rw [lexed_cons, lexed_cons] at h
  rcases h.1.whitespace_break hp with hbreak | ⟨-, hnone⟩
  · exact hbreak
  · have hsome := h.2.1.of_whitespace hq
    rw [Lexeme.joined_cons, hsome] at hnone
    cases hnone

theorem Lexeme.Lexed.apart {parts : List Lexeme} (h : Lexed parts) :
    (parts.map Lexeme.pair).IsChain Apart := by
  rw [List.isChain_map, List.isChain_iff_forall_rel_of_append_cons_cons]
  rintro p q A B rfl hp hq
  have hbreak := h.suffix.break_between hp hq
  simpa [Lexeme.pair] using hbreak

/-- A whitespace lexeme that does not end with a line break has none. -/
theorem unbroken_of_lexed {L : List Entry} (h : Lexed (partsOf L)) : ∀ e ∈ L, e.2.unbroken := by
  intro e he hw hend
  obtain ⟨A, B, rfl⟩ := List.append_of_mem he
  rcases (cuts_of_lexed h).whitespace_break (whitespace_iff_part.mp hw) with hbreak | ⟨hplain, -⟩
  · rw [endsWithBreak_iff_part.mpr hbreak] at hend
    cases hend
  · exact hplain

theorem partsOf_source {source : String} {features : Features} {L : List Entry}
    (hL : L.map Prod.snd =
      place ((Lexeme.ofText source.toList).map Lexeme.pair) features) :
    partsOf L = Lexeme.ofText source.toList := by
  have hparts := place_parts ((Lexeme.ofText source.toList).map Lexeme.pair) features
  rw [← hL, List.map_map] at hparts
  have hback := congrArg (List.map fun x : Kind × String => Lexeme.mk x.1 x.2.toList) hparts
  rw [List.map_map, List.map_map] at hback
  refine hback.trans ?_
  simp [Lexeme.pair, Function.comp_def]

theorem sound_of_source {source : String} {features : Features} {L : List Entry}
    (hL : L.map Prod.snd =
      place ((Lexeme.ofText source.toList).map Lexeme.pair) features) :
    Sound L ∧ Fresh features L := by
  obtain ⟨-, hlex⟩ := Lexeme.lexed_ofText source.toList
  have hparts := partsOf_source hL
  have hfresh : Lexed (partsOf L) := by
    rw [hparts]
    exact hlex
  have hplaced : PlacedAfter none L := by
    rw [placed_iff_rendered, hL, rendered_place_iff]
    exact hlex.apart
  refine ⟨⟨hplaced, unbroken_of_lexed hfresh⟩, hfresh, ?_, ?_⟩
  · intro e he
    apply place_features ((Lexeme.ofText source.toList).map Lexeme.pair) features
    rw [← hL]
    exact List.mem_map_of_mem he
  · intro e he
    have hlast : (L.map Prod.snd).getLast? = some e.2 := by
      rw [List.getLast?_map, he]
      rfl
    rw [hL] at hlast
    unfold place at hlast
    rcases List.eq_nil_or_concat (placeFrom features ⟨0, 0⟩ true
      ((Lexeme.ofText source.toList).map Lexeme.pair)) with hnil | ⟨front, t, hfront⟩
    · rw [hnil] at hlast
      cases hlast
    · rw [hfront, List.concat_eq_append, closeLastLine_concat, List.getLast?_concat] at hlast
      rw [← Option.some.inj hlast]

/-! ## Sound lexemes are placed -/

/-- Tokens in their places are the ones that their kinds and texts give. -/
theorem PlacedAfter.tokens {before : Option Token} {L : List Entry} {features : Features}
    (h : PlacedAfter before L) (hf : ∀ e ∈ L, e.2.features = features)
    (hc : ∀ e ∈ L.getLast?, e.2.endsLine = true) :
    L.map Prod.snd = closeLastLine (placeFrom features (stopOf before) (opensLine before)
      (L.map fun e => (e.2.kind, e.2.text))) := by
  induction L generalizing before with
  | nil => rfl
  | cons e rest ih =>
    rw [List.forall_mem_cons] at hf
    have hplace := h.1.place
    have hmark : e.2.beginsLine = opensLine before := by
      cases before with
      | none => exact h.1.1
      | some b => exact Follows.marks h.1
    have htoken : ∀ endsLine, e.2.endsLine = endsLine →
        e.2 = { text := e.2.text, kind := e.2.kind, beginsLine := opensLine before, endsLine,
                features, row := (stopOf before).row, col := (stopOf before).col } := by
      intro endsLine hend
      rw [← hend, ← hmark, ← hplace, ← hf.1]
      rfl
    cases rest with
    | nil =>
      simp only [List.map_cons, List.map_nil, placeFrom, closeLastLine]
      rw [← htoken true (hc e rfl)]
    | cons n rest =>
      have hn : Follows e.2 n.2 := h.2.1
      have hrest := ih h.2 hf.2 (by rwa [List.getLast?_cons_cons] at hc)
      have hstop : (stopOf before).after e.2.text.toList = e.2.following := by
        rw [← hplace]
        rfl
      have hends : (e.2.text.toList.getLast? == some '\n') = e.2.endsLine := hn.breaks.symm
      have hhead : ∀ parts, placeFrom features (stopOf before) (opensLine before)
          ((e.2.kind, e.2.text) :: parts) =
            e.2 :: placeFrom features e.2.following e.2.endsLine parts := by
        intro parts
        rw [placeFrom, hends, hstop, ← htoken _ rfl]
      rw [List.map_cons, hrest, List.map_cons (l := n :: rest), hhead]
      rfl

/-- Sound tokens that are the lexemes of their text are what lexing this text gives. -/
theorem TokenChain.Steady.ofSource_render {c : TokenChain} {L : List Entry} {features : Features}
    (h : c.Steady L) (hf : Fresh features L) :
    TokenChain.ofSource c.render features = TokenChain.ofList (L.map Prod.snd) := by
  have hparts : (Lexeme.ofText c.render.toList).map Lexeme.pair =
      L.map fun e => (e.2.kind, e.2.text) := by
    have hlex : Lexeme.ofText (joined (partsOf L)) = partsOf L := hf.lexed
    rw [h.holds.render_toList, ← joined_partsOf, hlex]
    simp [partsOf, part, Lexeme.pair, Function.comp_def]
  have htokens : place ((Lexeme.ofText c.render.toList).map Lexeme.pair) features =
      L.map Prod.snd := by
    rw [hparts]
    exact (h.sound.placed.tokens hf.features hf.closed).symm
  rw [← htokens]
  rfl

theorem TokenChain.Steady.relexed {c : TokenChain} {L : List Entry} {features : Features}
    (h : c.Steady L) (hf : Fresh features L) :
    c.toList = (TokenChain.ofSource c.render features).toList := by
  have hlength : (L.map Prod.snd).length ≤ slotLimit := by
    rw [List.length_map]
    exact Nat.le_trans h.holds.length_le h.holds.tidy.within
  obtain ⟨L', hL', htoList⟩ := TokenChain.holds_ofList hlength
  rw [h.ofSource_render hf]
  unfold TokenChain.toList
  rw [hL'.entries_eq, h.holds.entries_eq, htoList]

theorem exists_holds_ofSource {source : String} {features : Features}
    (h : (TokenChain.ofSource source features).slots.size ≤ slotLimit) :
    ∃ L, (TokenChain.ofSource source features).Holds L ∧
      L.map Prod.snd = place ((Lexeme.ofText source.toList).map Lexeme.pair) features := by
  apply exists_holds_ofParts
  rwa [← slots_ofParts _ features]

theorem render_ofSource {source : String} {features : Features}
    (h : (TokenChain.ofSource source features).slots.size ≤ slotLimit) :
    (TokenChain.ofSource source features).render = source := by
  obtain ⟨L, hL, htokens⟩ := exists_holds_ofSource h
  apply String.toList_inj.mp
  rw [hL.render_toList, ← joined_partsOf, partsOf_source htokens]
  exact (Lexeme.lexed_ofText source.toList).1

theorem exists_steady_ofSource {source : String} {features : Features}
    (h : (TokenChain.ofSource source features).Fits 0) :
    ∃ L, (TokenChain.ofSource source features).Steady L ∧ Fresh features L := by
  obtain ⟨L, hL, htokens⟩ := exists_holds_ofSource h.room
  obtain ⟨hsound, hfresh⟩ := sound_of_source htokens
  exact ⟨L, ⟨hL, hsound, sized_of_textOf (hL.short_text h.text)⟩, hfresh⟩

/-- A run of layout operations on the chain of a program text never faults, and every chain on
the way is the one that lexing its own text gives: the same kinds, texts, places, marks and
switches. -/
theorem edited_chains_equal_a_fresh_lexing (source : String) (features : Features)
    (ops : List LayoutOp)
    (ha : LayoutOp.Admissible ops (TokenChain.ofSource source features)) :
    ∃ chains, LayoutOp.runAll ops (TokenChain.ofSource source features) = .ok chains ∧
      chains.length = ops.length ∧
      ∀ c ∈ TokenChain.ofSource source features :: chains,
        c.toList = (TokenChain.ofSource c.render features).toList := by
  obtain ⟨L, hL, hfresh⟩ := exists_steady_ofSource ha.fits
  obtain ⟨chains, hrun, hlength, hall⟩ :=
    LayoutOp.runAll_keeps (fun _ _ hs _ hchanged hf => hchanged.fresh hs hf) hL hfresh ha
  refine ⟨chains, hrun, hlength, ?_⟩
  rw [List.forall_mem_cons]
  refine ⟨hL.relexed hfresh, ?_⟩
  intro d hd
  obtain ⟨L', hL', hfresh'⟩ := hall d hd
  exact hL'.relexed hfresh'

/-- A text with a tab, a lone carriage return, a comment over two lines and an open brace. -/
def roughSource : String := "a\r\n\t\x7bb\n\x7d  // c\n\n \rx := \x27d\n\x7be"

/-- Lines are moved, the comment goes to the column of the code, and a blank line comes in. -/
def roughOps : List LayoutOp :=
  [.setIndent ⟨2, 0⟩ 0, .setIndent ⟨8, 0⟩ 3, .blankLineAfter ⟨0, 0⟩, .alignAll,
    .setIndent ⟨17, 0⟩ 1]

theorem rough_source_is_lexed_the_same :
    LayoutOp.Admissible roughOps (TokenChain.ofSource roughSource Features.none) ∧
    ∃ chains, LayoutOp.runAll roughOps (TokenChain.ofSource roughSource Features.none) =
        .ok chains ∧ chains.length = roughOps.length ∧
      ∀ c ∈ TokenChain.ofSource roughSource Features.none :: chains,
        c.toList = (TokenChain.ofSource c.render Features.none).toList := by
  have ha : LayoutOp.Admissible roughOps (TokenChain.ofSource roughSource Features.none) := by
    decide +kernel
  exact ⟨ha, edited_chains_equal_a_fresh_lexing _ _ _ ha⟩

end LineLayout
