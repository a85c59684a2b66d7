-- No edit changes how the text is cut into lexemes. An indentation changes only blanks between
-- a line break and something visible, and a blank line comes right behind a line break, so the
-- lexemes around it stay as they are.
import LineLayout.Proofs.Lexemes
import LineLayout.Proofs.Operations

namespace LineLayout

open Lexeme (Lexed lexed_cons joined)

/-! ## The lexemes of a list -/

/-- The kind and the text of a token. -/
def part (e : Entry) : Lexeme := ⟨e.2.kind, e.2.text.toList⟩

def partsOf (L : List Entry) : List Lexeme := L.map part

@[simp] theorem partsOf_cons (e : Entry) (L : List Entry) :
    partsOf (e :: L) = part e :: partsOf L := rfl

@[simp] theorem partsOf_append (A B : List Entry) : partsOf (A ++ B) = partsOf A ++ partsOf B := by
  simp [partsOf]

theorem joined_partsOf (L : List Entry) : joined (partsOf L) = textOf L := by
  simp [joined, partsOf, textOf, part, List.flatMap_map]

/-- Tokens with the same faces are the same lexemes. -/
theorem partsOf_of_face {L L' : List Entry} (h : L'.map face = L.map face) :
    partsOf L' = partsOf L := by
  have hparts := congrArg (List.map fun x => Lexeme.mk x.2.1 x.2.2.1.toList) h
  rw [List.map_map, List.map_map] at hparts
  exact hparts

theorem whitespace_iff_part {e : Entry} :
    e.2.isWhitespace = true ↔ (part e).kind = .whitespace := by
  simp [Token.isWhitespace, part]

theorem endsWithBreak_iff_part {e : Entry} :
    e.2.endsWithBreak = true ↔ (part e).text.getLast? = some '\n' := by
  simp [Token.endsWithBreak, part]

theorem Lexeme.Lexed.text_ne_nil {p : Lexeme} {parts : List Lexeme} (h : Lexed (p :: parts)) :
    joined (p :: parts) ≠ [] := by
  obtain ⟨c, text, ht, -⟩ := (lexed_cons.mp h).1.first
  rw [Lexeme.joined_cons, ht]
  simp

/-- A token of a lexed list is cut off where its text stops. -/
theorem cuts_of_lexed {A B : List Entry} {e : Entry} (h : Lexed (partsOf (A ++ e :: B))) :
    Lexeme.Cuts (part e) (textOf B) := by
  rw [partsOf_append, partsOf_cons] at h
  rw [← joined_partsOf]
  exact (lexed_cons.mp h.suffix).1

theorem textOf_ne_nil_of_lexed {A B : List Entry} (h : Lexed (partsOf (A ++ B))) (hB : B ≠ []) :
    textOf B ≠ [] := by
  obtain ⟨e, B, rfl⟩ := List.exists_cons_of_ne_nil hB
  rw [partsOf_append, partsOf_cons] at h
  rw [← joined_partsOf, partsOf_cons]
  exact h.suffix.text_ne_nil

/-! ## An indentation -/

/-- Blanks in front of something visible are one lexeme. -/
theorem lexed_blanks {level : Nat} {e : Entry} {parts : List Lexeme} (hlevel : level ≠ 0)
    (he : e.2.isWhitespace = false) (h : Lexed (part e :: parts)) :
    Lexed (⟨.whitespace, (blanks level).toList⟩ :: part e :: parts) := by
  refine lexed_cons.mpr ⟨.blank ?_, h⟩
  have hkind : (part e).kind ≠ .whitespace := by
    intro hk
    rw [whitespace_iff_part.mpr hk] at he
    cases he
  have hnone := (lexed_cons.mp h).1.of_visible hkind
  refine Lexeme.whitespace?_inside ?_ (by simpa [blanks] using hlevel) hnone
  intro x hx
  have hspace : x = ' ' := by
    simp only [blanks, String.toList_ofList] at hx
    exact List.eq_of_mem_replicate hx
  subst hspace
  decide

/-- The text in front of a line, as lexemes. -/
theorem partsOf_lead {lead : Option Entry} (h : ∀ e ∈ lead, e.2.isWhitespace = true) :
    partsOf lead.toList =
      ((lead.map fun e => e.2.text).map fun text => ⟨.whitespace, text.toList⟩).toList := by
  cases lead with
  | none => rfl
  | some e =>
    have hkind := whitespace_iff_part.mp (h e rfl)
    have hpart : part e = ⟨.whitespace, e.2.text.toList⟩ := by
      rw [← hkind]
      rfl
    simp [partsOf, hpart]

theorem Line.Proper.lead {lead : Option Entry} {first : Entry} {rest : List Entry}
    (h : (Line.content lead first rest).Proper) :
    (∀ e ∈ lead, e.2.isWhitespace = true) ∧ first.2.isWhitespace = false := by
  cases lead with
  | none => exact ⟨by simp, h.1⟩
  | some lead =>
    refine ⟨?_, h.2.2.2.1⟩
    intro e he
    cases he
    exact h.1

/-- A line with another indentation is cut into lexemes in the same way. -/
theorem Refit.lexed {level : Nat} {l l' : Line Entry} (h : Refit level l l') (hl : l.Proper)
    (hl' : l'.Proper) {parts : List Lexeme} (hlex : Lexed (partsOf l.items ++ parts)) :
    Lexed (partsOf l'.items ++ parts) := by
  cases h with
  | blank e => exact hlex
  | content lead first rest lead' first' rest' hlead _ hfirst hrest =>
    have hcontent : partsOf (first' :: rest') = partsOf (first :: rest) :=
      partsOf_of_face (by simp [hfirst, hrest])
    have hparts : partsOf lead'.toList =
        ((fit level (lead.map fun e => e.2.text)).map
          fun text => ⟨.whitespace, text.toList⟩).toList := by
      rw [partsOf_lead hl'.lead.1, hlead]
    simp only [Line.items, partsOf_append, List.append_assoc] at hlex ⊢
    rw [hcontent, hparts]
    rw [partsOf_lead hl.lead.1] at hlex
    unfold fit
    split
    · exact hlex
    have hbare := hlex.suffix
    split
    · exact hbare
    · next hzero => exact lexed_blanks hzero hl.lead.2 hbare

theorem Settled.lexed {column : Option Nat} {l l' : Line Entry} (h : Settled column l l')
    (hl : l.Proper) (hl' : l'.Proper) {parts : List Lexeme}
    (hlex : Lexed (partsOf l.items ++ parts)) : Lexed (partsOf l'.items ++ parts) := by
  cases column with
  | none =>
    cases h
    exact hlex
  | some column => exact Refit.lexed h hl hl' hlex

/-- Before the start of a line comes a line break. -/
theorem PlacedAfter.break_before {before : Option Token} {A R : List Entry} {r : Entry}
    (h : PlacedAfter before (A ++ r :: R)) (hr : r.2.beginsLine = true) :
    ∀ p ∈ (partsOf A).getLast?, p.text.getLast? = some '\n' := by
  intro p hp
  rcases List.eq_nil_or_concat A with rfl | ⟨front, e, rfl⟩
  · cases hp
  · rw [List.concat_eq_append] at h hp
    have hf : Follows e.2 r.2 := by
      have hj := (placed_append.mp h).2.1
      rwa [lastToken_concat] at hj
    have hlast : partsOf (front ++ [e]) = partsOf front ++ [part e] := partsOf_append _ _
    rw [hlast, List.getLast?_concat] at hp
    cases hp
    rw [← endsWithBreak_iff_part, ← hf.breaks, ← hf.marks, hr]

/-- Lines with other indentations are cut into lexemes in the same way. -/
theorem Refitted.lexed {ls ls' : List (Line Entry)} (h : Refitted ls ls') {before : Option Token}
    (hp : PlacedAfter before (flat ls)) (hls : ∀ l ∈ ls, l.Proper) (hls' : ∀ l ∈ ls', l.Proper)
    (hlex : Lexed (partsOf (flat ls))) : Lexed (partsOf (flat ls')) := by
  induction h generalizing before with
  | nil => exact hlex
  | @cons l l' ls ls' hstep htail ih =>
    obtain ⟨column, hsettled⟩ := hstep
    rw [List.forall_mem_cons] at hls hls'
    rw [flat_cons, partsOf_append] at hlex ⊢
    have hlater := ih (placed_append.mp hp).2 hls.2 hls'.2 hlex.suffix
    apply hsettled.lexed hls.1 hls'.1
    cases htail with
    | nil => exact hlex
    | @cons m m' ms ms' _ _ =>
      have hm : flat (m :: ms) = m.start :: (m.behind ++ flat ms) := by
        rw [flat_cons, m.items_eq, List.cons_append]
      apply hlex.replace hlater
      · have hsuffix := hlex.suffix
        rw [hm, partsOf_cons] at hsuffix ⊢
        exact hsuffix.text_ne_nil
      · rw [flat_cons, hm] at hp
        exact hp.break_before (hls.2 m (by simp)).begins

/-! ## A blank line -/

theorem partsOf_editAll {f : Token → Token} (hf : ∀ e : Entry, part (e.1, f e.2) = part e)
    (L : List Entry) : partsOf (editAll f L) = partsOf L := by
  simp [partsOf, editAll, Function.comp_def, hf]

theorem Separated.lexed {P R L : List Entry} {last : TokenId} {tl : Token}
    {value : Option TokenId} (h : Separated P last tl R value L)
    (hs : Sound (P ++ (last, tl) :: R)) (hend : tl.endsLine = true ∨ R = [])
    (hlex : Lexed (partsOf (P ++ (last, tl) :: R))) : Lexed (partsOf L) := by
  cases h with
  | stays _ => exact hlex
  | inserted new next n rest hR _ _ =>
    subst hR
    have htl : tl.endsLine = true := hend.resolve_right (by simp)
    have hcut : ∀ S, P ++ (last, tl) :: S = (P ++ [(last, tl)]) ++ S := by simp
    have hp := hs.placed
    rw [hcut] at hlex hp ⊢
    have hbreak := hp.break_before (hs.begins_behind htl).1
    rw [partsOf_append] at hlex ⊢
    have hrest := hlex.suffix
    have hblank : Lexed (partsOf ((new, n.blankLineBefore) ::
        editAll (·.shiftRow 1) ((next, n) :: rest))) := by
      have hnew : part (new, n.blankLineBefore) = ⟨.whitespace, ['\n']⟩ :=
        congrArg (Lexeme.mk .whitespace) (by decide : "\n".toList = ['\n'])
      rw [partsOf_cons, partsOf_editAll (fun _ => rfl), hnew]
      refine lexed_cons.mpr ⟨.blank ?_, hrest⟩
      exact Lexeme.whitespace?_broken (List.forall_mem_nil _) (Or.inl rfl) _
    exact hlex.replace hblank hrest.text_ne_nil hbreak

/-! ## Chains of fresh tokens -/

/-- The tokens are the lexemes of their own text, all with the same switches, and the last one
ends its line. -/
structure Fresh (features : Features) (L : List Entry) : Prop where
  lexed : Lexed (partsOf L)
  features : ∀ e ∈ L, e.2.features = features
  closed : ∀ e ∈ L.getLast?, e.2.endsLine = true

theorem features_of_face {L L' : List Entry} {features : Features} (h : L'.map face = L.map face)
    (hL : ∀ e ∈ L, e.2.features = features) : ∀ e ∈ L', e.2.features = features := by
  intro e he
  have hmem : face e ∈ L.map face := h ▸ List.mem_map_of_mem he
  obtain ⟨x, hx, hface⟩ := List.mem_map.mp hmem
  have hfeatures : x.2.features = e.2.features := congrArg (fun y => y.2.2.2.1) hface
  rw [← hfeatures]
  exact hL x hx

theorem Refit.features {level : Nat} {l l' : Line Entry} (h : Refit level l l')
    {features : Features} (hl : ∀ e ∈ l.items, e.2.features = features) :
    ∀ e ∈ l'.items, e.2.features = features := by
  cases h with
  | blank e => exact hl
  | content lead first rest lead' first' rest' _ horigin hfirst hrest =>
    simp only [Line.items, List.forall_mem_append] at hl ⊢
    refine ⟨?_, features_of_face (by simp [hfirst, hrest]) hl.2⟩
    intro e he
    obtain ⟨origin, ho, hsame⟩ := horigin e (by simpa using he)
    rw [hsame]
    rcases List.mem_cons.mp ho with rfl | ho
    · exact hl.2 _ (by simp)
    · exact hl.1 origin ho

/-- The last token of a line keeps its mark. -/
theorem Refit.last_mark {level : Nat} {l l' : Line Entry} (h : Refit level l l') :
    l'.items.getLast?.map (fun e => e.2.endsLine) =
      l.items.getLast?.map (fun e => e.2.endsLine) := by
  cases h with
  | blank e => rfl
  | content lead first rest lead' first' rest' _ _ hfirst hrest =>
    have hfaces : (first' :: rest').map face = (first :: rest).map face := by
      simp [hfirst, hrest]
    have hlast := congrArg (fun faces => faces.getLast?.map fun x => x.2.2.2.2) hfaces
    simp only [List.getLast?_map, Option.map_map] at hlast
    simp only [Line.items, List.getLast?_append_cons]
    exact hlast

theorem Refitted.fresh {ls ls' : List (Line Entry)} (h : Refitted ls ls') {features : Features}
    (hL : ∀ e ∈ flat ls, e.2.features = features) :
    (∀ e ∈ flat ls', e.2.features = features) ∧
      (flat ls').getLast?.map (fun e => e.2.endsLine) =
        (flat ls).getLast?.map (fun e => e.2.endsLine) := by
  induction h with
  | nil => exact ⟨hL, rfl⟩
  | @cons l l' ls ls' hstep _ ih =>
    obtain ⟨column, hsettled⟩ := hstep
    rw [flat_cons, List.forall_mem_append] at hL
    obtain ⟨hfeatures, hlast⟩ := ih hL.2
    have hline : (∀ e ∈ l'.items, e.2.features = features) ∧
        l'.items.getLast?.map (fun e => e.2.endsLine) =
          l.items.getLast?.map (fun e => e.2.endsLine) := by
      cases column with
      | none =>
        cases hsettled
        exact ⟨hL.1, rfl⟩
      | some column => exact ⟨Refit.features hsettled hL.1, Refit.last_mark hsettled⟩
    constructor
    · rw [flat_cons, List.forall_mem_append]
      exact ⟨hline.1, hfeatures⟩
    · simp only [flat_cons, List.getLast?_append, Option.map_or, hlast, hline.2]

theorem Separated.fresh {P R L : List Entry} {last : TokenId} {tl : Token}
    {value : Option TokenId} (h : Separated P last tl R value L) {features : Features}
    (hf : Fresh features (P ++ (last, tl) :: R)) :
    (∀ e ∈ L, e.2.features = features) ∧ ∀ e ∈ L.getLast?, e.2.endsLine = true := by
  cases h with
  | stays _ => exact ⟨hf.features, hf.closed⟩
  | inserted new next n rest hR _ _ =>
    subst hR
    have hfeatures := hf.features
    have hclosed := hf.closed
    simp only [List.forall_mem_append, List.forall_mem_cons] at hfeatures
    obtain ⟨hP, htl, hn, hrest⟩ := hfeatures
    constructor
    · rw [List.forall_mem_append, List.forall_mem_cons, List.forall_mem_cons]
      refine ⟨hP, htl, hn, ?_⟩
      refine editAll_forall (P := fun t => t.features = features) (f := (·.shiftRow 1))
        (fun _ => id) ?_
      rw [List.forall_mem_cons]
      exact ⟨hn, hrest⟩
    · intro e he
      have hmap : (editAll (·.shiftRow 1) ((next, n) :: rest)).getLast? = some e := by
        simpa [List.getLast?_append, List.getLast?_cons] using he
      unfold editAll at hmap
      rw [List.getLast?_map] at hmap
      obtain ⟨x, hx, rfl⟩ := Option.map_eq_some_iff.mp hmap
      apply hclosed x
      simpa [List.getLast?_append, List.getLast?_cons] using hx

/-- An operation keeps the tokens fresh. -/
theorem Changed.fresh {L L' : List Entry} (h : Changed L L') (hs : Sound L) {features : Features}
    (hf : Fresh features L) : Fresh features L' := by
  cases h with
  | refitted ls ls' hls hls' hrefitted =>
    obtain ⟨hfeatures, hlast⟩ := hrefitted.fresh hf.features
    refine ⟨hrefitted.lexed hs.placed hls hls' hf.lexed, hfeatures, ?_⟩
    intro e he
    rw [Option.mem_def.mp he, Option.map_some] at hlast
    obtain ⟨x, hx, hmark⟩ := Option.map_eq_some_iff.mp hlast.symm
    rw [← hmark]
    exact hf.closed x hx
  | separated P last tl R value _ hend hsep =>
    obtain ⟨hfeatures, hclosed⟩ := hsep.fresh hf
    exact ⟨hsep.lexed hs hend hf.lexed, hfeatures, hclosed⟩

end LineLayout
