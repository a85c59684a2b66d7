-- Formatting a program text: every line is brought to its level, then the comments are aligned.
-- The second time nothing changes. The text of the first run is lexed into the same lines, the
-- levels bring every line to the width that it had in the first run, so every comment finds the
-- code below it in the same column and goes back to where it was.
import LineLayout.Proofs.FreshLexing
import LineLayout.Proofs.Shapes

namespace LineLayout

namespace TokenChain

/-- Brings the lines that start at these tokens to their levels. The first one is line `i`. -/
def indentEach (level : Nat → Nat) : Nat → List TokenId → TokenChain → Except Fault TokenChain
  | _, [], c => .ok c
  | i, start :: starts, c => do
    let edited ← c.setIndent start (level i)
    indentEach level (i + 1) starts edited.chain

/-- Brings every line to its level. -/
def indentLines (c : TokenChain) (level : Nat → Nat) : Except Fault TokenChain :=
  indentEach level 0 c.lineHeads c

end TokenChain

/-- The formatted text: lines at their levels, and comments at the columns of the code below. -/
def format (level : Nat → Nat) (closers : List String) (source : String) :
    Except Fault String := do
  let indented ← (TokenChain.ofSource source Features.all).indentLines level
  let aligned ← indented.alignStandalone closers fun _ => true
  return aligned.chain.render

/-- How many tokens a run adds at most: one in front of each line and of each comment. -/
def TokenChain.formatAdditions (c : TokenChain) : Nat :=
  c.lineHeads.length + (c.comments fun _ => true).length

/-- Levels and texts are short enough, and the arena has a slot number for every token that two
runs can add. -/
structure WithinLimits (level : Nat → Nat) (closers : List String) (source : String) : Prop where
  levels : ∀ i, level i < signedLimit
  given : source.length < signedLimit
  indented : ∀ c, (TokenChain.ofSource source Features.all).indentLines level = .ok c →
    c.render.length < signedLimit
  formatted : ∀ out, format level closers source = .ok out → out.length < signedLimit
  room : (TokenChain.ofSource source Features.all).slots.size +
    2 * (TokenChain.ofSource source Features.all).formatAdditions ≤ slotLimit

/-! ## The shapes of a run -/

/-- Every shape at its level. -/
def indentShapes (level : Nat → Nat) : Nat → List Shape → List Shape
  | _, [] => []
  | i, s :: ss => s.refit (level i) :: indentShapes level (i + 1) ss

/-- Every shape at its column. -/
def settleShapes (columns : List (Option Nat)) (ss : List Shape) : List Shape :=
  List.zipWith Shape.settle columns ss

theorem length_indentShapes (level : Nat → Nat) (i : Nat) (ss : List Shape) :
    (indentShapes level i ss).length = ss.length := by
  induction ss generalizing i with
  | nil => rfl
  | cons s ss ih => simp [indentShapes, ih]

/-- To indent and to settle all shapes is the same the second time. -/
theorem settle_indent_round (level : Nat → Nat) (columns : List (Option Nat)) (i : Nat)
    (ss : List Shape) :
    settleShapes columns (indentShapes level i (settleShapes columns (indentShapes level i ss))) =
      settleShapes columns (indentShapes level i ss) := by
  induction ss generalizing i columns with
  | nil => cases columns <;> rfl
  | cons s ss ih =>
    cases columns with
    | nil => rfl
    | cons column columns =>
      have hrest := ih columns (i + 1)
      simp only [settleShapes, indentShapes, List.zipWith_cons_cons] at hrest ⊢
      rw [hrest, Shape.settle_refit_round]

/-- Settled shapes have their old skeletons back when they are indented again. -/
theorem skeletons_indent_settle (level : Nat → Nat) {columns : List (Option Nat)} (i : Nat)
    {ss : List Shape} (h : columns.length = ss.length) :
    (indentShapes level i (settleShapes columns (indentShapes level i ss))).map Shape.skeleton =
      (indentShapes level i ss).map Shape.skeleton := by
  induction ss generalizing i columns with
  | nil => cases columns <;> rfl
  | cons s ss ih =>
    cases columns with
    | nil => cases h
    | cons column columns =>
      have hrest := ih (i + 1) (Nat.succ.inj h)
      simp only [settleShapes, indentShapes, List.zipWith_cons_cons, List.map_cons] at hrest ⊢
      rw [hrest, Shape.skeleton_refit_settle, Shape.refit_refit]

theorem length_goals (closers : List String) (ls : List (Line Entry)) :
    (goals closers ls).length = ls.length := by
  induction ls with
  | nil => rfl
  | cons l ls ih => simp [goals, ih]

theorem Aligned.shapes {closers : List String} {ls ls' : List (Line Entry)}
    (h : Aligned closers (fun _ => true) ls ls') (hls' : ∀ l ∈ ls', l.Proper) :
    ls'.map shapeOf = settleShapes (goals closers ls) (ls.map shapeOf) := by
  induction h with
  | nil => rfl
  | @cons l l' ls ls' hsettled _ ih =>
    rw [List.forall_mem_cons] at hls'
    rw [List.map_cons, List.map_cons, goals, hsettled.shape hls'.1, ih hls'.2]
    rfl

/-! ## Texts and counts -/

theorem textOf_flat (ls : List (Line Entry)) :
    textOf (flat ls) = (ls.map shapeOf).flatMap Shape.text := by
  induction ls with
  | nil => rfl
  | cons l ls ih =>
    have hline : textOf l.items = (shapeOf l).text := by
      simp [textOf, Shape.text, shapeOf, Line.items_map, List.flatMap_map]
    rw [List.map_cons, List.flatMap_cons, ← ih, ← hline]
    simp [textOf]

theorem length_text (s : Shape) :
    s.text.length = s.skeleton.1 + (s.skeleton.2.flatMap fun x => x.2.toList).length := by
  cases s with
  | blank item => simp [Shape.text, Shape.skeleton, Shape.margin, Line.items, Line.core]
  | content lead first rest =>
    cases lead with
    | none => simp [Shape.text, Shape.skeleton, Shape.margin, Line.items, Line.core, leadWidth]
    | some lead =>
      simp [Shape.text, Shape.skeleton, Shape.margin, Line.items, Line.core, leadWidth,
        String.length_toList]

theorem length_text_of_skeletons {ss ss' : List Shape}
    (h : ss.map Shape.skeleton = ss'.map Shape.skeleton) :
    (ss.flatMap Shape.text).length = (ss'.flatMap Shape.text).length := by
  induction ss generalizing ss' with
  | nil => rw [List.map_eq_nil_iff.mp h.symm]
  | cons s ss ih =>
    obtain ⟨s', ss', rfl, hs, hss⟩ := List.map_eq_cons_iff.mp h.symm
    rw [List.flatMap_cons, List.flatMap_cons, List.length_append, List.length_append,
      ih hss.symm, length_text, length_text, hs]

/-- The contents of all lines. -/
def contents (ss : List Shape) : List (Kind × String) := ss.flatMap Line.core

theorem contents_cons (s : Shape) (ss : List Shape) : contents (s :: ss) = s.core ++ contents ss :=
  rfl

theorem length_commentIds {ls : List (Line Entry)} (hls : ∀ l ∈ ls, l.Proper) :
    (TokenChain.commentIds (fun _ => true) (flat ls)).length =
      (contents (ls.map shapeOf)).countP fun x => x.1 == .comment := by
  have hcount : ∀ L : List Entry, (TokenChain.commentIds (fun _ => true) L).length =
      (L.map fun e => (e.2.kind, e.2.text)).countP fun x => x.1 == .comment := by
    intro L
    rw [TokenChain.commentIds, List.length_map, ← List.countP_eq_length_filter, List.countP_map]
    congr 1
    funext e
    simp [Token.isComment]
  induction ls with
  | nil => rfl
  | cons l ls ih =>
    rw [List.forall_mem_cons] at hls
    have hline : TokenChain.commentIds (fun _ => true) l.items =
        TokenChain.commentIds (fun _ => true) l.core := by
      cases l with
      | blank e => rfl
      | content lead first rest =>
        cases lead with
        | none => rfl
        | some lead => exact TokenChain.commentIds_whitespace _ hls.1.1
    rw [flat_cons, TokenChain.commentIds_append, List.length_append, ih hls.2, hline, hcount,
      ← core_shapeOf, List.map_cons, contents_cons, List.countP_append]

theorem Refitted.contents {ls ls' : List (Line Entry)} (h : Refitted ls ls')
    (hls' : ∀ l ∈ ls', l.Proper) :
    LineLayout.contents (ls'.map shapeOf) = LineLayout.contents (ls.map shapeOf) := by
  induction h with
  | nil => rfl
  | cons hstep _ ih =>
    obtain ⟨column, hsettled⟩ := hstep
    rw [List.forall_mem_cons] at hls'
    rw [List.map_cons, List.map_cons, contents_cons, contents_cons, ih hls'.2,
      hsettled.shape hls'.1, Shape.core_settle]

/-! ## One run -/

namespace TokenChain

/-- Bringing lines to their levels. `A` is what was passed already. -/
theorem Steady.indentEach {c : TokenChain} {A : List Entry} {ls : List (Line Entry)}
    (h : c.Steady (A ++ flat ls)) (hls : ∀ l ∈ ls, l.Proper)
    (hroom : c.slots.size + ls.length ≤ slotLimit) {level : Nat → Nat}
    (hlevel : ∀ i, level i < signedLimit) (i : Nat) :
    ∃ d ls', indentEach level i (ls.map fun l => l.start.1) c = .ok d ∧
      d.Steady (A ++ flat ls') ∧ (∀ l ∈ ls', l.Proper) ∧ Refitted ls ls' ∧
      ls'.map shapeOf = indentShapes level i (ls.map shapeOf) ∧
      d.slots.size ≤ c.slots.size + ls.length := by
  induction ls generalizing c A i with
  | nil => exact ⟨c, [], rfl, h, by simp, .nil, rfl, Nat.le_add_right _ _⟩
  | cons l ls ih =>
    rw [List.forall_mem_cons] at hls
    rw [List.length_cons] at hroom
    have hline : c.Steady (A ++ (l.items ++ flat ls)) := h
    obtain ⟨e, l', hok, hsteady, hrefit, hproper, hslots⟩ :=
      hline.setIndent_line hls.1 (head?_flat hls.2) (by omega) (hlevel i)
    have hnext : e.chain.Steady ((A ++ l'.items) ++ flat ls) := by simpa using hsteady
    obtain ⟨d, ls', hrun, hd, hproper', hrefitted, hshapes, hgrown⟩ :=
      ih hnext hls.2 (by omega) (i + 1)
    refine ⟨d, l' :: ls', ?_, by simpa using hd, ?_, .cons ⟨some (level i), hrefit⟩ hrefitted,
      ?_, ?_⟩
    · simp only [List.map_cons, TokenChain.indentEach, hok, bind, Except.bind]
      exact hrun
    · rw [List.forall_mem_cons]
      exact ⟨hproper, hproper'⟩
    · rw [List.map_cons, List.map_cons, indentShapes, hrefit.shape hproper, hshapes]
    · rw [List.length_cons]
      omega

end TokenChain

/-- A chain that is what lexing its text gives, as lines. -/
structure Laid (c : TokenChain) (ls : List (Line Entry)) : Prop where
  steady : c.Steady (flat ls)
  fresh : Fresh Features.all (flat ls)
  proper : ∀ l ∈ ls, l.Proper

theorem Laid.refitted {c d : TokenChain} {ls ls' : List (Line Entry)} (h : Laid c ls)
    (hd : d.Steady (flat ls')) (hls' : ∀ l ∈ ls', l.Proper) (hr : Refitted ls ls') : Laid d ls' :=
  ⟨hd, (Changed.refitted ls ls' h.proper hls' hr).fresh h.steady.sound h.fresh, hls'⟩

theorem Laid.indentLines {c : TokenChain} {ls : List (Line Entry)} (h : Laid c ls)
    {level : Nat → Nat} (hlevel : ∀ i, level i < signedLimit)
    (hroom : c.slots.size + ls.length ≤ slotLimit) :
    ∃ d ls', c.indentLines level = .ok d ∧ Laid d ls' ∧ Refitted ls ls' ∧
      ls'.map shapeOf = indentShapes level 0 (ls.map shapeOf) ∧
      d.slots.size ≤ c.slots.size + ls.length := by
  have hat : c.Steady ([] ++ flat ls) := h.steady
  obtain ⟨d, ls', hok, hd, hproper, hrefitted, hshapes, hslots⟩ :=
    hat.indentEach h.proper hroom hlevel 0
  refine ⟨d, ls', ?_, h.refitted hd hproper hrefitted, hrefitted, hshapes, hslots⟩
  unfold TokenChain.indentLines
  rw [h.steady.holds.lineHeads_eq h.proper, hok]

theorem Laid.alignStandalone {c : TokenChain} {ls : List (Line Entry)} (h : Laid c ls)
    (closers : List String) (htext : (textOf (flat ls)).length < signedLimit)
    (hroom : c.slots.size + (TokenChain.commentIds (fun _ => true) (flat ls)).length ≤ slotLimit) :
    ∃ e ls', c.alignStandalone closers (fun _ => true) = .ok e ∧ Laid e.chain ls' ∧
      Refitted ls ls' ∧ ls'.map shapeOf = settleShapes (goals closers ls) (ls.map shapeOf) ∧
      e.chain.slots.size ≤
        c.slots.size + (TokenChain.commentIds (fun _ => true) (flat ls)).length := by
  obtain ⟨e, ls', hok, hd, haligned, hproper, hslots, -⟩ :=
    h.steady.alignStandalone closers (fun _ => true) h.proper hroom htext
  exact ⟨e, ls', hok, h.refitted hd hproper haligned.refitted, haligned.refitted,
    haligned.shapes hproper, hslots⟩

theorem Laid.render_toList {c : TokenChain} {ls : List (Line Entry)} (h : Laid c ls) :
    c.render.toList = (ls.map shapeOf).flatMap Shape.text := by
  rw [h.steady.holds.render_toList, textOf_flat]

theorem exists_laid_ofSource {source : String}
    (h : (TokenChain.ofSource source Features.all).Fits 0) :
    ∃ ls, Laid (TokenChain.ofSource source Features.all) ls := by
  obtain ⟨L, hL, hfresh⟩ := exists_steady_ofSource h
  obtain ⟨ls, rfl, hls⟩ := hL.sound.exists_lines
  exact ⟨ls, hL, hfresh, hls⟩

/-- The text of laid lines is lexed into lines of the same shapes. -/
theorem Laid.reread {c : TokenChain} {ls : List (Line Entry)} (h : Laid c ls)
    (htext : c.render.length < signedLimit) :
    ∃ ls', Laid (TokenChain.ofSource c.render Features.all) ls' ∧
      ls'.map shapeOf = ls.map shapeOf ∧
      (TokenChain.ofSource c.render Features.all).slots.size ≤ c.slots.size := by
  have hslots : (TokenChain.ofSource c.render Features.all).slots.size = (flat ls).length := by
    rw [h.steady.ofSource_render h.fresh, (TokenChain.slots_ofList _).2, List.length_map]
  have hle := h.steady.holds.length_le
  have htokens := h.steady.relexed h.fresh
  have hrender : (TokenChain.ofSource c.render Features.all).render = c.render := by
    unfold TokenChain.render at htokens ⊢
    rw [← htokens]
  have hfits : (TokenChain.ofSource c.render Features.all).Fits 0 := by
    have hwithin := h.steady.holds.tidy.within
    refine ⟨by rw [hrender]; exact htext, ?_⟩
    omega
  obtain ⟨ls', h'⟩ := exists_laid_ofSource hfits
  refine ⟨ls', h', ?_, by omega⟩
  unfold TokenChain.toList at htokens
  rw [h.steady.holds.entries_eq, h'.steady.holds.entries_eq, ← flat_map, ← flat_map] at htokens
  have hlines := lines_unique (List.forall_mem_map.mpr h'.proper)
    (List.forall_mem_map.mpr h.proper) htokens.symm
  have hshapes := congrArg (List.map (Line.map fun t : Token => (t.kind, t.text))) hlines
  rw [List.map_map, List.map_map] at hshapes
  have hshape : (Line.map fun t : Token => (t.kind, t.text)) ∘ Line.map Prod.snd = shapeOf := by
    funext l
    cases l <;> simp [shapeOf, Line.map, Function.comp_def]
  rw [hshape] at hshapes
  exact hshapes

/-- What is left of a run when the lines are at their levels. -/
theorem Laid.format {source : String} {level : Nat → Nat} {c : TokenChain}
    {ls : List (Line Entry)} (h : Laid c ls) (closers : List String)
    (hok : (TokenChain.ofSource source Features.all).indentLines level = .ok c)
    (htext : (textOf (flat ls)).length < signedLimit)
    (hroom : c.slots.size + (TokenChain.commentIds (fun _ => true) (flat ls)).length ≤ slotLimit) :
    ∃ d ls', format level closers source = .ok d.render ∧ Laid d ls' ∧ Refitted ls ls' ∧
      ls'.map shapeOf = settleShapes (goals closers ls) (ls.map shapeOf) ∧
      d.slots.size ≤ c.slots.size + (TokenChain.commentIds (fun _ => true) (flat ls)).length := by
  obtain ⟨e, ls', hrun, hlaid, hrefitted, hshapes, hslots⟩ := h.alignStandalone closers htext hroom
  refine ⟨e.chain, ls', ?_, hlaid, hrefitted, hshapes, hslots⟩
  unfold LineLayout.format
  rw [hok]
  simp only [bind, Except.bind, hrun]
  rfl

theorem Refitted.length_eq {ls ls' : List (Line Entry)} (h : Refitted ls ls') :
    ls'.length = ls.length :=
  (List.Forall₂.length_eq h).symm

theorem Refitted.commentIds_length {ls ls' : List (Line Entry)} (h : Refitted ls ls')
    (hls : ∀ l ∈ ls, l.Proper) (hls' : ∀ l ∈ ls', l.Proper) :
    (TokenChain.commentIds (fun _ => true) (flat ls')).length =
      (TokenChain.commentIds (fun _ => true) (flat ls)).length := by
  rw [length_commentIds hls, length_commentIds hls', h.contents hls']

/-! ## Two runs -/

/-- The second run. The first one brought lines of the shapes `ss` to their levels, which gave
`ls₁`, and moved their comments, which gave `ls₂`. -/
theorem Laid.format_again {level : Nat → Nat} {closers : List String} {c₁ c₂ : TokenChain}
    {ss : List Shape} {ls₁ ls₂ : List (Line Entry)} (h₁ : Laid c₁ ls₁) (h₂ : Laid c₂ ls₂)
    (hs₁ : ls₁.map shapeOf = indentShapes level 0 ss)
    (hs₂ : ls₂.map shapeOf = settleShapes (goals closers ls₁) (ls₁.map shapeOf))
    (hlevel : ∀ i, level i < signedLimit) (htext₁ : (textOf (flat ls₁)).length < signedLimit)
    (htext₂ : c₂.render.length < signedLimit)
    (hroom : c₂.slots.size + ls₂.length +
      (TokenChain.commentIds (fun _ => true) (flat ls₂)).length ≤ slotLimit) :
    LineLayout.format level closers c₂.render = .ok c₂.render := by
  obtain ⟨ms, h, hshapes, hslots⟩ := h₂.reread htext₂
  have hlength : ms.length = ls₂.length := by
    have hmap := congrArg List.length hshapes
    rwa [List.length_map, List.length_map] at hmap
  obtain ⟨d₁, ms₁, hok₁, hd₁, hrefit, hshapes₁, hslots₁⟩ := h.indentLines hlevel (by omega)
  have hcount : (TokenChain.commentIds (fun _ => true) (flat ms₁)).length =
      (TokenChain.commentIds (fun _ => true) (flat ls₂)).length := by
    rw [hrefit.commentIds_length h.proper hd₁.proper, length_commentIds h.proper,
      length_commentIds h₂.proper, hshapes]
  have hskeletons : (ms₁.map shapeOf).map Shape.skeleton =
      (ls₁.map shapeOf).map Shape.skeleton := by
    have hlines := congrArg List.length hs₁
    rw [List.length_map, length_indentShapes] at hlines
    rw [hshapes₁, hshapes, hs₂, hs₁]
    apply skeletons_indent_settle
    rw [length_goals, hlines]
  have htext : (textOf (flat ms₁)).length < signedLimit := by
    rw [textOf_flat, length_text_of_skeletons hskeletons, ← textOf_flat]
    exact htext₁
  have hgoals : goals closers ms₁ = goals closers ls₁ :=
    (goals_congr closers hd₁.steady.sound.placed h₁.steady.sound.placed rfl hd₁.proper h₁.proper
      hd₁.steady.sound.plain h₁.steady.sound.plain hskeletons).1
  obtain ⟨d₂, ms₂, hok₂, hd₂, -, hshapes₂, -⟩ := hd₁.format closers hok₁ htext (by omega)
  have hsame : ms₂.map shapeOf = ls₂.map shapeOf := by
    rw [hshapes₂, hgoals, hshapes₁, hshapes, hs₂, hs₁, settle_indent_round]
  have hrender : d₂.render = c₂.render := by
    apply String.toList_inj.mp
    rw [hd₂.render_toList, h₂.render_toList, hsame]
  rw [hok₂, hrender]

/-- Formatting does not fault, and to format a formatted text changes nothing. -/
theorem formatting_twice_is_formatting_once (level : Nat → Nat) (closers : List String)
    (source : String) (hlimits : WithinLimits level closers source) :
    ∃ out, format level closers source = .ok out ∧ format level closers out = .ok out := by
  have hlevel := hlimits.levels
  have hroom := hlimits.room
  unfold TokenChain.formatAdditions at hroom
  have hslots : (TokenChain.ofSource source Features.all).slots.size ≤ slotLimit := by omega
  have hfits : (TokenChain.ofSource source Features.all).Fits 0 :=
    ⟨by rw [render_ofSource hslots]; exact hlimits.given, hslots⟩
  obtain ⟨ls, h⟩ := exists_laid_ofSource hfits
  have hheads : (TokenChain.ofSource source Features.all).lineHeads.length = ls.length := by
    rw [h.steady.holds.lineHeads_eq h.proper, List.length_map]
  have hcomments : ((TokenChain.ofSource source Features.all).comments fun _ => true).length =
      (TokenChain.commentIds (fun _ => true) (flat ls)).length := by
    unfold TokenChain.comments TokenChain.commentIds
    rw [h.steady.holds.entries_eq]
  obtain ⟨c₁, ls₁, hok₁, h₁, hrefit₁, hshapes₁, hslots₁⟩ := h.indentLines hlevel (by omega)
  have hcount₁ := hrefit₁.commentIds_length h.proper h₁.proper
  have htext₁ := h₁.steady.holds.short_text (hlimits.indented c₁ hok₁)
  obtain ⟨c₂, ls₂, hok₂, h₂, hrefit₂, hshapes₂, hslots₂⟩ := h₁.format closers hok₁ htext₁ (by omega)
  have hcount₂ := hrefit₂.commentIds_length h₁.proper h₂.proper
  have hlength₁ := hrefit₁.length_eq
  have hlength₂ := hrefit₂.length_eq
  refine ⟨c₂.render, hok₂, ?_⟩
  exact h₁.format_again h₂ hshapes₁ hshapes₂ hlevel htext₁ (hlimits.formatted _ hok₂) (by omega)

/-- Every third line starts again at the front. -/
def sampleLevel (i : Nat) : Nat := 2 * (i % 3)

/-- A tab before a comment over two lines, a blank line, an open quote and an open brace. -/
def sampleSource : String := "begin\r\n\t\x7ba\n b\x7d // n\n\n x := \x27it\nuntil \x7b\ty"

theorem sample_source_is_formatted_once :
    WithinLimits sampleLevel ["end"] sampleSource ∧
    ∃ out, format sampleLevel ["end"] sampleSource = .ok out ∧
      format sampleLevel ["end"] out = .ok out := by
  have hlevel : ∀ i, sampleLevel i < signedLimit := by
    intro i
    simp only [sampleLevel, signedLimit]
    omega
  have hlimits : WithinLimits sampleLevel ["end"] sampleSource :=
    ⟨hlevel, by decide +kernel, by decide +kernel, by decide +kernel, by decide +kernel⟩
  exact ⟨hlimits, formatting_twice_is_formatting_once _ _ _ hlimits⟩

end LineLayout
