-- Aligned comments are at rest. The first pass leaves the code where it is, so every comment finds
-- the same code behind it, and its line is at the column of this code already. The second pass
-- counts the same comments and edits nothing.
import LineLayout.Proofs.CommentTargets

namespace LineLayout

/-- Where a token stands and how its line is marked do not matter to the filter. -/
def IgnoresPlace (accepts : Token → Bool) : Prop :=
  ∀ t u : Token, t.kind = u.kind → t.text = u.text → t.features = u.features →
    accepts t = accepts u

/-- Every line that has a column to go to is there. -/
def AtRest (closers : List String) (accepts : Token → Bool) : List (Line Entry) → Prop
  | [] => True
  | l :: ls => (∀ column, goal closers accepts l (flat ls) = some column →
      (shapeOf l).margin = column) ∧ AtRest closers accepts ls

/-! ## A pass over lines at rest -/

namespace TokenChain

theorem Holds.setIndent_margin {c : TokenChain} {A R : List Entry} {lead : Option Entry}
    {first : Entry} {rest : List Entry}
    (h : c.Holds (A ++ ((Line.content lead first rest).items ++ R)))
    (hl : (Line.content lead first rest).Proper) :
    c.setIndent (Line.content lead first rest).start.1
        (shapeOf (.content lead first rest)).margin =
      .ok (c.unchanged (Line.content lead first rest).start.1) := by
  rw [margin_content]
  cases lead with
  | none =>
    have hat : c.Holds (A ++ (first.1, first.2) :: (rest ++ R)) := by simpa [Line.items] using h
    have hw : first.2.isWhitespace = false := hl.1
    exact hat.setIndent_rests (by simp [hw]) fun _ => rfl
  | some lead =>
    have hat : c.Holds (A ++ (lead.1, lead.2) :: (first :: rest ++ R)) := by
      simpa [Line.items] using h
    have hw : lead.2.isWhitespace = true := hl.1
    exact hat.setIndent_rests (fun _ => Or.inr (Or.inr rfl)) (by simp [hw])

section Rest

variable {c : TokenChain} {closers : List String} {accepts : Token → Bool}

theorem Steady.alignLine_at_rest {A R : List Entry} {l : Line Entry}
    (h : c.Steady (A ++ (l.items ++ R))) (hl : l.Proper)
    (hrest : ∀ column, goal closers accepts l R = some column → (shapeOf l).margin = column)
    {more : List TokenId} {count : Nat}
    (hmore : alignEach closers more c = .ok (c.unchanged count)) :
    alignEach closers (commentIds accepts l.items ++ more) c =
      .ok (c.unchanged (count + (goal closers accepts l R).toList.length)) := by
  match l with
  | .blank e =>
    have hids : commentIds accepts (Line.blank e).items = [] := commentIds_whitespace [] hl.1
    rw [hids]
    exact hmore
  | .content lead first rest =>
    have hbehind : alignEach closers (commentIds accepts rest ++ more) c =
        .ok (c.unchanged count) :=
      (h.holds.alignEach_behind hl (fun id hid => mem_of_commentIds hid) more).trans hmore
    rw [commentIds_content accepts hl]
    by_cases hf : (first.2.isComment && accepts first.2) = true
    · have hof := h.alignmentOf?_first hl closers
      simp only [goal, hf, if_true] at hrest ⊢
      rcases hgoal : target closers first.2 ((rest ++ R).map Prod.snd) with _ | column
      · rw [hgoal] at hof
        exact (alignEach_stays hof).trans hbehind
      · rw [hgoal] at hof
        have hstays := h.holds.setIndent_margin hl
        rw [hrest column hgoal] at hstays
        exact alignEach_moves hof hstays hbehind
    · simp only [goal, hf]
      exact hbehind

/-- All lines are at rest. `A` is what was passed already. -/
theorem Steady.alignLines_at_rest {A : List Entry} {ls : List (Line Entry)}
    (h : c.Steady (A ++ flat ls)) (hls : ∀ l ∈ ls, l.Proper) (hrest : AtRest closers accepts ls) :
    alignEach closers (commentIds accepts (flat ls)) c =
      .ok (c.unchanged (aimedIds closers accepts ls).length) := by
  induction ls generalizing A with
  | nil => rfl
  | cons l ls ih =>
    rw [List.forall_mem_cons] at hls
    have hline : c.Steady (A ++ (l.items ++ flat ls)) := h
    have hnext : c.Steady ((A ++ l.items) ++ flat ls) := by simpa using h
    rw [flat_cons, commentIds_append, length_aimedIds_cons]
    exact hline.alignLine_at_rest hls.1 hrest.1 (ih hnext hls.2 hrest.2)

end Rest

end TokenChain

/-! ## Aligned lines are at rest -/

theorem codeSpots_moved {row : Nat} {delta : Int} {L L' : List Entry}
    (h : List.Forall₂ (Moved row delta) L L')
    (hrow : ∀ e ∈ L, e.2.isTrivia = false → e.2.row ≠ row) : codeSpots L' = codeSpots L := by
  induction h with
  | nil => rfl
  | @cons e e' L L' hmoved _ ih =>
    rw [List.forall_mem_cons] at hrow
    have hkind : e'.2.kind = e.2.kind := congrArg (fun x => x.2.1) hmoved.face
    have htext : e'.2.text = e.2.text := congrArg (fun x => x.2.2.1) hmoved.face
    have hhead : codeSpots [e'] = codeSpots [e] := by
      cases hcode : e.2.isTrivia with
      | true =>
        have hkinds : (e.2.kind == .whitespace || e.2.kind == .comment) = true := hcode
        simp only [codeSpots, List.map_cons, List.map_nil, spot, hkind, hkinds, List.filter_cons,
          Bool.not_true, Bool.false_eq_true, if_false]
      | false =>
        have hplace := hmoved.place.eq_of_row_ne (hrow.1 hcode)
        simp only [codeSpots, List.map_cons, List.map_nil, spot, hkind, htext, hplace]
    calc codeSpots (e' :: L') = codeSpots [e'] ++ codeSpots L' := codeSpots_append [e'] L'
      _ = codeSpots [e] ++ codeSpots L := by rw [hhead, ih hrow.2]
      _ = codeSpots (e :: L) := (codeSpots_append [e] L).symm

theorem goal_content_congr (closers : List String) {accepts : Token → Bool}
    {lead lead' : Option Entry} {first first' : Entry} {rest rest' below below' : List Entry}
    (hkind : first'.2.kind = first.2.kind) (haccepts : accepts first'.2 = accepts first.2)
    (hrow : first'.2.following.row = first.2.following.row)
    (hcodes : codeSpots (rest' ++ below') = codeSpots (rest ++ below)) :
    goal closers accepts (.content lead' first' rest') below' =
      goal closers accepts (.content lead first rest) below := by
  simp only [goal, Token.isComment, hkind, haccepts, target_eq, hcodes, hrow]

section Aligned

variable {closers : List String} {accepts : Token → Bool}

theorem goal_below_congr (closers : List String) (accepts : Token → Bool) (l : Line Entry)
    {below below' : List Entry} (hbelow : codeSpots below' = codeSpots below) :
    goal closers accepts l below' = goal closers accepts l below := by
  cases l with
  | blank e => rfl
  | content lead first rest =>
    apply goal_content_congr closers rfl rfl rfl
    rw [codeSpots_append, codeSpots_append, hbelow]

/-- The first code behind a comment with a column to go to is below the row where its line starts,
and so is all code of the line. -/
theorem code_below_start {lead : Option Entry} {first : Entry} {rest below : List Entry}
    {column : Nat} (hgoal : goal closers accepts (.content lead first rest) below = some column)
    {before : Option Token}
    (hp : PlacedAfter before ((Line.content lead first rest).items ++ below)) :
    ∀ e ∈ first :: rest, e.2.isTrivia = false → e.2.row ≠ (stopOf before).row := by
  obtain ⟨hcomment, -, anchor, hanchor, -⟩ := goal_eq_some.mp hgoal
  have hfirst : (stopOf before).row ≤ first.2.row := hp.row_le first (by simp [Line.items])
  have hbehind : PlacedAfter (some first.2) (rest ++ below) := by
    have hat : PlacedAfter before (lead.toList ++ first :: (rest ++ below)) := by
      simpa [Line.items] using hp
    exact (placed_append.mp hat).2.2
  intro e he hcode
  rcases List.mem_cons.mp he with rfl | hrest
  · simp [Token.isTrivia, hcomment] at hcode
  · have hlt := hanchor.row_lt hbehind (List.mem_append_left _ hrest) hcode
    omega

/-- A line whose code stays has the same column to go to when the row where it starts moves. -/
theorem goal_moved {lead lead' : Option Entry} {first first' : Entry}
    {rest rest' below below' : List Entry} {row : Nat} {delta : Int}
    (haccepts : IgnoresPlace accepts)
    (hmoved : List.Forall₂ (Moved row delta) (first :: rest) (first' :: rest'))
    (hrow : ∀ e ∈ first :: rest, e.2.isTrivia = false → e.2.row ≠ row)
    (hbelow : codeSpots below' = codeSpots below) :
    goal closers accepts (.content lead' first' rest') below' =
      goal closers accepts (.content lead first rest) below := by
  obtain ⟨hm, hms⟩ := List.forall₂_cons.mp hmoved
  rw [List.forall_mem_cons] at hrow
  have hkind : first'.2.kind = first.2.kind := congrArg (fun x => x.2.1) hm.face
  have htext : first'.2.text = first.2.text := congrArg (fun x => x.2.2.1) hm.face
  have hfeatures : first'.2.features = first.2.features := congrArg (fun x => x.2.2.2.1) hm.face
  apply goal_content_congr closers hkind (haccepts _ _ hkind htext hfeatures)
  · have hsame : first'.2.row = first.2.row := hm.place.sameRow
    simp only [Token.following_row, Token.lineBreaks, hsame, htext]
  · rw [codeSpots_append, codeSpots_append, hbelow, codeSpots_moved hms hrow.2]

/-- A line after it went to its column: the code on it is where it was, and so is its column. -/
theorem Settled.rests {l l' : Line Entry} {below below' : List Entry}
    (h : Settled (goal closers accepts l below) l l') (haccepts : IgnoresPlace accepts)
    {before before' : Option Token} (hp : PlacedAfter before (l.items ++ below))
    (hp' : PlacedAfter before' l'.items) (hstop : stopOf before' = stopOf before) (hl : l.Proper)
    (hl' : l'.Proper) (hplain : ∀ e ∈ l.items, e.2.unbroken)
    (hplain' : ∀ e ∈ l'.items, e.2.unbroken) (hbelow : codeSpots below' = codeSpots below) :
    goal closers accepts l' below' = goal closers accepts l below ∧
      codeSpots l'.items = codeSpots l.items ∧
      ∀ column, goal closers accepts l below = some column → (shapeOf l').margin = column := by
  cases hgoal : goal closers accepts l below with
  | none =>
    rw [hgoal] at h
    have hsame : l' = l := h
    subst hsame
    exact ⟨(goal_below_congr closers accepts l' hbelow).trans hgoal, rfl, fun column hc => by
      cases hc⟩
  | some column =>
    match l with
    | .blank e => cases hgoal
    | .content lead first rest =>
      rw [hgoal] at h
      have hrefit : Refit column (.content lead first rest) l' := h
      obtain ⟨hmoved, -, -⟩ := hrefit.moved (placed_append.mp hp).1 hp' hstop hl hl' hplain hplain'
      have hrow := code_below_start hgoal hp
      refine ⟨?_, ?_, ?_⟩
      · obtain ⟨lead', first', rest', rfl, -⟩ := hrefit.of_content
        rw [← hgoal]
        exact goal_moved haccepts hmoved hrow hbelow
      · rw [codeSpots_items hl', codeSpots_items hl]
        exact codeSpots_moved hmoved hrow
      · intro column' hc
        cases hc
        exact hrefit.margin

/-- After the comments were aligned every line is at rest, and as many comments have a column. -/
theorem Aligned.atRest {ls ls' : List (Line Entry)} (h : Aligned closers accepts ls ls')
    (haccepts : IgnoresPlace accepts) {before before' : Option Token}
    (hp : PlacedAfter before (flat ls)) (hp' : PlacedAfter before' (flat ls'))
    (hstop : ls ≠ [] → stopOf before' = stopOf before) (hls : ∀ l ∈ ls, l.Proper)
    (hls' : ∀ l ∈ ls', l.Proper) (hplain : ∀ e ∈ flat ls, e.2.unbroken)
    (hplain' : ∀ e ∈ flat ls', e.2.unbroken) :
    AtRest closers accepts ls' ∧ codeSpots (flat ls') = codeSpots (flat ls) ∧
      (aimedIds closers accepts ls').length = (aimedIds closers accepts ls).length := by
  induction h generalizing before before' with
  | nil => exact ⟨trivial, rfl, rfl⟩
  | @cons l l' ls ls' hsettled _ ih =>
    have hhead := hstop (List.cons_ne_nil l ls)
    have hnext : ls ≠ [] →
        stopOf (lastToken before' l'.items) = stopOf (lastToken before l.items) := by
      intro hne
      have hone : Refitted [l] [l'] := .cons ⟨_, hsettled⟩ .nil
      have hstops := hone.stops (Q := ls) hp (by simpa using (placed_append.mp hp').1) hhead hne
        hls (by simpa using hls' l' (by simp)) (fun e he => hplain e (by simp_all [flat]))
        (fun e he => hplain' e (by simp_all [flat]))
      simpa [flat] using hstops
    rw [List.forall_mem_cons] at hls hls'
    rw [flat_cons, List.forall_mem_append] at hplain hplain'
    rw [flat_cons] at hp hp'
    obtain ⟨hrest, hcodes, hcount⟩ := ih (placed_append.mp hp).2 (placed_append.mp hp').2 hnext
      hls.2 hls'.2 hplain.2 hplain'.2
    obtain ⟨hgoal, hline, hmargin⟩ := hsettled.rests haccepts hp (placed_append.mp hp').1 hhead
      hls.1 hls'.1 hplain.1 hplain'.1 hcodes
    refine ⟨⟨?_, hrest⟩, ?_, ?_⟩
    · rw [hgoal]
      exact hmargin
    · rw [flat_cons, flat_cons, codeSpots_append, codeSpots_append, hline, hcodes]
    · rw [length_aimedIds_cons, length_aimedIds_cons, hcount, hgoal]

end Aligned

/-- Aligning the comments of a consistent chain a second time gives the same count and the very
chain of the first time, and no edit is noted. -/
theorem aligning_comments_twice_changes_nothing_more (c : TokenChain) (closers : List String)
    (accepts : Token → Bool) (hc : c.Consistent)
    (hfits : c.Fits (c.toList.filter Token.isComment).length) (haccepts : IgnoresPlace accepts) :
    ∃ e, c.alignStandalone closers accepts = .ok e ∧
      e.chain.alignStandalone closers accepts =
        .ok ⟨e.value, e.chain, [.alignedComments e.value]⟩ := by
  obtain ⟨e, ls, ls', hok, h, hvalue⟩ := hc.realigned closers accepts hfits
  obtain ⟨hrest, -, hcount⟩ := h.aligned.atRest haccepts h.steady.sound.placed
    h.steady'.sound.placed (fun _ => rfl) h.proper h.proper' h.steady.sound.plain
    h.steady'.sound.plain
  refine ⟨e, hok, ?_⟩
  have hids : e.chain.comments accepts = TokenChain.commentIds accepts (flat ls') := by
    unfold TokenChain.comments TokenChain.commentIds
    rw [h.steady'.holds.entries_eq]
  have hat : e.chain.Steady ([] ++ flat ls') := h.steady'
  unfold TokenChain.alignStandalone
  rw [hids, hat.alignLines_at_rest h.proper' hrest, hcount, ← hvalue]
  rfl

/-- A comment that goes back to the front, one over two lines that goes forward with another one
behind it, and one that is switched off. -/
def unalignedTokens : List Token :=
  [{ text := "\t", kind := .whitespace, beginsLine := true },
    { text := "\x7ba\x7d", kind := .comment, col := 1 },
    { text := "\n", kind := .whitespace, endsLine := true, col := 4 },
    { text := "x", kind := .identifier, beginsLine := true, row := 1 },
    { text := "\n", kind := .whitespace, endsLine := true, row := 1, col := 1 },
    { text := "\x7bb\nc\x7d", kind := .comment, beginsLine := true, row := 2 },
    { text := " ", kind := .whitespace, row := 3, col := 2 },
    { text := "// d", kind := .comment, row := 3, col := 3 },
    { text := "\n", kind := .whitespace, endsLine := true, row := 3, col := 7 },
    { text := "// e", kind := .comment, beginsLine := true, features := Features.none, row := 4 },
    { text := "\n", kind := .whitespace, endsLine := true, row := 4, col := 4 },
    { text := "  ", kind := .whitespace, beginsLine := true, row := 5 },
    { text := "y", kind := .number, row := 5, col := 2 }]

theorem unaligned_tokens_are_aligned_once :
    (TokenChain.ofList unalignedTokens).Consistent ∧
    ((TokenChain.ofList unalignedTokens).alignStandalone defaultClosers
      fun t => t.features.indent).map Edited.value = .ok 2 ∧
    ∃ e, (TokenChain.ofList unalignedTokens).alignStandalone defaultClosers
        (fun t => t.features.indent) = .ok e ∧
      e.chain.alignStandalone defaultClosers (fun t => t.features.indent) =
        .ok ⟨e.value, e.chain, [.alignedComments e.value]⟩ := by
  have hc : (TokenChain.ofList unalignedTokens).Consistent :=
    TokenChain.consistent_ofList (by decide) (by decide +kernel) (by decide +kernel)
  have hfits : (TokenChain.ofList unalignedTokens).Fits
      ((TokenChain.ofList unalignedTokens).toList.filter Token.isComment).length := by
    decide +kernel
  have haccepts : IgnoresPlace fun t => t.features.indent := by
    intro t u _ _ hfeatures
    simp only [hfeatures]
  exact ⟨hc, by decide +kernel,
    aligning_comments_twice_changes_nothing_more _ _ _ hc hfits haccepts⟩

end LineLayout
