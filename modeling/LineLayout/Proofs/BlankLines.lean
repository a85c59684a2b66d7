-- Putting in a blank line keeps every token in its place. The new line break stands where the
-- next line stood, and every token behind it moves down one row.
import LineLayout.Proofs.Indentation

namespace LineLayout

/-! ## One row further down -/

theorem Position.after_down (p : Position) (text : List Char) :
    (Position.mk (p.row + 1) p.col).after text = ⟨(p.after text).row + 1, (p.after text).col⟩ := by
  by_cases h : '\n' ∈ text
  · simp only [after_of_break _ h]
    rw [Nat.add_right_comm]
  · simp only [after_of_plain _ h]

namespace Token

/-- As long as it fits in a word, a row moves down by exactly one. -/
theorem shiftRow_succ {t : Token} (h : t.row + 1 < wordLimit) :
    t.shiftRow 1 = { t with row := t.row + 1 } := by
  have hrow : shifted t.row 1 = t.row + 1 := by
    unfold shifted
    omega
  rw [shiftRow, hrow]

theorem shiftRow_one {t : Token} (h : t.row < signedLimit) :
    t.shiftRow 1 = { t with row := t.row + 1 } := by
  apply shiftRow_succ
  simp only [signedLimit, wordLimit] at *
  omega

theorem following_shiftRow {t : Token} (h : t.row < signedLimit) :
    (t.shiftRow 1).following = ⟨t.following.row + 1, t.following.col⟩ := by
  rw [shiftRow_one h]
  exact Position.after_down t.position t.text.toList

end Token

theorem Follows.down {b t : Token} (h : Follows b t) (hb : b.row < signedLimit)
    (ht : t.row < signedLimit) : Follows (b.shiftRow 1) (t.shiftRow 1) := by
  refine ⟨h.marks, h.breaks, ?_, h.apart⟩
  have hplace := h.place
  have hr : t.row = b.following.row := congrArg Position.row hplace
  have hc : t.col = b.following.col := congrArg Position.col hplace
  rw [Token.following_shiftRow hb, Token.shiftRow_one ht, ← hr, ← hc]
  rfl

/-- The rest of a list moves down together. -/
theorem PlacedAfter.down {b : Token} {L : List Entry} (h : PlacedAfter (some b) L)
    (hb : b.row < signedLimit) (hL : ∀ e ∈ L, e.2.row < signedLimit) :
    PlacedAfter (some (b.shiftRow 1)) (editAll (·.shiftRow 1) L) := by
  induction L generalizing b with
  | nil => trivial
  | cons e rest ih =>
    rw [List.forall_mem_cons] at hL
    exact ⟨Follows.down h.1 hb hL.1, ih h.2 hL.1 hL.2⟩

theorem editAll_forall {P : Token → Prop} {f : Token → Token} (hP : ∀ t, P t → P (f t))
    {L : List Entry} (h : ∀ e ∈ L, P e.2) : ∀ e ∈ editAll f L, P e.2 := by
  unfold editAll
  rw [List.forall_mem_map]
  exact fun e he => hP _ (h e he)

/-! ## A blank line between two lines -/

section BlankLine

variable {P rest : List Entry} {last new next : TokenId} {tl n : Token}

/-- The text of a blank line is one line break. -/
theorem Token.blankLineBefore_breaks (n : Token) : n.blankLineBefore.endsWithBreak = true := by
  unfold endsWithBreak
  exact (by decide : ("\n".toList.getLast? == some '\n') = true)

theorem Token.following_blankLineBefore (n : Token) :
    n.blankLineBefore.following = ⟨n.row + 1, 0⟩ := by
  have hrow := n.blankLineBefore.following_row
  have hcol := following_col_of_ends n.blankLineBefore_breaks
  have hbreaks : n.blankLineBefore.lineBreaks = 1 := by
    unfold lineBreaks
    exact (by decide : "\n".toList.count '\n' = 1)
  rw [hbreaks] at hrow
  calc n.blankLineBefore.following
      = ⟨n.blankLineBefore.following.row, n.blankLineBefore.following.col⟩ := rfl
    _ = ⟨n.row + 1, 0⟩ := by rw [hrow, hcol]; rfl

/-- The token behind a line begins the next one at column zero. -/
theorem Sound.begins_behind (h : Sound (P ++ (last, tl) :: (next, n) :: rest))
    (hend : tl.endsLine = true) : n.beginsLine = true ∧ n.col = 0 := by
  have hj : Joins (some tl) n := (placed_append.mp h.placed).2.2.1
  have hb : n.beginsLine = true := (Follows.marks hj).trans hend
  exact ⟨hb, hj.col_of_beginsLine hb⟩

/-- The blank line takes the place of the next line. -/
theorem Follows.blankLineBefore (h : Follows tl n) (hend : tl.endsLine = true) (hcol : n.col = 0) :
    Follows tl n.blankLineBefore := by
  refine ⟨hend.symm, h.breaks, ?_, fun _ _ => hend⟩
  rw [← h.place]
  simp [Token.position, Token.blankLineBefore, hcol]

/-- The next line comes right behind the blank line. -/
theorem follows_blankLineBefore (hb : n.beginsLine = true) (hcol : n.col = 0)
    (hrow : n.row < signedLimit) : Follows n.blankLineBefore (n.shiftRow 1) := by
  refine ⟨hb, n.blankLineBefore_breaks.symm, ?_, fun _ _ => rfl⟩
  rw [n.following_blankLineBefore, Token.shiftRow_one hrow]
  simp [Token.position, hcol]

theorem Sound.separate (h : Sound (P ++ (last, tl) :: (next, n) :: rest))
    (hend : tl.endsLine = true)
    (hrow : ∀ e ∈ P ++ (last, tl) :: (next, n) :: rest, e.2.row < signedLimit) :
    Sound (P ++ (last, tl) :: (new, n.blankLineBefore) ::
      editAll (·.shiftRow 1) ((next, n) :: rest)) := by
  obtain ⟨hb, hcol⟩ := h.begins_behind hend
  obtain ⟨hP, htl, hn, hrest⟩ := placed_append.mp h.placed
  simp only [List.forall_mem_append, List.forall_mem_cons] at hrow
  obtain ⟨-, -, hnrow, hrows⟩ := hrow
  constructor
  · refine placed_append.mpr ⟨hP, htl, Follows.blankLineBefore hn hend hcol, ?_⟩
    exact ⟨follows_blankLineBefore hb hcol hnrow, hrest.down hnrow hrows⟩
  · have hall := h.plain
    simp only [List.forall_mem_append, List.forall_mem_cons] at hall
    obtain ⟨hallP, halltl, halln, hallrest⟩ := hall
    rw [List.forall_mem_append, List.forall_mem_cons, List.forall_mem_cons]
    refine ⟨hallP, halltl, ?_, ?_⟩
    · intro _ hno
      rw [n.blankLineBefore_breaks] at hno
      cases hno
    apply editAll_forall (P := Token.unbroken) (f := (·.shiftRow 1)) (fun _ => id)
    rw [List.forall_mem_cons]
    exact ⟨halln, hallrest⟩

end BlankLine

/-- Keeping lines apart keeps a list sound. -/
theorem Separated.keeps {P R : List Entry} {last : TokenId} {tl : Token} {value : Option TokenId}
    {L : List Entry} (h : Separated P last tl R value L) (hs : Sound (P ++ (last, tl) :: R))
    (hz : Sized (P ++ (last, tl) :: R)) (hend : tl.endsLine = true ∨ R = []) : Sound L := by
  cases h with
  | stays _ => exact hs
  | inserted new next n rest hR _ _ =>
    subst hR
    have htl : tl.endsLine = true := hend.resolve_right (by simp)
    exact hs.separate htl fun e he => (hs.placed.fits hz e he).1

end LineLayout
