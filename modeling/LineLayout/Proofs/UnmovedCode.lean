-- Aligning comments never moves code. On a line that moves, the code stands below the row where the
-- line starts, and only this one row moves. No turn of the pass changes a row, and no id comes back
-- under another token, so whatever stays through the pass is still on its row.
import LineLayout.Source.Placement
import LineLayout.Proofs.CommentTargets
import LineLayout.Proofs.KeptCode

namespace LineLayout

/-! ## Rows through the pass -/

/-- A token and the row where it stands. -/
def rowOf (e : Entry) : TokenId × Nat := (e.1, e.2.row)

/-- A token that is in both lists has one row. -/
def RowsKept (L M : List Entry) : Prop :=
  ∀ o ∈ L.map rowOf, ∀ e ∈ M.map rowOf, e.1 = o.1 → e = o

theorem Reindented.rows {A B L : List Entry} {start value : TokenId} {t : Token} {level : Nat}
    (h : Reindented moveRow A start t B level value L) {p : TokenId × Nat}
    (hp : p ∈ L.map rowOf) : p ∈ (A ++ (start, t) :: B).map rowOf ∨
      p.1 = value ∧ value ∉ (A ++ (start, t) :: B).map Prod.fst := by
  have hmove : ∀ row delta S, (moveRow row delta S).map rowOf = S.map rowOf :=
    fun row _ S => moveRow_map rowOf (fun _ => rfl) row S
  cases h with
  | stays _ _ => exact Or.inl hp
  | resized next n rest hB _ _ _ _ =>
    left
    rw [hB]
    simpa [hmove, rowOf] using hp
  | removed next n rest hB _ _ _ _ =>
    left
    rw [hB]
    simp only [List.map_append, hmove, List.map_cons, List.mem_append, List.mem_cons] at hp ⊢
    rcases hp with hA | hn | hrest
    · exact Or.inl hA
    · exact Or.inr (Or.inr (Or.inl hn))
    · exact Or.inr (Or.inr (Or.inr hrest))
  | inserted _ _ _ hfresh =>
    simp only [List.map_append, hmove, List.map_cons, List.mem_append, List.mem_cons] at hp ⊢
    rcases hp with hA | hnew | ht | hB
    · exact Or.inl (Or.inl hA)
    · rw [hnew]
      exact Or.inr ⟨rfl, by simpa using hfresh⟩
    · exact Or.inl (Or.inr (Or.inl ht))
    · exact Or.inl (Or.inr (Or.inr hB))

theorem TokenChain.Turn.rows {L M M' : List Entry} (h : Turn (L.map Prod.fst) M M')
    (hrows : RowsKept L M) : RowsKept L M' := by
  obtain ⟨A, start, t, B, level, value, rfl, hre, hnew⟩ := h
  intro o ho e he hid
  rcases hre.rows he with hold | ⟨hvalue, hfresh⟩
  · exact hrows o ho e hold hid
  · obtain ⟨x, hx, rfl⟩ := List.mem_map.mp ho
    rw [← hvalue, hid] at hnew hfresh
    exact absurd (List.mem_map_of_mem hx) (hnew hfresh)

theorem rows_of_turns {L M : List Entry} (hnd : (L.map Prod.fst).Nodup)
    (h : Relation.ReflTransGen (TokenChain.Turn (L.map Prod.fst)) L M) : RowsKept L M := by
  induction h with
  | refl =>
    intro o ho e he hid
    obtain ⟨x, hx, rfl⟩ := List.mem_map.mp ho
    obtain ⟨y, hy, rfl⟩ := List.mem_map.mp he
    rw [List.inj_on_of_nodup_map hnd hy hx hid]
  | tail _ hturn ih => exact hturn.rows ih

/-- Whatever the marks and places say, a token that is there before and after the pass is on one
row. -/
theorem TokenChain.Holds.rows_align {c : TokenChain} {L : List Entry} (h : c.Holds L)
    (closers : List String) (accepts : Token → Bool)
    (hroom : c.slots.size + (c.toList.filter Token.isComment).length ≤ slotLimit) :
    Lands (fun e => ∀ id t u, c.get? id = some t → e.chain.get? id = some u → u.row = t.row)
      (c.alignStandalone closers accepts) := by
  refine (h.passing_align closers accepts hroom).mono ?_
  rintro e ⟨done, M, hM, hturns⟩ id t u ht hu
  have hrows := rows_of_turns h.distinct hturns
  have hsame := hrows _ (List.mem_map_of_mem (h.mem_of_get? ht)) _
    (List.mem_map_of_mem (hM.holds.mem_of_get? hu)) rfl
  exact congrArg Prod.snd hsame

/-! ## Code in its place -/

/-- Aligning the comments of a consistent chain leaves every token of code at its row and column,
and every token that stays on its row. -/
theorem aligning_comments_never_moves_code (c : TokenChain) (closers : List String)
    (accepts : Token → Bool) (hc : c.Consistent)
    (hfits : c.Fits (c.toList.filter Token.isComment).length) :
    ∃ e, c.alignStandalone closers accepts = .ok e ∧
      (∀ id t, c.get? id = some t → t.isTrivia = false →
        ∃ u, e.chain.get? id = some u ∧ u.row = t.row ∧ u.col = t.col) ∧
      ∀ id t u, c.get? id = some t → e.chain.get? id = some u → u.row = t.row := by
  obtain ⟨e, ls, ls', hok, hrealigned, -⟩ := hc.realigned closers accepts hfits
  refine ⟨e, hok, ?_, ?_⟩
  · intro id t hget hcode
    obtain ⟨u, hu, hplace⟩ :=
      hrealigned.code_stays (hrealigned.steady.holds.mem_of_get? hget) hcode
    exact ⟨u, hu, congrArg Position.row hplace, congrArg Position.col hplace⟩
  · have hrows := hrealigned.steady.holds.rows_align closers accepts hfits.room
    rw [hok] at hrows
    exact hrows

/-- Two comments in front of code that stands where the second one ends, and a comment above a
line with an indentation. -/
def sharedLine : List (Kind × String) :=
  [(.whitespace, "\t"), (.comment, "\x7ba\x7d"), (.whitespace, " "), (.comment, "\x7bb\nc\x7d"),
    (.identifier, "x"), (.whitespace, "\n"), (.comment, "// d"), (.whitespace, "\n"),
    (.whitespace, "  "), (.number, "1")]

/-- Both lines move, and the code behind the comments stays. -/
theorem code_behind_moved_comments_stays :
    (TokenChain.ofParts sharedLine Features.none).Consistent ∧
    ((TokenChain.ofParts sharedLine Features.none).alignStandalone [] fun _ => true).map
      Edited.value = .ok 2 ∧
    ∃ e, (TokenChain.ofParts sharedLine Features.none).alignStandalone [] (fun _ => true) = .ok e ∧
      (∀ id t, (TokenChain.ofParts sharedLine Features.none).get? id = some t →
        t.isTrivia = false → ∃ u, e.chain.get? id = some u ∧ u.row = t.row ∧ u.col = t.col) ∧
      ∀ id t u, (TokenChain.ofParts sharedLine Features.none).get? id = some t →
        e.chain.get? id = some u → u.row = t.row := by
  have hc : (TokenChain.ofParts sharedLine Features.none).Consistent :=
    TokenChain.consistent_ofList (by decide) (by decide +kernel) (by decide +kernel)
  have hfits : (TokenChain.ofParts sharedLine Features.none).Fits
      ((TokenChain.ofParts sharedLine Features.none).toList.filter Token.isComment).length := by
    decide +kernel
  exact ⟨hc, by decide +kernel, aligning_comments_never_moves_code _ _ _ hc hfits⟩

end LineLayout
