-- Setting an indentation in a chain that passes the check. Of a text the check sees how it ends and
-- where it stops, so it lets whitespace pass that holds a line break and goes on behind it. Where
-- such whitespace gets another width, the token behind it ends up on the wrong row. In every other
-- case the chain passes the check again.
import LineLayout.Source.Placement
import LineLayout.Proofs.Operations

namespace LineLayout

/-- Another width is set for whitespace with a line break in it that has more of its line behind
it. -/
structure TokenChain.ReplacesBreak (c : TokenChain) (start : TokenId) (t : Token) (level : Nat) :
    Prop where
  whitespace : t.isWhitespace = true
  inside : t.endsLine = false
  followed : c.next? start ≠ none
  width : t.width ≠ level
  broken : ¬ t.plain

/-- A line break that goes leaves the token behind it on a row of its own. -/
theorem Reindented.misplaces {A B L : List Entry} {start value : TokenId} {t : Token} {level : Nat}
    (h : Reindented moveRow A start t B level value L)
    (hp : PlacedAfter none (A ++ (start, t) :: B)) (hw : t.isWhitespace = true)
    (he : t.endsLine = false) (hB : B ≠ []) (hne : t.width ≠ level) (hbroken : ¬ t.plain) :
    ¬ PlacedAfter none L := by
  obtain ⟨-, ht, hbehind⟩ := placed_append.mp hp
  have hbelow : ∀ {next n rest}, B = (next, n) :: rest → t.row < n.row := by
    rintro next n rest rfl
    have hrow : n.row = t.following.row := congrArg Position.row (Follows.place hbehind.1)
    rw [hrow]
    exact Token.row_lt_following hbroken
  intro hL
  cases h with
  | stays hstays _ =>
    rcases hstays hw with hnil | hend | hwidth
    · exact hB hnil
    · rw [he] at hend
      cases hend
    · exact hne hwidth
  | resized next n rest hsplit _ _ _ _ =>
    have hbehind' := (placed_append.mp hL).2.2
    simp only [moveRow, if_true] at hbehind'
    have hplace := Follows.place hbehind'.1
    have hnew : ({ t with text := blanks level } : Token).plain := blanks_plain level
    rw [Token.following_of_plain hnew] at hplace
    have hrow : n.row = t.row := congrArg Position.row hplace
    have hlt := hbelow hsplit
    omega
  | removed next n rest hsplit _ _ _ _ =>
    have hfirst := (placed_append.mp hL).2
    simp only [moveRow, if_true] at hfirst
    have hplace := hfirst.1.place.trans ht.place.symm
    have hrow : n.row = t.row := congrArg Position.row hplace
    have hlt := hbelow hsplit
    omega
  | inserted _ hcontent _ _ =>
    rw [hw] at hcontent
    cases hcontent

/-- A chain that passes the check takes every indentation without a fault, and passes the check
again exactly when no line break was replaced. -/
theorem indenting_keeps_the_check_unless_a_break_is_replaced (c : TokenChain) (start : TokenId)
    (t : Token) (level : Nat) (hlinks : ∃ L, c.Holds L) (hcheck : c.check = .ok none)
    (hfits : c.Fits 1) (hget : c.get? start = some t) (hb : t.beginsLine = true)
    (hlevel : level < signedLimit) :
    ∃ e, c.setIndent start level = .ok e ∧
      (e.chain.check = .ok none ↔ ¬ c.ReplacesBreak start t level) := by
  obtain ⟨L, hL⟩ := hlinks
  have hplaced := hL.placed_of_check hcheck
  have hsized := sized_of_textOf (hL.short_text hfits.text)
  obtain ⟨A, B, rfl⟩ := hL.split_get? hget
  have hwidth : t.isWhitespace = true → t.width < signedLimit := by
    intro hw
    exact hsized.leads (start, t) (by simp) (by simp [Token.leads, hw, hb])
  obtain ⟨e, M, hok, hM, hre, -⟩ := hL.setIndent hfits.room hlevel hwidth
  have hnext : c.next? start ≠ none ↔ B ≠ [] := by
    rw [hL.next?_at]
    cases B <;> simp
  refine ⟨e, hok, ?_, ?_⟩
  · intro hagain hbreak
    exact hre.misplaces hplaced hbreak.whitespace hbreak.inside (hnext.mp hbreak.followed)
      hbreak.width hbreak.broken (hM.placed_of_check hagain)
  · intro hnot
    have hplain : t.isWhitespace = true → t.endsLine = false → B ≠ [] → t.width ≠ level →
        t.plain := by
      intro hw he hB hne
      by_contra hbroken
      exact hnot ⟨hw, he, hnext.mpr hB, hne, hbroken⟩
    obtain ⟨-, hplaced', hsized'⟩ := hre.places hplaced hsized hb hlevel hplain
    exact hM.check_of_placed hplaced' hsized'

/-- Whitespace that goes on behind its line break, with code behind it, and a line below. -/
def brokenLead : List (Kind × String) :=
  [(.whitespace, "\n  "), (.identifier, "x"), (.whitespace, "\r\n"), (.whitespace, "\t"),
    (.number, "1")]

theorem checked_brokenLead :
    (∃ L, (TokenChain.ofParts brokenLead Features.all).Holds L) ∧
    (TokenChain.ofParts brokenLead Features.all).check = .ok none ∧
    (TokenChain.ofParts brokenLead Features.all).Fits 1 := by
  have hroom : (place brokenLead Features.all).length ≤ slotLimit := by decide
  obtain ⟨L, hL⟩ := TokenChain.linked_ofList hroom
  exact ⟨⟨L, hL⟩, by decide +kernel, by decide +kernel⟩

/-- The line below is indented, and the chain passes the check again. -/
theorem line_below_a_broken_lead_keeps_the_check :
    (TokenChain.ofParts brokenLead Features.all).check = .ok none ∧
    LayoutOp.Starts (TokenChain.ofParts brokenLead Features.all) ⟨3, 0⟩ ∧
    ∃ e, (TokenChain.ofParts brokenLead Features.all).setIndent ⟨3, 0⟩ 4 = .ok e ∧
      e.chain.check = .ok none := by
  obtain ⟨hlinks, hcheck, hfits⟩ := checked_brokenLead
  obtain ⟨e, hok, hagain⟩ := indenting_keeps_the_check_unless_a_break_is_replaced
    (TokenChain.ofParts brokenLead Features.all) ⟨3, 0⟩
    { text := "\t", kind := .whitespace, beginsLine := true, row := 2 } 4 hlinks hcheck hfits
    (by decide +kernel) rfl (by decide)
  refine ⟨hcheck, by decide +kernel, e, hok, hagain.mpr fun hbreak => hbreak.broken (by decide)⟩

/-- The whitespace itself is resized, and the code behind it is on the wrong row. -/
theorem broken_lead_fails_the_check :
    (∃ L, (TokenChain.ofParts brokenLead Features.all).Holds L) ∧
    (TokenChain.ofParts brokenLead Features.all).check = .ok none ∧
    (TokenChain.ofParts brokenLead Features.all).Fits 1 ∧
    LayoutOp.Starts (TokenChain.ofParts brokenLead Features.all) ⟨0, 0⟩ ∧
    ((TokenChain.ofParts brokenLead Features.all).setIndent ⟨0, 0⟩ 4).bind
      (fun e => e.chain.check) = .ok (some (.misplaced 1 ⟨0, 4⟩ ⟨1, 3⟩)) := by
  obtain ⟨hlinks, hcheck, hfits⟩ := checked_brokenLead
  exact ⟨hlinks, hcheck, hfits, by decide +kernel, by decide +kernel⟩

end LineLayout
