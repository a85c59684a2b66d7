-- The lines of a chain that passes the check. Three walks look for lines: one collects the tokens
-- that begin a line, one goes forward to the token that ends it, and one goes back from a comment
-- over whitespace. In a chain that passes the check all three mean the same lines, and these lines
-- cut the chain into pieces. The last line may lack the mark at its end, and a line may go over
-- several rows.
import LineLayout.Proofs.ExactSeparation
import LineLayout.Proofs.LinesWithCode

namespace LineLayout

namespace TokenChain

/-- The tokens from one token to the last one of its line. -/
def segment (c : TokenChain) (id : TokenId) : List Entry :=
  (c.lineLast? id).elim [] (c.stretch id)

/-- The tokens that begin a line cut the chain into its lines. The lines one after the other are
the chain, and no token stands in two of them. From every token of a line on, the line ends at the
same token, and behind that one comes the start of the next line. A comment stands alone exactly
when only whitespace comes before it in its line. -/
structure CutIntoLines (c : TokenChain) : Prop where
  whole : c.lineHeads.flatMap c.segment = c.entries
  apart : c.lineHeads.Pairwise fun id other =>
    ((c.segment id).map Prod.fst).Disjoint ((c.segment other).map Prod.fst)
  begins : ∀ id ∈ c.lineHeads, ∃ t rest, c.segment id = (id, t) :: rest ∧
    t.beginsLine = true ∧ ∀ e ∈ rest, e.2.beginsLine = false
  ends : ∀ id ∈ c.lineHeads, ∃ last, (c.segment id).getLast? = some last ∧
    ∀ e ∈ c.segment id, c.lineLast? e.1 = some last.1
  next : ∀ P id Q, c.lineHeads = P ++ id :: Q →
    ∀ last ∈ (c.segment id).getLast?, c.next? last.1 = Q.head?
  standalone : ∀ id ∈ c.lineHeads, ∀ A comment B, c.segment id = A ++ comment :: B →
    comment.2.isComment = true →
      c.standaloneStart? comment.1 = if ∀ e ∈ A, e.2.isWhitespace = true then some id else none

end TokenChain

/-! ## One line among others -/

theorem split_behind_whitespace {W A B rest : List Entry} {first e : Entry}
    (hW : ∀ x ∈ W, x.2.isWhitespace = true) (he : e.2.isWhitespace = false)
    (h : W ++ first :: rest = A ++ e :: B) :
    (A = W ∧ e = first) ∨ ∃ body, A = W ++ first :: body ∧ rest = body ++ e :: B := by
  induction W generalizing A with
  | nil =>
    cases A with
    | nil => exact Or.inl ⟨rfl, (List.cons.inj h).1.symm⟩
    | cons a A =>
      obtain ⟨rfl, hrest⟩ := List.cons.inj h
      exact Or.inr ⟨A, rfl, hrest⟩
  | cons x W ih =>
    rw [List.forall_mem_cons] at hW
    cases A with
    | nil =>
      obtain ⟨rfl, -⟩ := List.cons.inj h
      rw [hW.1] at he
      cases he
    | cons a A =>
      obtain ⟨rfl, hrest⟩ := List.cons.inj h
      rcases ih hW.2 hrest with ⟨rfl, hfirst⟩ | ⟨body, rfl, hbody⟩
      · exact Or.inl ⟨rfl, hfirst⟩
      · exact Or.inr ⟨body, rfl, hbody⟩

section Line

variable {c : TokenChain} {P Q : List (Line Entry)} {l : Line Entry}

theorem PlacedAfter.items_end (hp : PlacedAfter none (flat (P ++ l :: Q)))
    (hls : ∀ k ∈ P ++ l :: Q, k.Proper) :
    ∃ body last, l.items = body ++ [last] ∧ (∀ x ∈ body, x.2.endsLine = false) ∧
      (last.2.endsLine = true ∨ flat Q = []) := by
  simp only [List.forall_mem_append, List.forall_mem_cons] at hls
  rw [flat_append, flat_cons, l.items_eq] at hp
  rw [l.items_eq]
  exact (placed_append.mp hp).2.line_ends hls.2.1.behind (head?_flat hls.2.2)

namespace TokenChain

theorem Holds.lineLast?_items (h : c.Holds (flat (P ++ l :: Q)))
    (hp : PlacedAfter none (flat (P ++ l :: Q))) (hls : ∀ k ∈ P ++ l :: Q, k.Proper) :
    ∃ last, l.items.getLast? = some last ∧ ∀ e ∈ l.items, c.lineLast? e.1 = some last.1 := by
  obtain ⟨body, last, hitems, hbody, hend⟩ := hp.items_end hls
  refine ⟨last, by rw [hitems, List.getLast?_concat], ?_⟩
  have hat : c.Holds ((flat P ++ body) ++ last :: flat Q) := by
    simpa [flat_append, flat_cons, hitems] using h
  intro e he
  apply hat.lineLast?_of_ends
  rw [hitems] at he
  rcases List.mem_append.mp he with hin | hlast
  · obtain ⟨A, S, rfl⟩ := List.append_of_mem hin
    refine ⟨⟨flat P ++ A, e :: S, by simp, rfl, ?_⟩, hend⟩
    intro x hx
    exact hbody x (by simp only [List.mem_append]; exact Or.inr hx)
  · rw [List.mem_singleton.mp hlast]
    exact ⟨⟨flat P ++ body, [], by simp, rfl, by simp⟩, hend⟩

theorem Holds.segment_start (h : c.Holds (flat (P ++ l :: Q)))
    (hp : PlacedAfter none (flat (P ++ l :: Q))) (hls : ∀ k ∈ P ++ l :: Q, k.Proper) :
    c.segment l.start.1 = l.items := by
  obtain ⟨last, hlast, hall⟩ := h.lineLast?_items hp hls
  unfold segment
  rw [hall l.start (by rw [l.items_eq]; exact List.mem_cons_self)]
  rw [flat_append, flat_cons] at h
  exact h.stretch_eq (by rw [l.items_eq]; rfl) hlast

theorem Holds.next?_line (h : c.Holds (flat (P ++ l :: Q))) {last : Entry}
    (hlast : l.items.getLast? = some last) :
    c.next? last.1 = (Q.map fun k => k.start.1).head? := by
  obtain ⟨body, hitems⟩ := List.getLast?_eq_some_iff.mp hlast
  have hat : c.Holds ((flat P ++ body) ++ (last.1, last.2) :: flat Q) := by
    simpa [flat_append, flat_cons, hitems] using h
  rw [hat.next?_at]
  cases Q with
  | nil => rfl
  | cons k Q => rw [flat_cons, k.items_eq]; rfl

/-- A comment of a line stands alone exactly when only whitespace comes before it. -/
theorem Holds.standaloneStart?_line (h : c.Holds (flat (P ++ l :: Q)))
    (hls : ∀ k ∈ P ++ l :: Q, k.Proper) {A B : List Entry} {comment : Entry}
    (hitems : l.items = A ++ comment :: B) (hcomment : comment.2.isComment = true) :
    c.standaloneStart? comment.1 =
      if ∀ e ∈ A, e.2.isWhitespace = true then some l.start.1 else none := by
  have hl := hls l (by simp)
  have hvisible : comment.2.isWhitespace = false := by
    simp only [Token.isComment, beq_iff_eq] at hcomment
    simp [Token.isWhitespace, hcomment]
  rw [flat_append, flat_cons] at h
  cases l with
  | blank item =>
    obtain ⟨rfl, rfl⟩ : A = [] ∧ comment = item := by
      cases A <;> simp_all [Line.items]
    rw [hl.1] at hvisible
    cases hvisible
  | content lead first rest =>
    have hlead : ∀ e ∈ lead.toList, e.2.isWhitespace = true := by
      simpa using hl.lead.1
    rcases split_behind_whitespace hlead hvisible hitems with ⟨rfl, rfl⟩ | ⟨body, rfl, rfl⟩
    · rw [if_pos hlead]
      exact h.standaloneStart?_first hl
    · have hfirst : ¬ ∀ e ∈ lead.toList ++ first :: body, e.2.isWhitespace = true := by
        intro hall
        have hw := hall first (by simp)
        rw [hl.inside.1] at hw
        cases hw
      rw [if_neg hfirst]
      exact h.standaloneStart?_rest hl (by simp)

end TokenChain

end Line

/-! ## All lines -/

/-- A chain that passes the check is cut into lines by the tokens that begin one: each line runs to
where every token of it finds the end of its line, and a comment of it stands alone exactly when
only whitespace comes before it there. -/
theorem checked_chain_is_cut_into_lines (c : TokenChain) (L : List Entry) (h : c.Holds L)
    (hcheck : c.check = .ok none) : c.CutIntoLines := by
  have hp := h.placed_of_check hcheck
  obtain ⟨ls, rfl, hls⟩ := hp.lines
  have hheads := h.lineHeads_eq hls
  have hsegment : ∀ l ∈ ls, c.segment l.start.1 = l.items := by
    intro l hl
    obtain ⟨P, Q, rfl⟩ := List.append_of_mem hl
    exact h.segment_start hp hls
  have hwhole : c.lineHeads.flatMap c.segment = c.entries := by
    rw [hheads, h.entries_eq, List.flatMap_map, flat]
    exact List.flatMap_congr hsegment
  have hline : ∀ id ∈ c.lineHeads, ∃ P l Q, ls = P ++ l :: Q ∧ id = l.start.1 ∧
      c.segment id = l.items := by
    intro id hid
    rw [hheads] at hid
    obtain ⟨l, hl, rfl⟩ := List.mem_map.mp hid
    obtain ⟨P, Q, rfl⟩ := List.append_of_mem hl
    exact ⟨P, l, Q, rfl, rfl, hsegment l hl⟩
  refine ⟨hwhole, ?_, ?_, ?_, ?_, ?_⟩
  · have hdistinct := h.distinct
    rw [← h.entries_eq, ← hwhole, List.map_flatMap, List.nodup_flatMap] at hdistinct
    exact hdistinct.2
  · intro id hid
    obtain ⟨P, l, Q, rfl, rfl, hitems⟩ := hline id hid
    have hl := hls l (by simp)
    refine ⟨l.start.2, l.behind, ?_, hl.begins, hl.behind⟩
    rw [hitems, l.items_eq]
  · intro id hid
    obtain ⟨P, l, Q, rfl, rfl, hitems⟩ := hline id hid
    rw [hitems]
    exact h.lineLast?_items hp hls
  · intro P' id Q' hsplit last hlast
    rw [hheads] at hsplit
    obtain ⟨P, rest, rfl, -, hrest⟩ := List.map_eq_append_iff.mp hsplit
    obtain ⟨l, Q, rfl, rfl, rfl⟩ := List.map_eq_cons_iff.mp hrest
    rw [hsegment l (by simp)] at hlast
    exact h.next?_line hlast
  · intro id hid A comment B hsplit hcomment
    obtain ⟨P, l, Q, rfl, rfl, hitems⟩ := hline id hid
    rw [hitems] at hsplit
    exact h.standaloneStart?_line hls hsplit hcomment

/-- Two comments on a line over two rows, a blank line, and a last line that lacks its mark. -/
def unmarkedTokens : List Token :=
  placeFrom Features.none ⟨0, 0⟩ true
    [(.whitespace, "  "), (.comment, "\x7b a\n b \x7d"), (.comment, "// c"), (.whitespace, "\n"),
      (.whitespace, " \n"), (.whitespace, "\t"), (.comment, "\x7b d \x7d")]

theorem unmarked_tokens_are_cut_into_lines :
    (∃ L, (TokenChain.ofList unmarkedTokens).Holds L) ∧
    (TokenChain.ofList unmarkedTokens).check = .ok none ∧
    (TokenChain.ofList unmarkedTokens).CutIntoLines ∧
    (TokenChain.ofList unmarkedTokens).lineHeads = [⟨0, 0⟩, ⟨4, 0⟩, ⟨5, 0⟩] ∧
    (TokenChain.ofList unmarkedTokens).standaloneStart? ⟨1, 0⟩ = some ⟨0, 0⟩ ∧
    (TokenChain.ofList unmarkedTokens).standaloneStart? ⟨2, 0⟩ = none := by
  obtain ⟨L, hL⟩ := TokenChain.linked_ofList (by decide : unmarkedTokens.length ≤ slotLimit)
  have hcheck : (TokenChain.ofList unmarkedTokens).check = .ok none := by decide +kernel
  exact ⟨⟨L, hL⟩, hcheck, checked_chain_is_cut_into_lines _ L hL hcheck, by decide +kernel⟩

end LineLayout
