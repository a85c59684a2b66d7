-- Keeping lines apart, for any marks and places. The line of a token ends at the first token at or
-- behind it that ends a line, or at the last token of all. Unless a blank line follows there, one
-- line break comes in behind it and every later token moves down one row. A second call finds that
-- line break and has nothing to do.
import LineLayout.Proofs.BlankLines

namespace LineLayout

theorem Token.isBlankLine_iff {t : Token} :
    t.isBlankLine = true ↔ t.isWhitespace = true ∧ t.endsLine = true := by
  simp [Token.isBlankLine]

theorem editAll_shiftRow_one {L : List Entry} (h : ∀ e ∈ L, e.2.row < wordLimit - 1) :
    editAll (·.shiftRow 1) L = L.map fun e => (e.1, { e.2 with row := e.2.row + 1 }) := by
  apply List.map_congr_left
  intro e he
  have hrow := h e he
  exact congrArg (Prod.mk e.1) (Token.shiftRow_succ (by omega))

/-! ## Where a line ends -/

/-- The line of `id` ends at `last`, with these entries in front of it and behind it: from `id` on,
no token in front of `last` ends a line, and `last` does, or is the last one of all. -/
structure LineEndsAt (id : TokenId) (front : List Entry) (last : Entry) (behind : List Entry) :
    Prop where
  inside : ∃ A S, front = A ++ S ∧ frontId (S ++ [last]) = some id ∧
    ∀ e ∈ S, e.2.endsLine = false
  ends : last.2.endsLine = true ∨ behind = []

namespace TokenChain

section LineEnd

variable {c : TokenChain} {id : TokenId} {front behind : List Entry} {last : Entry}

theorem Holds.lineLast?_of_ends (h : c.Holds (front ++ last :: behind))
    (hl : LineEndsAt id front last behind) : c.lineLast? id = some last.1 := by
  obtain ⟨⟨A, S, rfl, hfront, hS⟩, hends⟩ := hl
  have hfrom : c.entriesFrom id = S ++ last :: behind := by
    cases S with
    | nil =>
      cases hfront
      have hat : c.Holds (A ++ (last.1, last.2) :: behind) := by simpa using h
      exact hat.entriesFrom_at
    | cons e S =>
      cases hfront
      have hat : c.Holds (A ++ (e.1, e.2) :: (S ++ last :: behind)) := by simpa using h
      exact hat.entriesFrom_at
  have hnone : S.find? (fun e => e.2.endsLine) = none := by
    rw [List.find?_eq_none]
    intro e he
    simp [hS e he]
  unfold TokenChain.lineLast?
  simp only [hfrom, List.find?_append, hnone, Option.none_or]
  by_cases hend : last.2.endsLine = true
  · simp [hend]
  · simp [hend, hends.resolve_left hend]

theorem Holds.exists_lineEnd {L : List Entry} (h : c.Holds L) (hlive : c.contains id = true) :
    ∃ front last behind, L = front ++ last :: behind ∧ LineEndsAt id front last behind := by
  obtain ⟨A, t, B, rfl⟩ := h.split hlive
  obtain ⟨S, last, tl, R, hsplit, hS, hend, -⟩ := h.lineLast?
  refine ⟨A ++ S, (last, tl), R, by rw [hsplit, List.append_assoc], ⟨A, S, rfl, ?_, hS⟩, hend⟩
  have hid : frontId ((S ++ [(last, tl)]) ++ R) = some id := by
    rw [List.append_assoc, List.singleton_append, ← hsplit, frontId_cons]
  cases S with
  | nil => exact hid
  | cons e S => exact hid

end LineEnd

/-! ## The first call and the second -/

/-- What keeping lines apart makes of a chain whose line ends at `last`. At the last line of all,
and in front of a blank line, the chain is the same. In front of any other token one line break
comes in, and what is behind it goes down. A second call has nothing to do. -/
structure KeptApart (c : TokenChain) (id : TokenId) (front : List Entry) (last : Entry)
    (behind : List Entry) (e : Edited (Option TokenId)) : Prop where
  stays : (∀ n ∈ behind.head?, n.2.isWhitespace = true ∧ n.2.endsLine = true) →
    e = c.unchanged none
  inserted : ∀ n rest, behind = n :: rest → ¬ (n.2.isWhitespace = true ∧ n.2.endsLine = true) →
    ∃ new, e.value = some new ∧ new ∉ (front ++ last :: behind).map Prod.fst ∧
      e.chain.Holds (front ++ last ::
        (new, { text := "\n", kind := .whitespace, beginsLine := true, endsLine := true,
                features := n.2.features, row := n.2.row, col := 0 }) ::
        behind.map fun x => (x.1, { x.2 with row := x.2.row + 1 }))
  again : e.chain.withBlankLineAfter id = .ok (e.chain.unchanged none)

section KeptApart

variable {c : TokenChain} {id : TokenId} {front behind : List Entry} {last : Entry}

/-- Where no blank line has to come in, the second call is the first one again. -/
theorem Holds.keptApart_of_blank (h : c.Holds (front ++ last :: behind))
    (hl : LineEndsAt id front last behind)
    (hblank : ∀ n ∈ behind.head?, n.2.isBlankLine = true) :
    c.withBlankLineAfter id = .ok (c.unchanged none) ∧
      c.KeptApart id front last behind (c.unchanged none) := by
  have hrests := h.withBlankLineAfter_rests (h.lineLast?_of_ends hl) hl.ends hblank
  refine ⟨hrests, fun _ => rfl, ?_, hrests⟩
  rintro n rest rfl hnot
  exact absurd (Token.isBlankLine_iff.mp (hblank n rfl)) hnot

/-- The line break that came in is a blank line for the second call, at the same end of line. -/
theorem Holds.keptApart_of_content {n : Entry} {rest : List Entry}
    (h : c.Holds (front ++ last :: n :: rest)) (hl : LineEndsAt id front last (n :: rest))
    (hroom : c.slots.size < slotLimit) (hrows : ∀ e ∈ n :: rest, e.2.row < wordLimit - 1)
    (hnot : n.2.isBlankLine = false) :
    ∃ e, c.withBlankLineAfter id = .ok e ∧ c.KeptApart id front last (n :: rest) e := by
  obtain ⟨e, L, hok, hL, hsep, -⟩ :=
    h.withBlankLineAfter_at (h.lineLast?_of_ends hl) hl.ends hroom
  refine ⟨e, hok, ?_⟩
  generalize hvalue : e.value = value at hsep
  cases hsep with
  | stays hblank =>
    rw [hblank n rfl] at hnot
    cases hnot
  | inserted new next t rest' hR _ hfresh =>
    obtain ⟨rfl, rfl⟩ := List.cons.inj hR
    rw [editAll_shiftRow_one hrows] at hL
    refine ⟨?_, ?_, ?_⟩
    · intro hblank
      have hyes := Token.isBlankLine_iff.mpr (hblank (next, t) rfl)
      rw [hyes] at hnot
      cases hnot
    · rintro n rest hn -
      obtain ⟨rfl, rfl⟩ := List.cons.inj hn
      exact ⟨new, hvalue, hfresh, hL⟩
    · have hends : LineEndsAt id front last ((new, t.blankLineBefore) ::
          ((next, t) :: rest).map fun e => (e.1, { e.2 with row := e.2.row + 1 })) :=
        ⟨hl.inside, Or.inl (hl.ends.resolve_right (by simp))⟩
      exact hL.withBlankLineAfter_rests (hL.lineLast?_of_ends hends) hends.ends (by
        rintro x ⟨⟩
        rfl)

end KeptApart

end TokenChain

/-- Whatever the marks and places are, a blank line comes in where none follows the line of a live
token, nothing else changes but the rows behind it, and a second call changes nothing at all. -/
theorem a_blank_line_comes_in_once (c : TokenChain) (L : List Entry) (id : TokenId) (h : c.Holds L)
    (hroom : c.slots.size < slotLimit) (hrows : ∀ e ∈ L, e.2.row < wordLimit - 1)
    (hlive : c.contains id = true) :
    (∃ front last behind, L = front ++ last :: behind ∧ LineEndsAt id front last behind) ∧
    ∀ front last behind, L = front ++ last :: behind → LineEndsAt id front last behind →
      ∃ e, c.withBlankLineAfter id = .ok e ∧ c.KeptApart id front last behind e := by
  refine ⟨h.exists_lineEnd hlive, ?_⟩
  rintro front last behind rfl hl
  by_cases hblank : ∀ n ∈ behind.head?, n.2.isBlankLine = true
  · exact ⟨_, h.keptApart_of_blank hl hblank⟩
  · cases behind with
    | nil => exact absurd (by simp) hblank
    | cons n rest =>
      simp only [List.forall_mem_append, List.forall_mem_cons] at hrows
      refine h.keptApart_of_content hl hroom ?_ (by simpa using hblank)
      rw [List.forall_mem_cons]
      exact hrows.2.2

/-- A line over two rows, and below it a token that does not begin a line. -/
def looseLine : List Token :=
  [{ text := "a", kind := .identifier, row := 5, col := 9 },
    { text := "\x7b\n\x7d", kind := .comment, beginsLine := true, row := 5 },
    { text := ";", kind := .symbol, endsLine := true, row := 2 },
    { text := "b", kind := .number, features := Features.none, row := 7, col := 3 },
    { text := "\n", kind := .whitespace, endsLine := true, row := 1, col := 1 }]

theorem loose_line_gets_one_blank_line :
    ∃ front last behind e, (TokenChain.ofList looseLine).entries = front ++ last :: behind ∧
      last.1 = ⟨2, 0⟩ ∧ LineEndsAt ⟨0, 0⟩ front last behind ∧
      (TokenChain.ofList looseLine).withBlankLineAfter ⟨0, 0⟩ = .ok e ∧
      (TokenChain.ofList looseLine).KeptApart ⟨0, 0⟩ front last behind e ∧
      e.value = some ⟨5, 0⟩ := by
  obtain ⟨L, hL⟩ := TokenChain.linked_ofList (by decide : looseLine.length ≤ slotLimit)
  have hentries := hL.entries_eq
  subst hentries
  have honce := a_blank_line_comes_in_once _ _ ⟨0, 0⟩ hL (by decide) (by decide) (by decide)
  obtain ⟨front, last, behind, hsplit, hl⟩ := honce.1
  obtain ⟨e, hok, hkept⟩ := honce.2 front last behind hsplit hl
  have hlast : last.1 = ⟨2, 0⟩ := by
    have hdecided : (TokenChain.ofList looseLine).lineLast? ⟨0, 0⟩ = some ⟨2, 0⟩ := by decide
    rw [hsplit] at hL
    exact Option.some.inj ((hL.lineLast?_of_ends hl).symm.trans hdecided)
  refine ⟨front, last, behind, e, hsplit, hlast, hl, hok, hkept, ?_⟩
  have hvalue : ((TokenChain.ofList looseLine).withBlankLineAfter ⟨0, 0⟩).map Edited.value =
      .ok (some ⟨5, 0⟩) := by decide
  rw [hok] at hvalue
  exact Except.ok.inj hvalue

end LineLayout
