-- The edits of a chain as edits of its list. Under `Holds` a shift changes one stretch of the
-- list, and setting an indentation ends in one of four ways: the list stays, the leading
-- whitespace gets a new text, it goes, or a new one comes. None of this needs places or marks
-- to be right.
import LineLayout.LeadingWhitespace
import LineLayout.Separation
import LineLayout.Proofs.Links

namespace LineLayout

/-! ## Stretches -/

/-- Every token of a stretch is changed. -/
def editAll (f : Token → Token) (S : List Entry) : List Entry := S.map fun e => (e.1, f e.2)

@[simp] theorem editAll_nil (f : Token → Token) : editAll f [] = [] := rfl

@[simp] theorem editAll_cons (f : Token → Token) (e : Entry) (S : List Entry) :
    editAll f (e :: S) = (e.1, f e.2) :: editAll f S := rfl

theorem editAll_map {α : Type} (g : Entry → α) {f : Token → Token}
    (hg : ∀ e : Entry, g (e.1, f e.2) = g e) (S : List Entry) : (editAll f S).map g = S.map g := by
  simp [editAll, Function.comp_def, hg]

/-- The columns of the entries on a row are moved, up to the first entry on another row. -/
def moveRow (row : Nat) (delta : Int) : List Entry → List Entry
  | [] => []
  | e :: rest =>
    if e.2.row = row then (e.1, e.2.shiftColumn delta) :: moveRow row delta rest
    else e :: rest

theorem moveRow_eq (row : Nat) (delta : Int) (L : List Entry) :
    moveRow row delta L =
      editAll (·.shiftColumn delta) (L.takeWhile fun e => e.2.row == row) ++
        L.dropWhile fun e => e.2.row == row := by
  induction L with
  | nil => rfl
  | cons e rest ih =>
    by_cases he : e.2.row = row
    · simp [moveRow, he, ih]
    · simp [moveRow, he]

theorem moveRow_map {α : Type} (g : Entry → α) {delta : Int}
    (hg : ∀ e : Entry, g (e.1, e.2.shiftColumn delta) = g e) (row : Nat) (L : List Entry) :
    (moveRow row delta L).map g = L.map g := by
  induction L with
  | nil => rfl
  | cons e rest ih =>
    by_cases he : e.2.row = row
    · simp [moveRow, he, ih, hg]
    · simp [moveRow, he]

namespace TokenChain

theorem sameSlots_modify (c : TokenChain) (id : TokenId) (f : Token → Token) :
    c.SameSlots (c.modify id f) :=
  sameSlots_modifyNode c id _

/-- The tokens of a stretch are changed one after the other. -/
theorem Holds.editStretch {c : TokenChain} {A S B : List Entry} (h : c.Holds (A ++ S ++ B))
    (f : Token → Token) :
    (S.foldl (fun chain entry => chain.modify entry.1 f) c).Holds (A ++ editAll f S ++ B) ∧
      c.SameSlots (S.foldl (fun chain entry => chain.modify entry.1 f) c) := by
  induction S generalizing c A with
  | nil => exact ⟨h, .refl c⟩
  | cons e rest ih =>
    have hat : c.Holds (A ++ (e.1, e.2) :: (rest ++ B)) := by simpa using h
    have hnext : (c.modify e.1 f).Holds ((A ++ [(e.1, f e.2)]) ++ rest ++ B) := by
      simpa using hat.modify f
    obtain ⟨hall, hslots⟩ := ih hnext
    exact ⟨by simpa using hall, (sameSlots_modify c e.1 f).trans hslots⟩

theorem Holds.staleLinkAfter? {c : TokenChain} {A S B : List Entry}
    (h : c.Holds (A ++ S ++ B)) : c.staleLinkAfter? S = none := by
  unfold TokenChain.staleLinkAfter?
  rcases List.eq_nil_or_concat S with rfl | ⟨front, e, rfl⟩
  · rfl
  · rw [List.concat_eq_append] at h ⊢
    have hat : c.Holds ((A ++ front) ++ (e.1, e.2) :: B) := by simpa using h
    rw [List.getLast?_concat, Option.bind_some, hat.next?_at, Option.filter_eq_none_iff]
    intro id hid
    have hlive : c.contains id = true := by
      rw [h.live_iff, List.map_append, List.mem_append]
      exact Or.inr (mem_of_frontId hid)
    simp [hlive]

theorem Holds.modifyStretch {c : TokenChain} {A S B : List Entry} (h : c.Holds (A ++ S ++ B))
    (f : Token → Token) :
    ∃ d, c.modifyStretch S f = .ok d ∧ d.Holds (A ++ editAll f S ++ B) ∧ c.SameSlots d := by
  refine ⟨_, ?_, h.editStretch f⟩
  unfold TokenChain.modifyStretch
  rw [h.staleLinkAfter?]

theorem Holds.shiftColumns {c : TokenChain} {A B : List Entry} {id : TokenId} {token : Token}
    (h : c.Holds (A ++ (id, token) :: B)) (delta : Int) (hd : delta ≠ 0) :
    ∃ d, c.shiftColumns id delta = .ok d ∧
      d.Holds (A ++ moveRow token.row delta ((id, token) :: B)) ∧ c.SameSlots d := by
  have hrow : c.rowStretch id = ((id, token) :: B).takeWhile fun e => e.2.row == token.row := by
    unfold rowStretch
    rw [h.get?_at, h.entriesFrom_at]
  have hsplit := List.takeWhile_append_dropWhile (l := (id, token) :: B)
    (p := fun e => e.2.row == token.row)
  have hparts : c.Holds (A ++ (((id, token) :: B).takeWhile fun e => e.2.row == token.row) ++
      ((id, token) :: B).dropWhile fun e => e.2.row == token.row) := by
    rw [List.append_assoc, hsplit]
    exact h
  obtain ⟨d, hok, hL, hslots⟩ := hparts.modifyStretch (·.shiftColumn delta)
  refine ⟨d, ?_, ?_, hslots⟩
  · unfold TokenChain.shiftColumns
    rw [if_neg hd, hrow, hok]
  · rw [moveRow_eq, ← List.append_assoc]
    exact hL

theorem Holds.shiftRows {c : TokenChain} {A B : List Entry} {id : TokenId} {token : Token}
    (h : c.Holds (A ++ (id, token) :: B)) (delta : Int) (hd : delta ≠ 0) :
    ∃ d, c.shiftRows id delta = .ok d ∧
      d.Holds (A ++ editAll (·.shiftRow delta) ((id, token) :: B)) ∧ c.SameSlots d := by
  have hparts : c.Holds (A ++ (id, token) :: B ++ []) := by simpa using h
  obtain ⟨d, hok, hL, hslots⟩ := hparts.modifyStretch (·.shiftRow delta)
  refine ⟨d, ?_, by simpa using hL, hslots⟩
  unfold TokenChain.shiftRows
  rw [if_neg hd, h.entriesFrom_at, hok]

/-! ## Indentation -/

end TokenChain

/-- The text of an indentation. -/
def blanks (level : Nat) : String := String.ofList (List.replicate level ' ')

theorem spaces_of_lt {level : Nat} (h : level < signedLimit) :
    spaces level = .ok (blanks level) := by
  simp [spaces, blanks, h]

/-- What setting an indentation does to the list `A ++ (start, t) :: B`: the token that begins
the line afterwards, and the list afterwards. `move` moves the columns of a row. A blank line stays
as it is, and so do the right width and content that is to stand at the front. -/
inductive Reindented (move : Nat → Int → List Entry → List Entry) (A : List Entry)
    (start : TokenId) (t : Token) (B : List Entry) (level : Nat) :
    TokenId → List Entry → Prop where
  | stays : (t.isWhitespace = true → B = [] ∨ t.endsLine = true ∨ t.width = level) →
      (t.isWhitespace = false → level = 0) →
      Reindented move A start t B level start (A ++ (start, t) :: B)
  | resized (next : TokenId) (n : Token) (rest : List Entry) : B = (next, n) :: rest →
      t.isWhitespace = true → t.endsLine = false → t.width ≠ level → level ≠ 0 →
      Reindented move A start t B level start
        (A ++ (start, { t with text := blanks level }) ::
          move n.row ((level : Int) - t.width) ((next, n) :: rest))
  | removed (next : TokenId) (n : Token) (rest : List Entry) : B = (next, n) :: rest →
      t.isWhitespace = true → t.endsLine = false → t.width ≠ 0 → level = 0 →
      Reindented move A start t B level next
        (A ++ move n.row (-t.width) ((next, { n with beginsLine := true }) :: rest))
  | inserted (new : TokenId) : t.isWhitespace = false → level ≠ 0 →
      new ∉ (A ++ (start, t) :: B).map Prod.fst →
      Reindented move A start t B level new
        (A ++ (new, t.leading (blanks level)) ::
          move t.row level ((start, { t with beginsLine := false }) :: B))

namespace TokenChain

theorem recycles_erase {c d : TokenChain} {id : TokenId} {token : Token}
    (h : c.erase id = some (token, d)) : c.Recycles d := by
  obtain ⟨node, hn, hd⟩ := Option.map_eq_some_iff.mp h
  cases hd
  exact (recycles_release hn).trans_sameSlots
    ((sameSlots_linkForward _ _ _).trans (sameSlots_linkBackward _ _ _))

theorem Tidy.recycles_insertBefore {c : TokenChain} (h : c.Tidy) (hroom : c.slots.size < slotLimit)
    (anchor : TokenId) (token : Token) : c.Recycles (c.insertBefore anchor token).2 :=
  (h.recycles_alloc hroom _).trans_sameSlots
    ((sameSlots_linkForward _ _ _).trans (sameSlots_modifyNode _ _ _))

theorem Tidy.recycles_insertAfter {c : TokenChain} (h : c.Tidy) (hroom : c.slots.size < slotLimit)
    (anchor : TokenId) (token : Token) : c.Recycles (c.insertAfter anchor token).2 :=
  (h.recycles_alloc hroom _).trans_sameSlots
    ((sameSlots_linkBackward _ _ _).trans (sameSlots_modifyNode _ _ _))

section Indentation

variable {c : TokenChain} {A B : List Entry} {start : TokenId} {t : Token} {level : Nat}

theorem Holds.resizeLeading {next : TokenId} {n : Token} {rest : List Entry}
    (h : c.Holds (A ++ (start, t) :: (next, n) :: rest)) (hlevel : level < signedLimit)
    (hchange : widthChange t.width level = .ok ((level : Int) - t.width))
    (hne : t.width ≠ level) :
    ∃ e, c.resizeLeading start next t level = .ok e ∧ e.value = start ∧
      e.chain.Holds (A ++ (start, { t with text := blanks level }) ::
        moveRow n.row ((level : Int) - t.width) ((next, n) :: rest)) ∧
      c.Recycles e.chain := by
  have hmod := h.modify fun t => { t with text := blanks level }
  have hat : (c.modify start fun t => { t with text := blanks level }).Holds
      ((A ++ [(start, { t with text := blanks level })]) ++ (next, n) :: rest) := by
    simpa using hmod
  obtain ⟨d, hok, hL, hslots⟩ := hat.shiftColumns ((level : Int) - t.width) (by omega)
  refine ⟨⟨start, d, [.resizedIndentation t.row t.width level]⟩, ?_, rfl, by simpa using hL,
    ((sameSlots_modify _ _ _).trans hslots).recycles⟩
  unfold TokenChain.resizeLeading
  rw [hchange, spaces_of_lt hlevel]
  simp only [bind, Except.bind, hok]
  rfl

theorem Holds.removeLeading {next : TokenId} {n : Token} {rest : List Entry}
    (h : c.Holds (A ++ (start, t) :: (next, n) :: rest)) (hne : t.width ≠ 0) :
    ∃ e, c.removeLeading start next t.width = .ok e ∧ e.value = next ∧
      e.chain.Holds
        (A ++ moveRow n.row (-t.width) ((next, { n with beginsLine := true }) :: rest)) ∧
      c.Recycles e.chain := by
  have hnext : c.Holds ((A ++ [(start, t)]) ++ (next, n) :: rest) := by simpa using h
  have hmod := hnext.modify fun t => { t with beginsLine := true }
  obtain ⟨d, hok, hL, hslots⟩ := hmod.shiftColumns (-t.width) (by omega)
  have hat : d.Holds (A ++ (start, t) ::
      moveRow n.row (-t.width) ((next, { n with beginsLine := true }) :: rest)) := by
    simpa using hL
  obtain ⟨d', herase, hL'⟩ := hat.erase
  refine ⟨⟨next, d', [.removedIndentation n.row]⟩, ?_, rfl, hL', ?_⟩
  · unfold TokenChain.removeLeading
    rw [hnext.get_at]
    simp only [bind, Except.bind, hok, herase]
    rfl
  · exact ((sameSlots_modify _ _ _).trans hslots).trans_recycles (recycles_erase herase)

theorem Holds.insertLeading (h : c.Holds (A ++ (start, t) :: B))
    (hroom : c.slots.size < slotLimit) (hlevel : level < signedLimit) (hne : level ≠ 0) :
    ∃ e, c.insertLeading start t level = .ok e ∧
      e.value ∉ (A ++ (start, t) :: B).map Prod.fst ∧
      e.chain.Holds (A ++ (e.value, t.leading (blanks level)) ::
        moveRow t.row level ((start, { t with beginsLine := false }) :: B)) ∧
      c.Recycles e.chain := by
  have hmod := h.modify fun t => { t with beginsLine := false }
  obtain ⟨d, hok, hL, hslots⟩ := hmod.shiftColumns level (by omega)
  have hsame := (sameSlots_modify _ _ _).trans hslots
  have hmove : moveRow t.row level ((start, { t with beginsLine := false }) :: B) =
      (start, Token.shiftColumn { t with beginsLine := false } level) ::
        moveRow t.row level B := by
    simp [moveRow]
  have hids : (moveRow t.row level ((start, { t with beginsLine := false }) :: B)).map Prod.fst =
      ((start, t) :: B).map Prod.fst :=
    moveRow_map Prod.fst (fun _ => rfl) _ _
  have hdroom : d.slots.size < slotLimit := by
    rw [hsame.slotCount]
    exact hroom
  change d.Holds (A ++ moveRow t.row level ((start, { t with beginsLine := false }) :: B)) at hL
  have hfresh : (d.insertBefore start (t.leading (blanks level))).1 ∉
      (A ++ (start, t) :: B).map Prod.fst := by
    have hn := hL.stale_iff.mp (hL.tidy.node?_fresh hdroom
      ⟨t.leading (blanks level), d.prev? start, some start⟩)
    rw [List.map_append, hids, ← List.map_append] at hn
    exact hn
  have hrecycles := hsame.trans_recycles
    (hL.tidy.recycles_insertBefore hdroom start (t.leading (blanks level)))
  rw [hmove] at hL ⊢
  refine ⟨⟨(d.insertBefore start (t.leading (blanks level))).1,
    (d.insertBefore start (t.leading (blanks level))).2,
    [.insertedIndentation level t.row]⟩, ?_, hfresh, hL.insertBefore hdroom _, hrecycles⟩
  unfold TokenChain.insertLeading
  rw [spaces_of_lt hlevel]
  simp only [bind, Except.bind, hok]
  rfl

/-- A width that is out of range: the new one, or that of the whitespace that is there. -/
def OutOfRange (t : Token) (level : Nat) : Prop :=
  signedLimit ≤ level ∨ t.isWhitespace = true ∧ signedLimit ≤ t.width

/-- Resizing the leading whitespace ends well, or a width is out of range. -/
theorem Holds.resizeLeading_outcome {next : TokenId} {n : Token} {rest : List Entry}
    (h : c.Holds (A ++ (start, t) :: (next, n) :: rest)) (hws : t.isWhitespace = true)
    (hne : t.width ≠ level) :
    (∃ e, c.resizeLeading start next t level = .ok e ∧ e.value = start ∧
      e.chain.Holds (A ++ (start, { t with text := blanks level }) ::
        moveRow n.row ((level : Int) - t.width) ((next, n) :: rest)) ∧
      c.Recycles e.chain) ∨
    OutOfRange t level ∧ (c.resizeLeading start next t level = .error .differenceTooLarge ∨
      c.resizeLeading start next t level = .error .noRoom) := by
  by_cases hlevel : level < signedLimit
  · have hs : asSigned level = level := by simp [asSigned, hlevel]
    by_cases hfit : -(signedLimit : Int) ≤ (level : Int) - t.width ∧
        (level : Int) - t.width < signedLimit
    · left
      apply h.resizeLeading hlevel _ hne
      unfold widthChange
      rw [hs, if_pos hfit]
    · refine Or.inr ⟨Or.inr ⟨hws, by omega⟩, Or.inl ?_⟩
      unfold TokenChain.resizeLeading widthChange
      rw [hs, if_neg hfit]
      rfl
  · refine Or.inr ⟨Or.inl (by omega), ?_⟩
    unfold TokenChain.resizeLeading widthChange spaces
    rw [if_neg hlevel]
    split
    · exact Or.inr rfl
    · exact Or.inl rfl

/-- Nothing is done to a blank line, to a line of the right width, or to content that is to stand at
the front. -/
theorem Holds.setIndent_rests (h : c.Holds (A ++ (start, t) :: B))
    (hw : t.isWhitespace = true → B = [] ∨ t.endsLine = true ∨ t.width = level)
    (hn : t.isWhitespace = false → level = 0) :
    c.setIndent start level = .ok (c.unchanged start) := by
  unfold TokenChain.setIndent
  rw [h.get_at]
  simp only [bind, Except.bind]
  by_cases hws : t.isWhitespace = true
  · rw [if_pos hws, h.next?_at]
    cases B with
    | nil => rfl
    | cons e rest =>
      simp only [frontId_cons]
      rw [if_pos ((hw hws).resolve_left (by simp))]
      rfl
  · rw [if_neg hws, if_pos (hn (by simpa using hws))]
    rfl

theorem Holds.insertLeading_outcome (h : c.Holds (A ++ (start, t) :: B))
    (hroom : c.slots.size < slotLimit) (hws : t.isWhitespace = false) (hzero : level ≠ 0) :
    (∃ e L, c.insertLeading start t level = .ok e ∧ e.chain.Holds L ∧
      Reindented moveRow A start t B level e.value L ∧ c.Recycles e.chain) ∨
    OutOfRange t level ∧ (c.insertLeading start t level = .error .differenceTooLarge ∨
      c.insertLeading start t level = .error .noRoom) := by
  by_cases hlevel : level < signedLimit
  · obtain ⟨e, hok, hfresh, hL, hslots⟩ := h.insertLeading hroom hlevel hzero
    exact Or.inl ⟨e, _, hok, hL, .inserted e.value hws hzero hfresh, hslots⟩
  · refine Or.inr ⟨Or.inl (by omega), Or.inr ?_⟩
    unfold TokenChain.insertLeading spaces
    rw [if_neg hlevel]
    rfl

/-- Setting an indentation ends in one of the four ways, or a width is out of range. -/
theorem Holds.setIndent_outcome (h : c.Holds (A ++ (start, t) :: B))
    (hroom : c.slots.size < slotLimit) (level : Nat) :
    (∃ e L, c.setIndent start level = .ok e ∧ e.chain.Holds L ∧
      Reindented moveRow A start t B level e.value L ∧ c.Recycles e.chain) ∨
    OutOfRange t level ∧ (c.setIndent start level = .error .differenceTooLarge ∨
      c.setIndent start level = .error .noRoom) := by
  by_cases hrests : (t.isWhitespace = true → B = [] ∨ t.endsLine = true ∨ t.width = level) ∧
      (t.isWhitespace = false → level = 0)
  · have hok := h.setIndent_rests hrests.1 hrests.2
    exact Or.inl ⟨_, _, hok, h, .stays hrests.1 hrests.2, (SameSlots.refl c).recycles⟩
  unfold TokenChain.setIndent
  rw [h.get_at]
  simp only [bind, Except.bind]
  cases hws : t.isWhitespace with
  | true =>
    obtain ⟨hB, hend⟩ : B ≠ [] ∧ ¬ (t.endsLine = true ∨ t.width = level) := by
      simpa [hws] using hrests
    obtain ⟨⟨next, n⟩, rest, rfl⟩ := List.exists_cons_of_ne_nil hB
    rw [if_pos rfl, h.next?_at]
    simp only [frontId_cons]
    rw [if_neg hend]
    rw [not_or, Bool.not_eq_true] at hend
    by_cases hzero : level = 0
    · have hne : t.width ≠ 0 := hzero ▸ hend.2
      obtain ⟨e, hok, hvalue, hL, hslots⟩ := h.removeLeading hne
      rw [if_pos hzero]
      refine Or.inl ⟨e, _, hok, hL, ?_, hslots⟩
      rw [hvalue]
      exact .removed next n rest rfl hws hend.1 hne hzero
    · rw [if_neg hzero]
      refine (h.resizeLeading_outcome hws hend.2).imp_left ?_
      rintro ⟨e, hok, hvalue, hL, hslots⟩
      refine ⟨e, _, hok, hL, ?_, hslots⟩
      rw [hvalue]
      exact .resized next n rest rfl hws hend.1 hend.2 hzero
  | false =>
    have hzero : level ≠ 0 := by simpa [hws] using hrests
    rw [if_neg Bool.false_ne_true, if_neg hzero]
    exact h.insertLeading_outcome hroom hws hzero

/-- Setting an indentation ends in one of the four ways, as long as the widths fit. -/
theorem Holds.setIndent (h : c.Holds (A ++ (start, t) :: B)) (hroom : c.slots.size < slotLimit)
    (hlevel : level < signedLimit) (hwidth : t.isWhitespace = true → t.width < signedLimit) :
    ∃ e L, c.setIndent start level = .ok e ∧ e.chain.Holds L ∧
      Reindented moveRow A start t B level e.value L ∧ e.chain.slots.size ≤ c.slots.size + 1 := by
  rcases h.setIndent_outcome hroom level with ⟨e, L, hok, hL, hre, hslots⟩ | ⟨hout, -⟩
  · exact ⟨e, L, hok, hL, hre, hslots.grown⟩
  · rcases hout with hout | ⟨hws, hout⟩
    · omega
    · have := hwidth hws
      omega

end Indentation

/-! ## Blank lines -/

/-- The last token of a line is the first one that ends a line, or the last one of all. -/
theorem Holds.lineLast? {c : TokenChain} {A B : List Entry} {id : TokenId} {t : Token}
    (h : c.Holds (A ++ (id, t) :: B)) :
    ∃ S last tl R, (id, t) :: B = S ++ (last, tl) :: R ∧ (∀ e ∈ S, e.2.endsLine = false) ∧
      (tl.endsLine = true ∨ R = []) ∧ c.lineLast? id = some last := by
  unfold TokenChain.lineLast?
  rw [h.entriesFrom_at]
  rcases hf : ((id, t) :: B).find? fun e => e.2.endsLine with _ | ⟨last, tl⟩
  · rcases List.eq_nil_or_concat ((id, t) :: B) with hnil | ⟨front, ⟨last, tl⟩, hlast⟩
    · cases hnil
    · rw [List.concat_eq_append] at hlast
      have hnone := List.find?_eq_none.mp hf
      refine ⟨front, last, tl, [], hlast, ?_, Or.inr rfl, ?_⟩
      · intro e he
        simpa using hnone e (by rw [hlast]; simp [he])
      · simp only [hf, Option.none_or]
        simp [hlast]
  · obtain ⟨hend, S, R, hsplit, hbefore⟩ := List.find?_eq_some_iff_append.mp hf
    refine ⟨S, last, tl, R, hsplit, ?_, Or.inl hend, by simp only [hf]; rfl⟩
    intro e he
    simpa using hbefore e he

end TokenChain

/-- What keeping lines apart does to the list `P ++ (last, tl) :: R`, where `last` ends a line:
the new blank line, and the list afterwards. The last line of all stays as it is, and so does a line
in front of a blank one. -/
inductive Separated (P : List Entry) (last : TokenId) (tl : Token) (R : List Entry) :
    Option TokenId → List Entry → Prop where
  | stays : (∀ e ∈ R.head?, e.2.isBlankLine = true) →
      Separated P last tl R none (P ++ (last, tl) :: R)
  | inserted (new next : TokenId) (n : Token) (rest : List Entry) : R = (next, n) :: rest →
      n.isBlankLine = false → new ∉ (P ++ (last, tl) :: R).map Prod.fst →
      Separated P last tl R (some new)
        (P ++ (last, tl) :: (new, n.blankLineBefore) :: editAll (·.shiftRow 1) R)

namespace TokenChain

theorem Holds.modify_of_fixed {c : TokenChain} {A B : List Entry} {id : TokenId} {token : Token}
    (h : c.Holds (A ++ (id, token) :: B)) {f : Token → Token} (hf : f token = token) :
    c.modify id f = c :=
  modifyNode_of_fixed h.node?_at (by rw [hf])

section LastOfLine

variable {c : TokenChain} {P R : List Entry} {id last : TokenId} {tl : Token}

/-- With a line behind it, the last token of a line has its mark already. So the answer depends on
the token behind it only. -/
theorem Holds.withBlankLineAfter_between {next : TokenId} {n : Token} {rest : List Entry}
    (h : c.Holds (P ++ (last, tl) :: (next, n) :: rest)) (hlast : c.lineLast? id = some last)
    (hend : tl.endsLine = true) :
    c.withBlankLineAfter id =
      if n.isBlankLine = true then .ok (c.unchanged none)
      else (c.shiftRows next 1).map fun moved =>
        ⟨some (moved.insertAfter last n.blankLineBefore).1,
          (moved.insertAfter last n.blankLineBefore).2, [.insertedBlankLine n.row]⟩ := by
  have hmark : ({ tl with endsLine := true } : Token) = tl := by rw [← hend]
  have hnext : c.Holds ((P ++ [(last, tl)]) ++ (next, n) :: rest) := by simpa using h
  unfold TokenChain.withBlankLineAfter lineBoundary?
  rw [hlast, Option.bind_some, h.next?_at]
  simp only [frontId_cons, Option.map_some]
  rw [h.modify_of_fixed hmark, hnext.get_at]
  simp only [bind, Except.bind]
  split
  · rfl
  · cases c.shiftRows next 1 <;> rfl

/-- At the last line of all, or in front of a blank line, nothing is done. -/
theorem Holds.withBlankLineAfter_rests (h : c.Holds (P ++ (last, tl) :: R))
    (hlast : c.lineLast? id = some last) (hend : tl.endsLine = true ∨ R = [])
    (hblank : ∀ e ∈ R.head?, e.2.isBlankLine = true) :
    c.withBlankLineAfter id = .ok (c.unchanged none) := by
  cases R with
  | nil =>
    unfold TokenChain.withBlankLineAfter lineBoundary?
    rw [hlast, Option.bind_some, h.next?_at]
    rfl
  | cons e rest =>
    rw [h.withBlankLineAfter_between hlast (hend.resolve_right (by simp)),
      if_pos (hblank e rfl)]

theorem Holds.withBlankLineAfter_at (h : c.Holds (P ++ (last, tl) :: R))
    (hlast : c.lineLast? id = some last) (hend : tl.endsLine = true ∨ R = [])
    (hroom : c.slots.size < slotLimit) :
    ∃ e L, c.withBlankLineAfter id = .ok e ∧ e.chain.Holds L ∧
      Separated P last tl R e.value L ∧ e.chain.slots.size ≤ c.slots.size + 1 := by
  by_cases hblank : ∀ e ∈ R.head?, e.2.isBlankLine = true
  · exact ⟨_, _, h.withBlankLineAfter_rests hlast hend hblank, h, .stays hblank, Nat.le_succ _⟩
  cases R with
  | nil => exact absurd (by simp) hblank
  | cons e rest =>
    obtain ⟨next, n⟩ := e
    have hblank : ¬ n.isBlankLine = true := by simpa using hblank
    have hnext : c.Holds ((P ++ [(last, tl)]) ++ (next, n) :: rest) := by simpa using h
    obtain ⟨d, hok, hL, hslots⟩ := hnext.shiftRows 1 (by decide)
    have hd : d.Holds (P ++ (last, tl) :: editAll (·.shiftRow 1) ((next, n) :: rest)) := by
      simpa using hL
    have hdroom : d.slots.size < slotLimit := by
      rw [hslots.slotCount]
      exact hroom
    have hfresh : (d.insertAfter last n.blankLineBefore).1 ∉
        (P ++ (last, tl) :: (next, n) :: rest).map Prod.fst := by
      have hn := hd.stale_iff.mp (hd.tidy.node?_fresh hdroom
        ⟨n.blankLineBefore, some last, d.next? last⟩)
      rw [List.map_append, List.map_cons, editAll_map Prod.fst (fun _ => rfl), ← List.map_cons,
        ← List.map_append] at hn
      exact hn
    rw [h.withBlankLineAfter_between hlast (hend.resolve_right (by simp)), if_neg hblank, hok]
    refine ⟨_, _, rfl, hd.insertAfter hdroom _,
      .inserted _ next n rest rfl (by simpa using hblank) hfresh, ?_⟩
    rw [← hslots.slotCount]
    exact (hd.tidy.recycles_insertAfter hdroom _ _).grown

end LastOfLine

theorem Holds.withBlankLineAfter {c : TokenChain} {A B : List Entry} {id : TokenId} {t : Token}
    (h : c.Holds (A ++ (id, t) :: B)) (hroom : c.slots.size < slotLimit) :
    ∃ S last tl R e L, (id, t) :: B = S ++ (last, tl) :: R ∧
      (∀ x ∈ S, x.2.endsLine = false) ∧ (tl.endsLine = true ∨ R = []) ∧
      c.withBlankLineAfter id = .ok e ∧ e.chain.Holds L ∧
      Separated (A ++ S) last tl R e.value L ∧ e.chain.slots.size ≤ c.slots.size + 1 := by
  obtain ⟨S, last, tl, R, hsplit, hbefore, hend, hlast⟩ := h.lineLast?
  have hat : c.Holds ((A ++ S) ++ (last, tl) :: R) := by
    rw [List.append_assoc, ← hsplit]
    exact h
  obtain ⟨e, L, hok, hL, hseparated, hslots⟩ := hat.withBlankLineAfter_at hlast hend hroom
  exact ⟨S, last, tl, R, e, L, hsplit, hbefore, hend, hok, hL, hseparated, hslots⟩

end TokenChain

end LineLayout
