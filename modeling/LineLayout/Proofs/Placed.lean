-- Places and marks of a list of tokens. `PlacedAfter` says of each token that it joins the one
-- before it: it stands where that one stops, begins a line exactly when that one ends its
-- line, and no whitespace follows whitespace on one line. This is what the check of a chain
-- looks for, and what every edit keeps.
import LineLayout.Consistency
import LineLayout.Listing
import LineLayout.Proofs.Edits

namespace LineLayout

/-! ## Where a text stops -/

namespace Position

theorem after_row (p : Position) (text : List Char) :
    (p.after text).row = p.row + text.count '\n' := by
  unfold after
  split
  · rfl
  · next h => simp [List.count_eq_zero_of_not_mem h]

theorem after_col_le (p : Position) (text : List Char) :
    (p.after text).col ≤ p.col + text.length := by
  unfold after
  split
  · have h := (List.takeWhile_sublist (l := text.reverse) (· != '\n')).length_le
    simp only [lastLine, List.length_reverse] at h ⊢
    omega
  · exact Nat.le_refl _

theorem after_of_plain (p : Position) {text : List Char} (h : '\n' ∉ text) :
    p.after text = ⟨p.row, p.col + text.length⟩ := by
  simp [after, h]

/-- A text with a break stops at a column of its own. -/
theorem after_of_break (p : Position) {text : List Char} (h : '\n' ∈ text) :
    p.after text = ⟨p.row + text.count '\n', (lastLine text).length⟩ := by
  simp [after, h]

end Position

theorem lastLine_of_ends {text : List Char} (h : text.getLast? = some '\n') :
    lastLine text = [] := by
  rcases List.eq_nil_or_concat text with rfl | ⟨front, last, rfl⟩
  · rfl
  · rw [List.concat_eq_append, List.getLast?_concat, Option.some.injEq] at h
    simp [lastLine, h]

namespace Token

/-- No line break in the text. -/
def plain (t : Token) : Prop := '\n' ∉ t.text.toList

instance (t : Token) : Decidable t.plain := inferInstanceAs (Decidable ('\n' ∉ t.text.toList))

theorem width_eq (t : Token) : t.width = t.text.toList.length := by
  rw [width, String.length_toList]

theorem lineBreaks_le_width (t : Token) : t.lineBreaks ≤ t.width := by
  rw [width_eq]
  exact List.count_le_length

theorem lineBreaks_of_plain {t : Token} (h : t.plain) : t.lineBreaks = 0 :=
  List.count_eq_zero_of_not_mem h

theorem following_row (t : Token) : t.following.row = t.row + t.lineBreaks :=
  Position.after_row _ _

theorem following_col_le (t : Token) : t.following.col ≤ t.col + t.width := by
  rw [width_eq]
  exact Position.after_col_le _ _

theorem following_of_plain {t : Token} (h : t.plain) : t.following = ⟨t.row, t.col + t.width⟩ := by
  rw [width_eq]
  exact Position.after_of_plain _ h

theorem mem_of_endsWithBreak {t : Token} (h : t.endsWithBreak = true) : '\n' ∈ t.text.toList := by
  simp only [endsWithBreak, beq_iff_eq] at h
  exact List.mem_of_getLast? h

theorem not_endsWithBreak_of_plain {t : Token} (h : t.plain) : t.endsWithBreak = false := by
  rw [← Bool.not_eq_true]
  exact fun he => h (mem_of_endsWithBreak he)

theorem following_col_of_ends {t : Token} (h : t.endsWithBreak = true) : t.following.col = 0 := by
  unfold following
  rw [Position.after_of_break _ (mem_of_endsWithBreak h)]
  simp only [endsWithBreak, beq_iff_eq] at h
  simp [lastLine_of_ends h]

theorem row_lt_following {t : Token} (h : ¬ t.plain) : t.row < t.following.row := by
  have hpos : 0 < t.lineBreaks := List.count_pos_iff.mpr (not_not.mp h)
  rw [following_row]
  omega

end Token

/-! ## Tokens that join -/

/-- A token right behind another one. -/
structure Follows (before t : Token) : Prop where
  marks : t.beginsLine = before.endsLine
  breaks : before.endsLine = before.endsWithBreak
  place : t.position = before.following
  apart : t.isWhitespace = true → before.isWhitespace = true → before.endsLine = true

/-- A token at the front, or right behind another one. -/
def Joins : Option Token → Token → Prop
  | none, t => t.beginsLine = true ∧ t.position = ⟨0, 0⟩
  | some before, t => Follows before t

/-- Each token joins the one before it, and the first one joins `before`. -/
def PlacedAfter : Option Token → List Entry → Prop
  | _, [] => True
  | before, e :: rest => Joins before e.2 ∧ PlacedAfter (some e.2) rest

/-- The last token of a list, or the one before the list. -/
def lastToken (before : Option Token) (A : List Entry) : Option Token :=
  (A.getLast?.map Prod.snd).or before

@[simp] theorem lastToken_nil (before : Option Token) : lastToken before [] = before := rfl

theorem lastToken_cons (before : Option Token) (e : Entry) (A : List Entry) :
    lastToken before (e :: A) = lastToken (some e.2) A := by
  unfold lastToken
  rw [List.getLast?_cons]
  cases A.getLast? <;> rfl

@[simp] theorem lastToken_concat (before : Option Token) (A : List Entry) (e : Entry) :
    lastToken before (A ++ [e]) = some e.2 := by
  simp [lastToken]

theorem lastToken_append (before : Option Token) (A B : List Entry) :
    lastToken before (A ++ B) = lastToken (lastToken before A) B := by
  unfold lastToken
  rw [List.getLast?_append]
  cases B.getLast? <;> rfl

theorem placed_append {before : Option Token} {A B : List Entry} :
    PlacedAfter before (A ++ B) ↔ PlacedAfter before A ∧ PlacedAfter (lastToken before A) B := by
  induction A generalizing before with
  | nil => simp [PlacedAfter]
  | cons e rest ih => simp only [List.cons_append, PlacedAfter, ih, lastToken_cons, and_assoc]

/-- Where the token in front stops. The front of the text is row zero, column zero. -/
def stopOf : Option Token → Position
  | none => ⟨0, 0⟩
  | some before => before.following

theorem Joins.place {before : Option Token} {t : Token} (h : Joins before t) :
    t.position = stopOf before := by
  cases before with
  | none => exact h.2
  | some b => exact Follows.place h

/-- A token that begins a line stands at column zero. -/
theorem Joins.col_of_beginsLine {before : Option Token} {t : Token} (h : Joins before t)
    (hb : t.beginsLine = true) : t.col = 0 := by
  have hplace := congrArg Position.col h.place
  cases before with
  | none => exact hplace
  | some b =>
    have hf : Follows b t := h
    have hends : b.endsWithBreak = true := by rw [← hf.breaks, ← hf.marks, hb]
    exact hplace.trans (Token.following_col_of_ends hends)

/-- Another token can take the place of a token when it has the same place, mark and kind. -/
theorem Joins.congr {before : Option Token} {t u : Token} (h : Joins before t)
    (hb : u.beginsLine = t.beginsLine) (hp : u.position = t.position)
    (hk : u.isWhitespace = true → t.isWhitespace = true) : Joins before u := by
  cases before with
  | none => exact ⟨hb.trans h.1, hp.trans h.2⟩
  | some b =>
    have hf : Follows b t := h
    exact ⟨hb.trans hf.marks, hf.breaks, hp.trans hf.place, fun hu => hf.apart (hk hu)⟩

/-- The tokens behind a token see of it where it stops, its mark and its kind. -/
theorem PlacedAfter.congr {b d : Token} {L : List Entry} (h : PlacedAfter (some b) L)
    (he : d.endsLine = b.endsLine) (hbr : d.endsWithBreak = b.endsWithBreak)
    (hf : d.following = b.following) (hk : d.isWhitespace = b.isWhitespace) :
    PlacedAfter (some d) L := by
  cases L with
  | nil => trivial
  | cons e rest =>
    have hj : Follows b e.2 := h.1
    refine ⟨⟨hj.marks.trans he.symm, ?_, hj.place.trans hf.symm, ?_⟩, h.2⟩
    · rw [he, hbr]
      exact hj.breaks
    · rw [he, hk]
      exact hj.apart

/-! ## Bounds -/

/-- Whitespace at the front of a line. -/
def Token.leads (t : Token) : Bool := t.isWhitespace && t.beginsLine

/-- What a token adds to the length of its line, leading whitespace apart. Setting an
indentation does not change the sum of this over all tokens. -/
def Token.core (t : Token) : Nat := if t.leads then t.lineBreaks else t.width

def coreLength : List Entry → Nat
  | [] => 0
  | e :: rest => e.2.core + coreLength rest

/-- Leading whitespace is short enough, and so is everything else together. -/
structure Sized (L : List Entry) : Prop where
  leads : ∀ e ∈ L, e.2.leads = true → e.2.width < signedLimit
  core : coreLength L < signedLimit

theorem Token.core_le_width (t : Token) : t.core ≤ t.width := by
  unfold core
  split
  · exact t.lineBreaks_le_width
  · exact Nat.le_refl _

/-- The step of the bounds: where a token stops, from where it stands. -/
theorem Joins.bounds {before : Option Token} {t : Token} (h : Joins before t) {lead n : Nat}
    (hlead : t.leads = true → t.width ≤ lead) (hrow : (stopOf before).row ≤ n)
    (hcol : (stopOf before).col ≤ lead + n) :
    t.row ≤ n ∧ t.col ≤ lead + n ∧ t.following.row ≤ n + t.core ∧
      t.following.col ≤ lead + (n + t.core) := by
  have hplace := h.place
  have hr : t.row = (stopOf before).row := congrArg Position.row hplace
  have hc : t.col = (stopOf before).col := congrArg Position.col hplace
  have hstop := t.following_col_le
  have hbreaks := t.lineBreaks_le_width
  rw [Token.following_row]
  by_cases hl : t.leads = true
  · have hzero := h.col_of_beginsLine (by simp only [Token.leads, Bool.and_eq_true] at hl; exact hl.2)
    have hw := hlead hl
    simp only [Token.core, hl, if_true]
    omega
  · simp only [Token.core, hl]
    simp only [Bool.false_eq_true, if_false]
    omega

theorem PlacedAfter.bounds {before : Option Token} {L : List Entry} (h : PlacedAfter before L)
    {lead n : Nat} (hlead : ∀ e ∈ L, e.2.leads = true → e.2.width ≤ lead)
    (hrow : (stopOf before).row ≤ n) (hcol : (stopOf before).col ≤ lead + n) :
    ∀ e ∈ L, e.2.row ≤ n + coreLength L ∧ e.2.col ≤ lead + (n + coreLength L) ∧
      e.2.following.row ≤ n + coreLength L ∧ e.2.following.col ≤ lead + (n + coreLength L) := by
  induction L generalizing before n with
  | nil =>
    intro e he
    cases he
  | cons e rest ih =>
    obtain ⟨hr, hc, hfr, hfc⟩ := h.1.bounds (hlead e (by simp)) hrow hcol
    have hsum : coreLength (e :: rest) = e.2.core + coreLength rest := rfl
    have hrest := ih h.2 (fun x hx => hlead x (by simp [hx])) hfr hfc
    intro x hx
    rcases List.mem_cons.mp hx with rfl | hx
    · omega
    · have := hrest x hx
      omega

/-- Every place of a sized list fits in a word, and the rows stay far below it. -/
theorem PlacedAfter.fits {L : List Entry} (h : PlacedAfter none L) (hs : Sized L) :
    ∀ e ∈ L, e.2.row < signedLimit ∧ e.2.col < wordLimit ∧ e.2.following.row < wordLimit ∧
      e.2.following.col < wordLimit := by
  intro e he
  have hlead : ∀ e ∈ L, e.2.leads = true → e.2.width ≤ signedLimit - 1 := by
    intro x hx hl
    have := hs.leads x hx hl
    omega
  have hb := h.bounds hlead (Nat.zero_le 0) (Nat.zero_le _) e he
  have hcore := hs.core
  simp only [signedLimit, wordLimit] at *
  omega

theorem coreLength_append (A B : List Entry) :
    coreLength (A ++ B) = coreLength A + coreLength B := by
  induction A with
  | nil => simp [coreLength]
  | cons e rest ih =>
    simp only [List.cons_append, coreLength, ih]
    omega

theorem coreLength_cons (e : Entry) (L : List Entry) :
    coreLength (e :: L) = e.2.core + coreLength L := rfl

/-- The text of the entries. -/
def textOf (L : List Entry) : List Char := L.flatMap fun e => e.2.text.toList

theorem TokenChain.Holds.render_toList {c : TokenChain} {L : List Entry} (h : c.Holds L) :
    c.render.toList = textOf L := by
  unfold render TokenChain.toList textOf
  rw [h.entries_eq, String.toList_join]
  simp [List.flatMap_map]

theorem TokenChain.Holds.short_text {c : TokenChain} {L : List Entry} (h : c.Holds L)
    {limit : Nat} (hc : c.render.length < limit) : (textOf L).length < limit := by
  rw [← h.render_toList, String.length_toList]
  exact hc

theorem width_le_textOf {L : List Entry} {e : Entry} (h : e ∈ L) :
    e.2.width ≤ (textOf L).length := by
  obtain ⟨A, B, rfl⟩ := List.append_of_mem h
  rw [Token.width_eq]
  simp only [textOf, List.flatMap_append, List.flatMap_cons, List.length_append]
  omega

theorem coreLength_le_textOf (L : List Entry) : coreLength L ≤ (textOf L).length := by
  induction L with
  | nil => exact Nat.le_refl _
  | cons e rest ih =>
    have hcore := e.2.core_le_width
    rw [Token.width_eq] at hcore
    simp only [coreLength_cons, textOf, List.flatMap_cons, List.length_append] at ih ⊢
    omega

/-- A short text has sized tokens. -/
theorem sized_of_textOf {L : List Entry} (h : (textOf L).length < signedLimit) : Sized L := by
  refine ⟨?_, Nat.lt_of_le_of_lt (coreLength_le_textOf L) h⟩
  intro e he _
  exact Nat.lt_of_le_of_lt (width_le_textOf he) h

/-- No token stands further right than the text is long. -/
theorem PlacedAfter.col_le {before : Option Token} {L : List Entry} (h : PlacedAfter before L) :
    ∀ e ∈ L, e.2.col ≤ (stopOf before).col + (textOf L).length := by
  induction L generalizing before with
  | nil =>
    intro e he
    cases he
  | cons e rest ih =>
    have hcol : e.2.col = (stopOf before).col := congrArg Position.col h.1.place
    have hstop := e.2.following_col_le
    have htext : (textOf (e :: rest)).length = e.2.width + (textOf rest).length := by
      simp [textOf, Token.width_eq]
    intro x hx
    rcases List.mem_cons.mp hx with rfl | hx
    · omega
    · have hrest := ih h.2 x hx
      simp only [stopOf] at hrest
      omega

/-! ## The check -/

theorem Token.endPlace_of_lt {t : Token} (hr : t.following.row < wordLimit)
    (hc : t.following.col < wordLimit) : t.endPlace = .ok t.following := by
  simp [endPlace, hr, hc]

theorem Token.eq_following_of_endPlace {t : Token} {p : Position} (h : t.endPlace = .ok p) :
    p = t.following := by
  unfold endPlace at h
  split at h
  · cases h
    rfl
  · cases h

theorem joins_of_headCheck {t : Token} (h : headViolation? t = none) : Joins none t := by
  unfold headViolation? at h
  split at h
  · cases h
  next hbegins =>
  split at h
  · cases h
  next hplace =>
  exact ⟨by simpa using hbegins, not_not.mp hplace⟩

theorem follows_of_check {n : Nat} {before t : Token}
    (h : stepViolation? n before t = .ok none) : Follows before t := by
  unfold stepViolation? at h
  split at h
  · cases h
  next hm =>
  split at h
  · cases h
  next hb =>
  split at h
  · cases h
  next expected he =>
  split at h
  · cases h
  next hp =>
  split at h
  · cases h
  next ha =>
  have hexp : expected = before.following := Token.eq_following_of_endPlace he
  refine ⟨not_not.mp hm, not_not.mp hb, (not_not.mp hp).trans hexp, ?_⟩
  intro ht hw
  simpa [ht, hw] using ha

theorem check_of_follows (n : Nat) {before t : Token} (h : Follows before t)
    (hr : before.following.row < wordLimit) (hc : before.following.col < wordLimit) :
    stepViolation? n before t = .ok none := by
  unfold stepViolation?
  rw [if_neg (not_not.mpr h.marks), if_neg (not_not.mpr h.breaks), Token.endPlace_of_lt hr hc]
  simp only
  rw [if_neg (not_not.mpr h.place), if_neg]
  intro ha
  simp only [Bool.and_eq_true, Bool.not_eq_true'] at ha
  rw [h.apart ha.1.1 ha.1.2] at ha
  cases ha.2

namespace TokenChain

theorem placed_of_checkBehind {c : TokenChain} {n : Nat} {before : Entry} {L : List Entry}
    (h : c.checkBehind n before L = .ok none) : PlacedAfter (some before.2) L := by
  induction L generalizing n before with
  | nil => trivial
  | cons e rest ih =>
    unfold checkBehind at h
    split at h
    · cases h
    split at h
    · next hs => exact ⟨follows_of_check hs, ih h⟩
    · next hs => exact absurd h hs

theorem checkBehind_of_placed {c : TokenChain} (n : Nat) {before : Entry} {L : List Entry}
    {after : Option TokenId} (hl : c.Linked (some before.1) L after)
    (h : PlacedAfter (some before.2) L)
    (hfit : ∀ e ∈ before :: L, e.2.following.row < wordLimit ∧ e.2.following.col < wordLimit) :
    c.checkBehind n before L = .ok none := by
  induction L generalizing n before with
  | nil => rfl
  | cons e rest ih =>
    have hb := hfit before (by simp)
    have hprev : c.prev? e.1 = some before.1 := by
      simp [prev?, hl.1]
    unfold checkBehind
    rw [if_neg (not_not.mpr hprev), check_of_follows n h.1 hb.1 hb.2]
    exact ih (n + 1) hl.2 h.2 fun x hx => hfit x (List.mem_cons_of_mem _ hx)

theorem placed_of_checkEntries {c : TokenChain} {L : List Entry}
    (h : c.checkEntries L = .ok none) : PlacedAfter none L := by
  cases L with
  | nil => trivial
  | cons e rest =>
    simp only [checkEntries] at h
    split at h
    · cases h
    split at h
    · cases h
    next hhead => exact ⟨joins_of_headCheck hhead, placed_of_checkBehind h⟩

/-- A chain that passes the check has its tokens in place. -/
theorem Holds.placed_of_check {c : TokenChain} {L : List Entry} (h : c.Holds L)
    (hc : c.check = .ok none) : PlacedAfter none L := by
  unfold check at hc
  rw [h.entries_eq] at hc
  split at hc
  · next hok => exact placed_of_checkEntries hok
  · next hne => exact absurd hc hne

/-- Tokens in their places pass the check, as long as the places fit. -/
theorem Holds.check_of_fits {c : TokenChain} {L : List Entry} (h : c.Holds L)
    (hp : PlacedAfter none L)
    (hfit : ∀ e ∈ L, e.2.following.row < wordLimit ∧ e.2.following.col < wordLimit) :
    c.check = .ok none := by
  have hentries : c.checkEntries L = .ok none := by
    cases L with
    | nil => rfl
    | cons e rest =>
      have hprev : c.prev? e.1 = none := by
        simp [prev?, h.linked.1]
      have hhead : headViolation? e.2 = none := by
        unfold headViolation?
        rw [if_neg (by simp [hp.1.1]), if_neg (not_not.mpr hp.1.2)]
      simp only [checkEntries]
      rw [if_neg (not_not.mpr hprev), hhead]
      exact checkBehind_of_placed 1 h.linked.2 hp.2 hfit
  unfold check
  rw [h.entries_eq, hentries, h.size]
  simp

theorem Holds.check_of_placed {c : TokenChain} {L : List Entry} (h : c.Holds L)
    (hp : PlacedAfter none L) (hs : Sized L) : c.check = .ok none :=
  h.check_of_fits hp fun e he => (hp.fits hs e he).2.2

end TokenChain

end LineLayout
