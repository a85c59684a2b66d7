-- Setting the indentation of a line keeps every token in its place. The tokens of one row move
-- together, so each one still stands where the one before it stops. Everything outside the
-- line stays as it is.
import LineLayout.Proofs.Placed

namespace LineLayout

/-! ## Moving a row without limits -/

/-- A column moved by a distance, without the limit of a word. -/
def Token.slide (t : Token) (delta : Int) : Token := { t with col := ((t.col : Int) + delta).toNat }

/-- As `moveRow`, without the limit of a word. -/
def slideRow (row : Nat) (delta : Int) : List Entry → List Entry
  | [] => []
  | e :: rest =>
    if e.2.row = row then (e.1, e.2.slide delta) :: slideRow row delta rest else e :: rest

theorem slideRow_map {α : Type} (g : Entry → α) {delta : Int}
    (hg : ∀ e : Entry, g (e.1, e.2.slide delta) = g e) (row : Nat) (L : List Entry) :
    (slideRow row delta L).map g = L.map g := by
  induction L with
  | nil => rfl
  | cons e rest ih =>
    by_cases he : e.2.row = row
    · simp [slideRow, he, ih, hg]
    · simp [slideRow, he]

theorem forall_slideRow {P : Token → Prop} {delta : Int} (hP : ∀ t, P t → P (t.slide delta))
    (row : Nat) {L : List Entry} (h : ∀ e ∈ L, P e.2) : ∀ e ∈ slideRow row delta L, P e.2 := by
  induction L with
  | nil => exact h
  | cons e rest ih =>
    by_cases he : e.2.row = row
    · simp only [slideRow, he, if_true, List.forall_mem_cons] at h ⊢
      exact ⟨hP _ h.1, ih h.2⟩
    · simpa only [slideRow, he, if_false] using h

theorem slideRow_append {row : Nat} {delta : Int} (A : List Entry) {B : List Entry}
    (hB : ∀ e ∈ B.head?, e.2.row ≠ row) :
    slideRow row delta (A ++ B) = slideRow row delta A ++ B := by
  induction A with
  | nil =>
    cases B with
    | nil => rfl
    | cons e rest => simp [slideRow, hB e (by simp)]
  | cons e rest ih =>
    by_cases he : e.2.row = row
    · simp [slideRow, he, ih]
    · simp [slideRow, he]

theorem coreLength_slideRow (row : Nat) (delta : Int) (L : List Entry) :
    coreLength (slideRow row delta L) = coreLength L := by
  induction L with
  | nil => rfl
  | cons e rest ih =>
    have hcore : (e.2.slide delta).core = e.2.core := rfl
    by_cases he : e.2.row = row
    · simp only [slideRow, he, if_true, coreLength, ih, hcore]
    · simp only [slideRow, he, if_false]

/-- Where the moved columns fit in a word, the limit makes no difference. -/
theorem moveRow_eq_slideRow {row : Nat} {delta : Int} {L : List Entry}
    (h : ∀ e ∈ slideRow row delta L, e.2.col < wordLimit) :
    moveRow row delta L = slideRow row delta L := by
  induction L with
  | nil => rfl
  | cons e rest ih =>
    by_cases he : e.2.row = row
    · simp only [slideRow, he, if_true, List.forall_mem_cons] at h
      have hcol : shifted e.2.col delta = ((e.2.col : Int) + delta).toNat := by
        have hlt := h.1
        simp only [Token.slide] at hlt
        unfold shifted
        omega
      simp only [moveRow, slideRow, he, if_true, ih h.2]
      rw [Token.shiftColumn, hcol, Token.slide]
    · simp [moveRow, slideRow, he]

/-! ## Moved tokens still join -/

/-- A token moved along its row. Its marks in front may differ. -/
structure Slid (delta : Int) (t u : Token) : Prop where
  row : u.row = t.row
  col : (u.col : Int) = t.col + delta
  text : u.text = t.text
  kind : u.kind = t.kind
  endsLine : u.endsLine = t.endsLine

theorem slid_slide {t : Token} {delta : Int} (h : 0 ≤ (t.col : Int) + delta) :
    Slid delta t (t.slide delta) :=
  ⟨rfl, Int.toNat_of_nonneg h, rfl, rfl, rfl⟩

theorem Slid.following_of_plain {delta : Int} {t u : Token} (h : Slid delta t u)
    (hp : t.plain) : u.following.row = t.following.row ∧
      (u.following.col : Int) = t.following.col + delta := by
  have hu : u.plain := by
    unfold Token.plain
    rw [h.text]
    exact hp
  have hcol := h.col
  rw [Token.following_of_plain hp, Token.following_of_plain hu]
  simp only [Token.width, h.text, h.row, true_and]
  omega

theorem Slid.following_of_break {delta : Int} {t u : Token} (h : Slid delta t u)
    (hp : ¬ t.plain) : u.following = t.following := by
  unfold Token.following
  rw [h.text, Position.after_of_break _ (not_not.mp hp), Position.after_of_break _ (not_not.mp hp)]
  simp [Token.position, h.row]

/-- A token in front that stops `delta` columns further on the same row. -/
structure StopsAt (delta : Int) (b d : Token) : Prop where
  endsLine : d.endsLine = b.endsLine
  breaks : d.endsWithBreak = b.endsWithBreak
  kind : d.isWhitespace = b.isWhitespace
  row : d.following.row = b.following.row
  col : (d.following.col : Int) = b.following.col + delta

theorem Slid.stopsAt {delta : Int} {t u : Token} (h : Slid delta t u) (hp : t.plain) :
    StopsAt delta t u := by
  obtain ⟨hrow, hcol⟩ := h.following_of_plain hp
  exact ⟨h.endsLine, by simp [Token.endsWithBreak, h.text], by simp [Token.isWhitespace, h.kind],
    hrow, hcol⟩

theorem StopsAt.follows {delta : Int} {b d n : Token} (h : StopsAt delta b d)
    (hn : Follows b n) : Follows d (n.slide delta) ∧ Slid delta n (n.slide delta) := by
  have hplace := hn.place
  have hrow := h.row
  have hcol := h.col
  have hnr : n.row = b.following.row := congrArg Position.row hplace
  have hnc : n.col = b.following.col := congrArg Position.col hplace
  have hslid : Slid delta n (n.slide delta) := slid_slide (by omega)
  refine ⟨⟨hn.marks.trans h.endsLine.symm, ?_, ?_, ?_⟩, hslid⟩
  · rw [h.endsLine, h.breaks]
    exact hn.breaks
  · have hc := hslid.col
    have hr := hslid.row
    have hpos : (n.slide delta).position = ⟨(n.slide delta).row, (n.slide delta).col⟩ := rfl
    rw [hpos, hr, hnr, ← hrow]
    have hd : (n.slide delta).col = d.following.col := by omega
    rw [hd]
  · rw [h.endsLine, h.kind]
    exact hn.apart

/-- The tokens behind a moved token move with it, up to the end of its row. -/
theorem PlacedAfter.slide {delta : Int} {e u : Token} {L : List Entry}
    (h : PlacedAfter (some e) L) (hu : Slid delta e u) :
    PlacedAfter (some u) (slideRow e.row delta L) := by
  induction L generalizing e u with
  | nil => trivial
  | cons n rest ih =>
    obtain ⟨hn, hrest⟩ := h
    have hnrow : n.2.row = e.following.row := congrArg Position.row (Follows.place hn)
    by_cases hp : e.plain
    · have hrow : n.2.row = e.row := by
        rw [hnrow, Token.following_of_plain hp]
      obtain ⟨hfollows, hslid⟩ := (hu.stopsAt hp).follows hn
      simp only [slideRow, hrow, if_true]
      refine ⟨hfollows, ?_⟩
      rw [← hrow]
      exact ih hrest hslid
    · have hrow : n.2.row ≠ e.row := by
        have := Token.row_lt_following hp
        omega
      simp only [slideRow, hrow, if_false]
      exact PlacedAfter.congr ⟨hn, hrest⟩ hu.endsLine (by simp [Token.endsWithBreak, hu.text])
        (hu.following_of_break hp) (by simp [Token.isWhitespace, hu.kind])

/-- The tokens behind a token that stops elsewhere move along. -/
theorem PlacedAfter.slide_behind {delta : Int} {b d : Token} {L : List Entry}
    (h : PlacedAfter (some b) L) (hd : StopsAt delta b d) :
    PlacedAfter (some d) (slideRow b.following.row delta L) := by
  cases L with
  | nil => trivial
  | cons n rest =>
    obtain ⟨hn, hrest⟩ := h
    have hrow : n.2.row = b.following.row := congrArg Position.row (Follows.place hn)
    obtain ⟨hfollows, hslid⟩ := hd.follows hn
    simp only [slideRow, hrow, if_true]
    refine ⟨hfollows, ?_⟩
    rw [← hrow]
    exact hrest.slide hslid

/-! ## Sound lists -/

/-- Whitespace that does not end with a line break has none. -/
def Token.unbroken (t : Token) : Prop :=
  t.isWhitespace = true → t.endsWithBreak = false → t.plain

/-- Every token is in place, and whitespace inside a line has no line break. -/
structure Sound (L : List Entry) : Prop where
  placed : PlacedAfter none L
  plain : ∀ e ∈ L, e.2.unbroken

theorem blanks_plain (level : Nat) : '\n' ∉ (blanks level).toList := by
  simp [blanks]

theorem length_blanks (level : Nat) : (blanks level).length = level := by
  simp [blanks]

section Indentation

variable {A B rest : List Entry} {start next : TokenId} {t n : Token} {level : Nat}

theorem Sound.leading_plain (h : Sound (A ++ (start, t) :: (next, n) :: rest))
    (hw : t.isWhitespace = true) (he : t.endsLine = false) : t.plain := by
  have hp := (placed_append.mp h.placed).2
  have hn : Follows t n := hp.2.1
  exact h.plain (start, t) (by simp) hw (hn.breaks ▸ he)

theorem PlacedAfter.content_behind (h : PlacedAfter none (A ++ (start, t) :: (next, n) :: rest))
    (hw : t.isWhitespace = true) (he : t.endsLine = false) : n.isWhitespace = false := by
  have hn : Follows t n := (placed_append.mp h).2.2.1
  rw [← Bool.not_eq_true]
  intro hws
  rw [hn.apart hws hw] at he
  cases he

theorem PlacedAfter.resize (h : PlacedAfter none (A ++ (start, t) :: (next, n) :: rest))
    (hplain : t.plain) (level : Nat) :
    PlacedAfter none (A ++ (start, { t with text := blanks level }) ::
      slideRow n.row ((level : Int) - t.width) ((next, n) :: rest)) := by
  obtain ⟨hA, ht, hB⟩ := placed_append.mp h
  have hn : Follows t n := hB.1
  have hstop := Token.following_of_plain hplain
  have hnew : ({ t with text := blanks level } : Token).plain := blanks_plain level
  have hrow : n.row = t.following.row := congrArg Position.row hn.place
  have hends : StopsAt ((level : Int) - t.width) t { t with text := blanks level } := by
    refine ⟨rfl, ?_, rfl, ?_, ?_⟩
    · rw [Token.not_endsWithBreak_of_plain hnew, Token.not_endsWithBreak_of_plain hplain]
    · rw [hstop, Token.following_of_plain hnew]
    · rw [hstop, Token.following_of_plain hnew]
      simp only [Token.width, length_blanks]
      omega
  refine placed_append.mpr ⟨hA, ht.congr rfl rfl id, ?_⟩
  rw [hrow]
  exact hB.slide_behind hends

theorem PlacedAfter.remove (h : PlacedAfter none (A ++ (start, t) :: (next, n) :: rest))
    (hb : t.beginsLine = true) (hw : t.isWhitespace = true) (he : t.endsLine = false)
    (hplain : t.plain) :
    PlacedAfter none
      (A ++ slideRow n.row (-t.width) ((next, { n with beginsLine := true }) :: rest)) := by
  have hnotws := h.content_behind hw he
  obtain ⟨hA, ht, hB⟩ := placed_append.mp h
  have hn : Follows t n := hB.1
  have hplace := hn.place
  rw [Token.following_of_plain hplain] at hplace
  have hnr : n.row = t.row := congrArg Position.row hplace
  have hnc : n.col = t.col + t.width := congrArg Position.col hplace
  have hslid : Slid (-t.width) n (Token.slide { n with beginsLine := true } (-t.width)) :=
    ⟨rfl, by simp only [Token.slide]; omega, rfl, rfl, rfl⟩
  refine placed_append.mpr ⟨hA, ?_⟩
  simp only [slideRow, if_true]
  refine ⟨ht.congr hb.symm ?_ ?_, hB.2.slide hslid⟩
  · have hc := hslid.col
    have hzero : (Token.slide { n with beginsLine := true } (-t.width)).col = t.col := by omega
    have hr : (Token.slide { n with beginsLine := true } (-t.width)).row = t.row := hnr
    simp only [Token.position, hzero, hr]
  · intro hws
    exact absurd (hnotws.symm.trans hws) (by decide)

theorem PlacedAfter.insert (h : PlacedAfter none (A ++ (start, t) :: B))
    (hb : t.beginsLine = true) (hw : t.isWhitespace = false) (new : TokenId) (level : Nat) :
    PlacedAfter none (A ++ (new, t.leading (blanks level)) ::
      slideRow t.row level ((start, { t with beginsLine := false }) :: B)) := by
  obtain ⟨hA, ht, hB⟩ := placed_append.mp h
  have hnew : (t.leading (blanks level)).plain := blanks_plain level
  have hwidth : (t.leading (blanks level)).width = level := length_blanks level
  have hslid : Slid level t (Token.slide { t with beginsLine := false } level) :=
    ⟨rfl, by simp only [Token.slide]; omega, rfl, rfl, rfl⟩
  refine placed_append.mpr ⟨hA, ?_⟩
  simp only [slideRow, if_true]
  refine ⟨?_, ⟨rfl, ?_, ?_, ?_⟩, hB.slide hslid⟩
  · cases hlast : lastToken none A with
    | none =>
      rw [hlast] at ht
      exact ⟨rfl, ht.2⟩
    | some b =>
      rw [hlast] at ht
      have hf : Follows b t := ht
      exact ⟨hb.symm.trans hf.marks, hf.breaks, hf.place, fun _ _ => hf.marks.symm.trans hb⟩
  · rw [Token.not_endsWithBreak_of_plain hnew]
    rfl
  · rw [Token.following_of_plain hnew, hwidth]
    have hc := hslid.col
    have hcol : (Token.slide { t with beginsLine := false } level).col = t.col + level := by omega
    simp only [Token.position, hcol]
    rfl
  · intro hws
    exact absurd (hw.symm.trans hws) (by decide)

/-! ## Sizes -/

theorem Token.core_of_leads {t : Token} (h : t.leads = true) (hp : t.plain) : t.core = 0 := by
  rw [core, if_pos h, lineBreaks_of_plain hp]

theorem Token.leads_of_content {t : Token} (h : t.isWhitespace = false) : t.leads = false := by
  simp [leads, h]

theorem Sized.resize (hz : Sized (A ++ (start, t) :: (next, n) :: rest)) (ht : t.leads = true)
    (hp : t.plain) (hl : level < signedLimit) (row : Nat) (delta : Int) :
    Sized (A ++ (start, { t with text := blanks level }) ::
      slideRow row delta ((next, n) :: rest)) := by
  have hcore : ({ t with text := blanks level } : Token).core = 0 :=
    Token.core_of_leads ht (blanks_plain level)
  have hleads := hz.leads
  have hsum := hz.core
  simp only [List.forall_mem_append, List.forall_mem_cons] at hleads
  constructor
  · rw [List.forall_mem_append, List.forall_mem_cons]
    refine ⟨hleads.1, fun _ => ?_, ?_⟩
    · simpa only [Token.width, length_blanks] using hl
    · refine forall_slideRow (P := fun t => t.leads = true → t.width < signedLimit)
        (fun _ => id) row ?_
      rw [List.forall_mem_cons]
      exact hleads.2.2
  · simp only [coreLength_append, coreLength_cons, coreLength_slideRow,
      Token.core_of_leads ht hp, hcore] at hsum ⊢
    exact hsum

theorem Sized.remove (hz : Sized (A ++ (start, t) :: (next, n) :: rest)) (ht : t.leads = true)
    (hp : t.plain) (hn : n.isWhitespace = false) (row : Nat) (delta : Int) :
    Sized (A ++ slideRow row delta ((next, { n with beginsLine := true }) :: rest)) := by
  have hcontent : ({ n with beginsLine := true } : Token).leads = false :=
    Token.leads_of_content hn
  have hcore : ({ n with beginsLine := true } : Token).core = n.core := by
    simp [Token.core, hcontent, Token.leads_of_content hn, Token.width]
  have hleads := hz.leads
  have hsum := hz.core
  simp only [List.forall_mem_append, List.forall_mem_cons] at hleads
  constructor
  · rw [List.forall_mem_append]
    refine ⟨hleads.1, ?_⟩
    refine forall_slideRow (P := fun t => t.leads = true → t.width < signedLimit)
      (fun _ => id) row ?_
    rw [List.forall_mem_cons]
    exact ⟨by simp [hcontent], hleads.2.2.2⟩
  · simp only [coreLength_append, coreLength_cons, coreLength_slideRow,
      Token.core_of_leads ht hp, hcore, Nat.zero_add] at hsum ⊢
    exact hsum

theorem Sized.insert (hz : Sized (A ++ (start, t) :: B)) (ht : t.isWhitespace = false)
    (hl : level < signedLimit) (new : TokenId) (row : Nat) (delta : Int) :
    Sized (A ++ (new, t.leading (blanks level)) ::
      slideRow row delta ((start, { t with beginsLine := false }) :: B)) := by
  have hlead : (t.leading (blanks level)).core = 0 :=
    Token.core_of_leads rfl (blanks_plain level)
  have hcontent : ({ t with beginsLine := false } : Token).leads = false :=
    Token.leads_of_content ht
  have hcore : ({ t with beginsLine := false } : Token).core = t.core := by
    simp [Token.core, hcontent, Token.leads_of_content ht, Token.width]
  have hleads := hz.leads
  have hsum := hz.core
  simp only [List.forall_mem_append, List.forall_mem_cons] at hleads
  constructor
  · rw [List.forall_mem_append, List.forall_mem_cons]
    refine ⟨hleads.1, fun _ => ?_, ?_⟩
    · simpa only [Token.width, Token.leading, length_blanks] using hl
    · refine forall_slideRow (P := fun t => t.leads = true → t.width < signedLimit)
        (fun _ => id) row ?_
      rw [List.forall_mem_cons]
      exact ⟨by simp [hcontent], hleads.2.2⟩
  · simp only [coreLength_append, coreLength_cons, coreLength_slideRow, hlead, hcore,
      Nat.zero_add] at hsum ⊢
    exact hsum

/-! ## Every way of setting an indentation -/

/-- Columns of placed tokens that are sized fit in a word, so their rows move without limits. -/
theorem PlacedAfter.moveRow_eq {P S : List Entry} {row : Nat} {delta : Int}
    (h : PlacedAfter none (P ++ slideRow row delta S)) (hz : Sized (P ++ slideRow row delta S)) :
    moveRow row delta S = slideRow row delta S := by
  apply moveRow_eq_slideRow
  intro e he
  exact (h.fits hz e (List.mem_append_right _ he)).2.1

section Outcomes

variable {value : TokenId} {L : List Entry}

/-- Setting an indentation keeps the tokens in place, and no column meets the limit of a word, as
long as whitespace that gets another width has no line break. -/
theorem Reindented.places (h : Reindented moveRow A start t B level value L)
    (hp : PlacedAfter none (A ++ (start, t) :: B)) (hz : Sized (A ++ (start, t) :: B))
    (hb : t.beginsLine = true) (hl : level < signedLimit)
    (hplain : t.isWhitespace = true → t.endsLine = false → B ≠ [] → t.width ≠ level → t.plain) :
    Reindented slideRow A start t B level value L ∧ PlacedAfter none L ∧ Sized L := by
  cases h with
  | stays hw hc => exact ⟨.stays hw hc, hp, hz⟩
  | resized next n rest hB hw he hne hzero =>
    subst hB
    have hleads : t.leads = true := by simp [Token.leads, hw, hb]
    have htext := hplain hw he (by simp) hne
    have hplaced := hp.resize htext level
    have hsized := hz.resize hleads htext hl n.row ((level : Int) - t.width)
    rw [← List.singleton_append, ← List.append_assoc] at hplaced hsized
    rw [hplaced.moveRow_eq hsized]
    rw [List.append_assoc, List.singleton_append] at hplaced hsized
    exact ⟨.resized next n rest rfl hw he hne hzero, hplaced, hsized⟩
  | removed next n rest hB hw he hne hzero =>
    subst hB
    have hleads : t.leads = true := by simp [Token.leads, hw, hb]
    have htext := hplain hw he (by simp) (by rw [hzero]; exact hne)
    have hplaced := hp.remove hb hw he htext
    have hsized := hz.remove hleads htext (hp.content_behind hw he) n.row (-t.width)
    rw [hplaced.moveRow_eq hsized]
    exact ⟨.removed value n rest rfl hw he hne hzero, hplaced, hsized⟩
  | inserted new hw hzero hfresh =>
    have hplaced := hp.insert hb hw value level
    have hsized := hz.insert hw hl value t.row level
    rw [← List.singleton_append, ← List.append_assoc] at hplaced hsized
    rw [hplaced.moveRow_eq hsized]
    rw [List.append_assoc, List.singleton_append] at hplaced hsized
    exact ⟨.inserted value hw hzero hfresh, hplaced, hsized⟩

theorem Reindented.unbroken (h : Reindented slideRow A start t B level value L)
    (hall : ∀ e ∈ A ++ (start, t) :: B, e.2.unbroken) : ∀ e ∈ L, e.2.unbroken := by
  have hslide : ∀ {row : Nat} {delta : Int} {S : List Entry}, (∀ e ∈ S, e.2.unbroken) →
      ∀ e ∈ slideRow row delta S, e.2.unbroken :=
    fun hS => forall_slideRow (P := Token.unbroken) (fun _ => id) _ hS
  cases h with
  | stays _ _ => exact hall
  | resized next n rest hB _ _ _ _ =>
    subst hB
    simp only [List.forall_mem_append, List.forall_mem_cons] at hall
    rw [List.forall_mem_append, List.forall_mem_cons]
    refine ⟨hall.1, fun _ _ => blanks_plain level, hslide ?_⟩
    rw [List.forall_mem_cons]
    exact hall.2.2
  | removed next n rest hB _ _ _ _ =>
    subst hB
    simp only [List.forall_mem_append, List.forall_mem_cons] at hall
    rw [List.forall_mem_append]
    refine ⟨hall.1, hslide ?_⟩
    rw [List.forall_mem_cons]
    exact ⟨hall.2.2.1, hall.2.2.2⟩
  | inserted _ _ _ _ =>
    simp only [List.forall_mem_append, List.forall_mem_cons] at hall
    rw [List.forall_mem_append, List.forall_mem_cons]
    refine ⟨hall.1, fun _ _ => blanks_plain level, hslide ?_⟩
    rw [List.forall_mem_cons]
    exact ⟨hall.2.1, hall.2.2⟩

/-- Setting an indentation keeps a list sound. -/
theorem Reindented.keeps (h : Reindented moveRow A start t B level value L)
    (hs : Sound (A ++ (start, t) :: B)) (hz : Sized (A ++ (start, t) :: B))
    (hb : t.beginsLine = true) (hl : level < signedLimit) :
    Reindented slideRow A start t B level value L ∧ Sound L ∧ Sized L := by
  have hplain : t.isWhitespace = true → t.endsLine = false → B ≠ [] → t.width ≠ level →
      t.plain := by
    intro hw he hB _
    obtain ⟨⟨next, n⟩, rest, rfl⟩ := List.exists_cons_of_ne_nil hB
    exact hs.leading_plain hw he
  obtain ⟨hslide, hplaced, hsized⟩ := h.places hs.placed hz hb hl hplain
  exact ⟨hslide, ⟨hplaced, hslide.unbroken hs.plain⟩, hsized⟩

end Outcomes

end Indentation

end LineLayout
