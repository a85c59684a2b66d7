-- A sound list is a list of lines. A line is blank, or it has content with at most one
-- whitespace token in front. Setting the indentation of a line changes the whitespace in front
-- of its content and nothing else, up to the columns of that line.
import LineLayout.Proofs.Indentation

namespace LineLayout

/-! ## Lines -/

/-- A blank line, or content with the whitespace in front of it. -/
inductive Line (α : Type) where
  | blank (item : α)
  | content (lead : Option α) (first : α) (rest : List α)

namespace Line

def items {α : Type} : Line α → List α
  | blank item => [item]
  | content lead first rest => lead.toList ++ first :: rest

def map {α β : Type} (f : α → β) : Line α → Line β
  | blank item => blank (f item)
  | content lead first rest => content (lead.map f) (f first) (rest.map f)

theorem items_map {α β : Type} (f : α → β) (l : Line α) : (l.map f).items = l.items.map f := by
  cases l with
  | blank item => rfl
  | content lead first rest => cases lead <;> simp [map, items]

/-- The token that begins the line. -/
def start {α : Type} : Line α → α
  | blank item => item
  | content lead first _ => lead.getD first

/-- The tokens behind the one that begins the line. -/
def behind {α : Type} : Line α → List α
  | blank _ => []
  | content none _ rest => rest
  | content (some _) first rest => first :: rest

theorem items_eq {α : Type} (l : Line α) : l.items = l.start :: l.behind := by
  match l with
  | blank item => rfl
  | content none first rest => rfl
  | content (some lead) first rest => rfl

/-- The marks and kinds of a line are as they should be: only its first token begins a line,
whitespace in front does not end it, and the content starts with something visible. -/
def WellFormed : Line Token → Prop
  | blank t => t.isWhitespace = true ∧ t.beginsLine = true
  | content none first rest => first.isWhitespace = false ∧ first.beginsLine = true ∧
      ∀ t ∈ rest, t.beginsLine = false
  | content (some lead) first rest => lead.isWhitespace = true ∧ lead.beginsLine = true ∧
      lead.endsLine = false ∧ first.isWhitespace = false ∧ first.beginsLine = false ∧
      ∀ t ∈ rest, t.beginsLine = false

end Line

/-- All tokens of these lines. -/
def flat {α : Type} (ls : List (Line α)) : List α := ls.flatMap Line.items

@[simp] theorem flat_nil {α : Type} : flat ([] : List (Line α)) = [] := rfl

@[simp] theorem flat_cons {α : Type} (l : Line α) (ls : List (Line α)) :
    flat (l :: ls) = l.items ++ flat ls := rfl

theorem flat_append {α : Type} (X Y : List (Line α)) : flat (X ++ Y) = flat X ++ flat Y :=
  List.flatMap_append

theorem flat_map {α β : Type} (f : α → β) (ls : List (Line α)) :
    flat (ls.map (Line.map f)) = (flat ls).map f := by
  induction ls with
  | nil => rfl
  | cons l ls ih => simp [ih, Line.items_map]

/-- The line that starts with this token and goes on with these. -/
def lineOf (t : Token) (rest : List Token) : Line Token :=
  if t.isWhitespace then
    match rest with
    | [] => .blank t
    | first :: rest => .content (some t) first rest
  else .content none t rest

/-- The tokens before the first one that begins a line, and the lines from there on. -/
def cut : List Token → List Token × List (Line Token)
  | [] => ([], [])
  | t :: tokens =>
    if t.beginsLine then ([], lineOf t (cut tokens).1 :: (cut tokens).2)
    else (t :: (cut tokens).1, (cut tokens).2)

theorem cut_of_inside {body tokens : List Token} (h : ∀ t ∈ body, t.beginsLine = false) :
    cut (body ++ tokens) = (body ++ (cut tokens).1, (cut tokens).2) := by
  induction body with
  | nil => rfl
  | cons t rest ih =>
    rw [List.forall_mem_cons] at h
    simp [cut, h.1, ih h.2]

/-- Well-formed lines are the only way to cut their tokens into lines. -/
theorem cut_flat {ls : List (Line Token)} (h : ∀ l ∈ ls, l.WellFormed) :
    cut (flat ls) = ([], ls) := by
  induction ls with
  | nil => rfl
  | cons l ls ih =>
    rw [List.forall_mem_cons] at h
    have hrest := ih h.2
    match l, h.1 with
    | .blank t, ⟨hw, hb⟩ => simp [Line.items, cut, hb, hrest, lineOf, hw]
    | .content none first rest, ⟨hw, hb, hin⟩ =>
      simp [Line.items, cut, hb, cut_of_inside hin, hrest, lineOf, hw]
    | .content (some lead) first rest, ⟨hw, hb, _, hfw, hfb, hin⟩ =>
      simp [Line.items, cut, hb, hfb, cut_of_inside hin, hrest, lineOf, hw]

theorem lines_unique {ls ls' : List (Line Token)} (h : ∀ l ∈ ls, l.WellFormed)
    (h' : ∀ l ∈ ls', l.WellFormed) (he : flat ls = flat ls') : ls = ls' := by
  have hcut := cut_flat h
  rw [he, cut_flat h'] at hcut
  exact (Prod.mk.inj hcut).2.symm

/-- A line of entries is well-formed when its tokens are. -/
def Line.Proper (l : Line Entry) : Prop := (l.map Prod.snd).WellFormed

theorem Line.Proper.begins {l : Line Entry} (h : l.Proper) : l.start.2.beginsLine = true := by
  match l, h with
  | .blank _, h => exact h.2
  | .content none _ _, h => exact h.2.1
  | .content (some _) _ _, h => exact h.2.1

/-- The content starts with something visible, and nothing behind this begins a line. -/
theorem Line.Proper.inside {lead : Option Entry} {first : Entry} {rest : List Entry}
    (h : (Line.content lead first rest).Proper) :
    first.2.isWhitespace = false ∧ ∀ e ∈ rest, e.2.beginsLine = false := by
  cases lead with
  | none => exact ⟨h.1, List.forall_mem_map.mp h.2.2⟩
  | some lead => exact ⟨h.2.2.2.1, List.forall_mem_map.mp h.2.2.2.2.2⟩

theorem head?_flat {ls : List (Line Entry)} (h : ∀ l ∈ ls, l.Proper) :
    ∀ e ∈ (flat ls).head?, e.2.beginsLine = true := by
  cases ls with
  | nil => simp
  | cons l ls =>
    intro e he
    rw [flat_cons, l.items_eq, List.cons_append, List.head?_cons] at he
    cases he
    exact (h l (by simp)).begins

theorem PlacedAfter.exists_lines {before : Option Token} {L : List Entry}
    (h : PlacedAfter before L) :
    ∃ body ls, L = body ++ flat ls ∧ (∀ e ∈ body, e.2.beginsLine = false) ∧
      ∀ l ∈ ls, l.Proper := by
  induction L generalizing before with
  | nil => exact ⟨[], [], rfl, by simp, by simp⟩
  | cons e rest ih =>
    obtain ⟨body, ls, hrest, hbody, hls⟩ := ih h.2
    by_cases hb : e.2.beginsLine = true
    · by_cases hw : e.2.isWhitespace = true
      · cases body with
        | nil =>
          refine ⟨[], .blank e :: ls, by simp [hrest, Line.items], by simp, ?_⟩
          rw [List.forall_mem_cons]
          exact ⟨⟨hw, hb⟩, hls⟩
        | cons first body =>
          rw [List.forall_mem_cons] at hbody
          have hf : Follows e.2 first.2 := by
            have hp := h.2
            rw [hrest] at hp
            exact hp.1
          have hend : e.2.endsLine = false := by rw [← hf.marks, hbody.1]
          have hfw : first.2.isWhitespace = false := by
            rw [← Bool.not_eq_true]
            intro hfw
            rw [hf.apart hfw hw] at hend
            cases hend
          refine ⟨[], .content (some e) first body :: ls, by simp [hrest, Line.items], by simp, ?_⟩
          rw [List.forall_mem_cons]
          refine ⟨⟨hw, hb, hend, hfw, hbody.1, ?_⟩, hls⟩
          exact List.forall_mem_map.mpr hbody.2
      · rw [Bool.not_eq_true] at hw
        refine ⟨[], .content none e body :: ls, by simp [hrest, Line.items], by simp, ?_⟩
        rw [List.forall_mem_cons]
        exact ⟨⟨hw, hb, List.forall_mem_map.mpr hbody⟩, hls⟩
    · rw [Bool.not_eq_true] at hb
      refine ⟨e :: body, ls, by simp [hrest], ?_, hls⟩
      rw [List.forall_mem_cons]
      exact ⟨hb, hbody⟩

theorem PlacedAfter.lines {L : List Entry} (h : PlacedAfter none L) :
    ∃ ls, L = flat ls ∧ ∀ l ∈ ls, l.Proper := by
  obtain ⟨body, ls, hL, hbody, hls⟩ := h.exists_lines
  cases body with
  | nil => exact ⟨ls, hL, hls⟩
  | cons e body =>
    rw [hL] at h
    have hb := hbody e (by simp)
    rw [h.1.1] at hb
    cases hb

theorem Sound.exists_lines {L : List Entry} (h : Sound L) :
    ∃ ls, L = flat ls ∧ ∀ l ∈ ls, l.Proper := h.placed.lines

/-! ## The width in front of a line -/

/-- The columns that the whitespace in front of a line takes. -/
def leadWidth (lead : Option String) : Nat := lead.elim 0 String.length

/-- The whitespace in front of a line after it was set to a width. Whitespace that has the
width already stays, tabs included. -/
def fit (level : Nat) (lead : Option String) : Option String :=
  if leadWidth lead = level then lead else if level = 0 then none else some (blanks level)

theorem leadWidth_fit (level : Nat) (lead : Option String) :
    leadWidth (fit level lead) = level := by
  unfold fit
  split
  · assumption
  · split
    · next h => exact h.symm
    · exact length_blanks level

theorem fit_of_width {level : Nat} {lead : Option String} (h : leadWidth lead = level) :
    fit level lead = lead := by
  simp [fit, h]

/-- Whitespace of another width is forgotten. -/
theorem fit_of_ne {level : Nat} {lead lead' : Option String} (h : leadWidth lead ≠ level)
    (h' : leadWidth lead' ≠ level) : fit level lead = fit level lead' := by
  simp [fit, h, h']

theorem fit_fit (level : Nat) (lead : Option String) :
    fit level (fit level lead) = fit level lead :=
  fit_of_width (leadWidth_fit level lead)

/-- To move a line to one column and on to another is the same the second time. -/
theorem fit_round (first second : Nat) (lead : Option String) :
    fit second (fit first (fit second (fit first lead))) = fit second (fit first lead) := by
  by_cases h : first = second
  · subst h
    simp only [fit_fit]
  · apply fit_of_ne
    · rw [leadWidth_fit]
      exact h
    · rw [leadWidth_fit]
      exact h

/-! ## One line changes -/

/-- What a token keeps when the whitespace in front of its line changes. -/
def face (e : Entry) : TokenId × Kind × String × Features × Bool :=
  (e.1, e.2.kind, e.2.text, e.2.features, e.2.endsLine)

/-- A line and the same line after its indentation was set. -/
inductive Refit (level : Nat) : Line Entry → Line Entry → Prop where
  | blank (e : Entry) : Refit level (.blank e) (.blank e)
  | content (lead : Option Entry) (first : Entry) (rest : List Entry) (lead' : Option Entry)
      (first' : Entry) (rest' : List Entry) :
      lead'.map (fun e => e.2.text) = fit level (lead.map fun e => e.2.text) →
      (∀ e ∈ lead', ∃ origin ∈ first :: lead.toList, e.2.features = origin.2.features) →
      face first' = face first → rest'.map face = rest.map face →
      Refit level (.content lead first rest) (.content lead' first' rest')

theorem Refit.of_content {level : Nat} {lead : Option Entry} {first : Entry} {rest : List Entry}
    {l : Line Entry} (h : Refit level (.content lead first rest) l) :
    ∃ lead' first' rest', l = .content lead' first' rest' ∧
      rest'.map Prod.fst = rest.map Prod.fst := by
  cases h with
  | content _ _ _ lead' first' rest' _ _ _ hrest =>
    refine ⟨lead', first', rest', rfl, ?_⟩
    have hids := congrArg (List.map Prod.fst) hrest
    simpa [face, Function.comp_def] using hids

theorem PlacedAfter.row_lt {before : Option Token} {e r : Entry} {body R : List Entry}
    (h : PlacedAfter before (e :: body ++ r :: R)) (hr : r.2.beginsLine = true) :
    e.2.row < r.2.row := by
  induction body generalizing before e with
  | nil =>
    have hf : Follows e.2 r.2 := h.2.1
    have hbreak : e.2.endsWithBreak = true := by rw [← hf.breaks, ← hf.marks, hr]
    have hrow : r.2.row = e.2.following.row := congrArg Position.row hf.place
    rw [hrow]
    exact Token.row_lt_following fun hp => hp (Token.mem_of_endsWithBreak hbreak)
  | cons n body ih =>
    have hf : Follows e.2 n.2 := h.2.1
    have hrow : n.2.row = e.2.following.row := congrArg Position.row hf.place
    have hnext := ih h.2
    rw [hrow, Token.following_row] at hnext
    omega

theorem face_slideRow (row : Nat) (delta : Int) (L : List Entry) :
    (slideRow row delta L).map face = L.map face :=
  slideRow_map face (fun _ => rfl) row L

theorem begins_slideRow {row : Nat} {delta : Int} {L : List Entry}
    (h : ∀ t ∈ L.map Prod.snd, t.beginsLine = false) :
    ∀ t ∈ (slideRow row delta L).map Prod.snd, t.beginsLine = false := by
  rw [List.forall_mem_map] at h ⊢
  exact forall_slideRow (P := fun t => t.beginsLine = false) (fun _ => id) row h

section Confined

variable {A R : List Entry} {level : Nat} {value : TokenId} {L : List Entry}

theorem Reindented.confined_blank {e : Entry}
    (h : Reindented slideRow A e.1 e.2 R level value L) (hp : PlacedAfter none (A ++ e :: R))
    (hw : e.2.isWhitespace = true) (hR : ∀ r ∈ R.head?, r.2.beginsLine = true) :
    L = A ++ e :: R := by
  have hend : ∀ n rest, R = n :: rest → e.2.endsLine = true := by
    intro n rest hn
    subst hn
    have hf : Follows e.2 n.2 := (placed_append.mp hp).2.2.1
    rw [← hf.marks]
    exact hR n rfl
  cases h with
  | stays _ _ => rfl
  | resized next n rest hB _ he _ _ =>
    rw [hend _ _ hB] at he
    cases he
  | removed next n rest hB _ he _ _ =>
    rw [hend _ _ hB] at he
    cases he
  | inserted _ hc _ _ =>
    rw [hw] at hc
    cases hc

/-- A line that starts with content gets whitespace in front, or stays. -/
theorem Reindented.confined_bare {first : Entry} {rest : List Entry}
    (h : Reindented slideRow A first.1 first.2 (rest ++ R) level value L)
    (hp : PlacedAfter none (A ++ first :: (rest ++ R)))
    (hl : (Line.content none first rest).Proper) (hR : ∀ r ∈ R.head?, r.2.beginsLine = true) :
    ∃ l, L = A ++ (l.items ++ R) ∧ Refit level (.content none first rest) l ∧ l.Proper := by
  obtain ⟨hw, hb, hin⟩ := hl
  cases h with
  | stays _ hc =>
    refine ⟨.content none first rest, rfl, .content _ _ _ _ _ _ ?_ (by simp) rfl rfl, hw, hb, hin⟩
    rw [hc hw]
    rfl
  | resized next n rest hB ht _ _ _ =>
    rw [hw] at ht
    cases ht
  | removed next n rest hB ht _ _ _ =>
    rw [hw] at ht
    cases ht
  | inserted new ht hzero hfresh =>
    have hrow : ∀ r ∈ R.head?, r.2.row ≠ first.2.row := by
      intro r hr
      obtain ⟨R', rfl⟩ := List.head?_eq_some_iff.mp hr
      have := (placed_append.mp hp).2.row_lt (hR r rfl)
      omega
    have hmove : slideRow first.2.row level
        ((first.1, { first.2 with beginsLine := false }) :: (rest ++ R)) =
        (first.1, Token.slide { first.2 with beginsLine := false } level) ::
          (slideRow first.2.row level rest ++ R) := by
      rw [← List.cons_append, slideRow_append _ hrow]
      simp [slideRow]
    refine ⟨.content (some (value, first.2.leading (blanks level)))
      (first.1, Token.slide { first.2 with beginsLine := false } level)
      (slideRow first.2.row level rest), by simp [hmove, Line.items],
      .content _ _ _ _ _ _ ?_ ?_ rfl (face_slideRow _ _ _),
      rfl, rfl, rfl, hw, rfl, begins_slideRow hin⟩
    · have hne : leadWidth none ≠ level := fun h => hzero h.symm
      simp [fit, hne, hzero, Token.leading]
    · intro e he
      cases he
      exact ⟨first, by simp, rfl⟩

/-- A line with whitespace in front gets another one, or loses it, or stays. -/
theorem Reindented.confined_led {lead first : Entry} {rest : List Entry}
    (h : Reindented slideRow A lead.1 lead.2 (first :: rest ++ R) level value L)
    (hp : PlacedAfter none (A ++ lead :: (first :: rest ++ R)))
    (hl : (Line.content (some lead) first rest).Proper)
    (hR : ∀ r ∈ R.head?, r.2.beginsLine = true) :
    ∃ l, L = A ++ (l.items ++ R) ∧ Refit level (.content (some lead) first rest) l ∧
      l.Proper := by
  obtain ⟨hw, hb, hend, hfw, hfb, hin⟩ := hl
  have hrow : ∀ r ∈ R.head?, r.2.row ≠ first.2.row := by
    intro r hr
    obtain ⟨R', rfl⟩ := List.head?_eq_some_iff.mp hr
    have := (placed_append.mp hp).2.2.row_lt (hR r rfl)
    omega
  cases h with
  | stays hc _ =>
    refine ⟨.content (some lead) first rest, rfl, .content _ _ _ _ _ _ ?_ ?_ rfl rfl,
      hw, hb, hend, hfw, hfb, hin⟩
    · rcases hc hw with hnil | he | hwidth
      · cases hnil
      · rw [hend] at he
        cases he
      · have hlw : leadWidth (some lead.2.text) = level := hwidth
        exact (fit_of_width hlw).symm
    · intro e he
      cases he
      exact ⟨lead, by simp, rfl⟩
  | resized next n rest' hB _ _ hne hzero =>
    rw [List.cons_append] at hB
    obtain ⟨rfl, rfl⟩ := List.cons.inj hB
    refine ⟨.content (some (lead.1, { lead.2 with text := blanks level }))
      (next, n.slide ((level : Int) - lead.2.width))
      (slideRow n.row ((level : Int) - lead.2.width) rest), ?_,
      .content _ _ _ _ _ _ ?_ ?_ rfl (face_slideRow _ _ _),
      hw, hb, hend, hfw, hfb, begins_slideRow hin⟩
    · rw [← List.cons_append, slideRow_append _ hrow]
      simp [Line.items, slideRow]
    · have hlw : leadWidth (some lead.2.text) ≠ level := hne
      simp [fit, hlw, hzero]
    · intro e he
      cases he
      exact ⟨lead, by simp, rfl⟩
  | removed next n rest' hB _ _ hne hzero =>
    rw [List.cons_append] at hB
    obtain ⟨rfl, rfl⟩ := List.cons.inj hB
    refine ⟨.content none (value, Token.slide { n with beginsLine := true } (-lead.2.width))
      (slideRow n.row (-lead.2.width) rest), ?_,
      .content _ _ _ _ _ _ ?_ (by simp) rfl (face_slideRow _ _ _),
      hfw, rfl, begins_slideRow hin⟩
    · rw [← List.cons_append, slideRow_append _ hrow]
      simp [Line.items, slideRow]
    · have hlw : leadWidth (some lead.2.text) ≠ 0 := hne
      simp [fit, hlw, hzero]
  | inserted _ hc _ _ =>
    rw [hw] at hc
    cases hc

/-- Setting the indentation of a line changes this line only. -/
theorem Reindented.confined {l : Line Entry}
    (h : Reindented slideRow A l.start.1 l.start.2 (l.behind ++ R) level value L)
    (hp : PlacedAfter none (A ++ (l.items ++ R))) (hl : l.Proper)
    (hR : ∀ r ∈ R.head?, r.2.beginsLine = true) :
    ∃ l', L = A ++ (l'.items ++ R) ∧ Refit level l l' ∧ l'.Proper := by
  match l with
  | .blank e => exact ⟨.blank e, h.confined_blank hp hl.1 hR, .blank e, hl⟩
  | .content none first rest => exact h.confined_bare hp hl hR
  | .content (some lead) first rest => exact h.confined_led hp hl hR

end Confined

/-- The answer of an edit stands where the line starts. For a line with whitespace in front it is
the start itself, unless this went. -/
theorem Reindented.front {A B L : List Entry} {start value : TokenId} {t : Token} {level : Nat}
    (h : Reindented slideRow A start t B level value L) :
    (∃ u S, L = A ++ (value, u) :: S) ∧
      (t.isWhitespace = true → value = start ∨ level = 0 ∧ t.width ≠ 0) := by
  cases h with
  | stays _ _ => exact ⟨⟨t, B, rfl⟩, fun _ => Or.inl rfl⟩
  | resized next n rest _ _ _ _ _ => exact ⟨⟨_, _, rfl⟩, fun _ => Or.inl rfl⟩
  | removed next n rest _ _ _ hne hzero =>
    refine ⟨⟨Token.slide { n with beginsLine := true } (-t.width),
      slideRow n.row (-t.width) rest, ?_⟩, fun _ => Or.inr ⟨hzero, hne⟩⟩
    simp [slideRow]
  | inserted new hw _ _ =>
    refine ⟨⟨_, _, rfl⟩, ?_⟩
    intro hws
    rw [hw] at hws
    cases hws

/-! ## Chains that hold lines -/

/-- The chain holds this list, every token is in its place, and nothing is too long. -/
structure TokenChain.Steady (c : TokenChain) (L : List Entry) : Prop where
  holds : c.Holds L
  sound : Sound L
  sized : Sized L

namespace TokenChain

section Steady

variable {c : TokenChain} {level : Nat}

theorem Steady.setIndent {A B : List Entry} {start : TokenId} {t : Token}
    (h : c.Steady (A ++ (start, t) :: B)) (hb : t.beginsLine = true)
    (hroom : c.slots.size < slotLimit) (hlevel : level < signedLimit) :
    ∃ e L, c.setIndent start level = .ok e ∧ e.chain.Steady L ∧
      Reindented slideRow A start t B level e.value L ∧
      e.chain.slots.size ≤ c.slots.size + 1 := by
  have hwidth : t.isWhitespace = true → t.width < signedLimit := by
    intro hw
    exact h.sized.leads (start, t) (by simp) (by simp [Token.leads, hw, hb])
  obtain ⟨e, L, hok, hL, hre, hslots⟩ := h.holds.setIndent hroom hlevel hwidth
  obtain ⟨hslide, hsound, hsized⟩ := hre.keeps h.sound h.sized hb hlevel
  exact ⟨e, L, hok, ⟨hL, hsound, hsized⟩, hslide, hslots⟩

/-- Setting the indentation of one line of a chain. The answer is the token that begins the line. -/
theorem Steady.setIndent_line_start {A R : List Entry} {l : Line Entry}
    (h : c.Steady (A ++ (l.items ++ R))) (hl : l.Proper)
    (hR : ∀ r ∈ R.head?, r.2.beginsLine = true) (hroom : c.slots.size < slotLimit)
    (hlevel : level < signedLimit) :
    ∃ e l', c.setIndent l.start.1 level = .ok e ∧ e.value = l'.start.1 ∧
      e.chain.Steady (A ++ (l'.items ++ R)) ∧ Refit level l l' ∧ l'.Proper ∧
      e.chain.slots.size ≤ c.slots.size + 1 := by
  have hat : c.Steady (A ++ (l.start.1, l.start.2) :: (l.behind ++ R)) := by
    simpa [l.items_eq] using h
  obtain ⟨e, L, hok, hsteady, hre, hslots⟩ := hat.setIndent hl.begins hroom hlevel
  obtain ⟨⟨u, S, hfront⟩, -⟩ := hre.front
  obtain ⟨l', hL, hrefit, hproper⟩ := hre.confined h.sound.placed hl hR
  subst hL
  rw [l'.items_eq, List.cons_append] at hfront
  have hstart := (List.cons.inj (List.append_cancel_left hfront)).1
  exact ⟨e, l', hok, (congrArg Prod.fst hstart).symm, hsteady, hrefit, hproper, hslots⟩

theorem Steady.setIndent_line {A R : List Entry} {l : Line Entry}
    (h : c.Steady (A ++ (l.items ++ R))) (hl : l.Proper)
    (hR : ∀ r ∈ R.head?, r.2.beginsLine = true) (hroom : c.slots.size < slotLimit)
    (hlevel : level < signedLimit) :
    ∃ e l', c.setIndent l.start.1 level = .ok e ∧ e.chain.Steady (A ++ (l'.items ++ R)) ∧
      Refit level l l' ∧ l'.Proper ∧ e.chain.slots.size ≤ c.slots.size + 1 := by
  obtain ⟨e, l', hok, -, hrest⟩ := h.setIndent_line_start hl hR hroom hlevel
  exact ⟨e, l', hok, hrest⟩

end Steady

end TokenChain

end LineLayout
