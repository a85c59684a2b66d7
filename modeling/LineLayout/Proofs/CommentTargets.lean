-- Aligned comments reach their targets. Code never moves while comments are aligned: on a line that
-- moves, code can only stand on a later row. So a comment that goes to the column of the code below
-- is still at that column in the end, and a comment without a column to go to stays.
import LineLayout.Proofs.IndentedLine

namespace LineLayout

/-- The first code of a list, when it stands below this row and closes no block. -/
def AnchoredAt (closers : List String) (row : Nat) (R : List Entry) (anchor : Entry) : Prop :=
  ∃ S B, R = S ++ anchor :: B ∧ (∀ e ∈ S, e.2.isTrivia = true) ∧ anchor.2.isTrivia = false ∧
    row < anchor.2.row ∧
    ∀ word ∈ closers, ¬ (anchor.2.kind = .reservedWord ∧ Token.sameWord anchor.2.text word = true)

namespace TokenChain

/-- Only whitespace stands in front of the token on its line. -/
def Standalone (c : TokenChain) (id : TokenId) : Prop :=
  ∃ start t, c.get? start = some t ∧ t.beginsLine = true ∧ c.firstContent? start = some id

/-- For a comment, the search for the start of its line gives an answer exactly when it stands
alone. -/
def FindsStandalone (c : TokenChain) : Prop :=
  ∀ id t, c.get? id = some t → t.isComment = true →
    ((c.standaloneStart? id).isSome = true ↔ c.Standalone id)

/-- A standalone comment that is let through, and the first code behind it, which stands below the
row where the comment ends. -/
structure Aims (c : TokenChain) (closers : List String) (accepts : Token → Bool)
    (id anchor : TokenId) : Prop where
  standalone : c.Standalone id
  behind : ∃ A t R code, c.entries = A ++ (id, t) :: R ∧ t.isComment = true ∧ accepts t = true ∧
    AnchoredAt closers (t.row + t.lineBreaks) R (anchor, code)

/-- The standalone comments are where they belong, `count` of them at the code that they aim at. -/
structure CommentsAligned (c : TokenChain) (closers : List String) (accepts : Token → Bool)
    (count : Nat) (d : TokenChain) : Prop where
  aimed : ∀ id anchor, c.Aims closers accepts id anchor →
    ∃ t code, d.get? id = some t ∧ d.get? anchor = some code ∧ t.col = code.col
  others : ∀ id t, c.get? id = some t → t.isComment = true → c.Standalone id →
    (∀ anchor, ¬ c.Aims closers accepts id anchor) →
    ∃ u, d.get? id = some u ∧ u.row = t.row ∧ u.col = t.col
  standalone : ∀ id, d.Standalone id ↔ c.Standalone id
  found : c.FindsStandalone ∧ d.FindsStandalone
  counted : ∃ ids : List TokenId, ids.Nodup ∧
    (∀ id, id ∈ ids ↔ ∃ anchor, c.Aims closers accepts id anchor) ∧ count = ids.length

end TokenChain

/-! ## Lines and the comments on them -/

theorem Settled.first? {column : Option Nat} {l l' : Line Entry} (h : Settled column l l') :
    l'.first?.map Prod.fst = l.first?.map Prod.fst := by
  cases column with
  | none =>
    have hl : l' = l := h
    rw [hl]
  | some column =>
    have hrefit : Refit column l l' := h
    cases hrefit with
    | blank e => rfl
    | content lead first rest lead' first' rest' _ _ hfirst _ =>
      have hid := congrArg Prod.fst hfirst
      exact congrArg some hid

theorem Refitted.firsts {ls ls' : List (Line Entry)} (h : Refitted ls ls') :
    ls'.map (fun l => l.first?.map Prod.fst) = ls.map fun l => l.first?.map Prod.fst := by
  induction h with
  | nil => rfl
  | cons hsettled _ ih =>
    obtain ⟨column, hsettled⟩ := hsettled
    rw [List.map_cons, List.map_cons, hsettled.first?, ih]

theorem TokenChain.Steady.standalone_iff {c : TokenChain} {ls : List (Line Entry)}
    (h : c.Steady (flat ls)) (hls : ∀ l ∈ ls, l.Proper) (id : TokenId) :
    c.Standalone id ↔ some id ∈ ls.map fun l => l.first?.map Prod.fst := by
  have hline : ∀ P l Q, ls = P ++ l :: Q →
      c.firstContent? l.start.1 = l.first?.map Prod.fst := by
    rintro P l Q rfl
    have hholds := h.holds
    have hplaced := h.sound.placed
    rw [flat_append, flat_cons] at hholds hplaced
    simp only [List.forall_mem_append, List.forall_mem_cons] at hls
    exact hholds.firstContent?_line hplaced hls.2.1 (head?_flat hls.2.2)
  constructor
  · rintro ⟨start, t, hget, hb, hfirst⟩
    obtain ⟨P, l, Q, hsplit, hstart⟩ := exists_line hls (h.holds.mem_of_get? hget) hb
    have hid := hline P l Q hsplit
    rw [hstart, hfirst] at hid
    rw [hid, hsplit]
    exact List.mem_map_of_mem (by simp)
  · intro hid
    obtain ⟨l, hl, hfirst⟩ := List.mem_map.mp hid
    obtain ⟨P, Q, hsplit⟩ := List.append_of_mem hl
    refine ⟨l.start.1, l.start.2, ?_, (hls l hl).begins, ?_⟩
    · apply h.holds.get?_of_mem
      rw [hsplit, flat_append, flat_cons]
      simp [l.start_mem_items]
    · rw [hline P l Q hsplit, hfirst]

theorem TokenChain.Steady.exists_first {c : TokenChain} {ls : List (Line Entry)}
    (h : c.Steady (flat ls)) (hls : ∀ l ∈ ls, l.Proper) {id : TokenId} (hid : c.Standalone id) :
    ∃ P lead first rest Q, ls = P ++ .content lead first rest :: Q ∧ first.1 = id := by
  obtain ⟨l, hl, hfirst⟩ := List.mem_map.mp ((h.standalone_iff hls id).mp hid)
  obtain ⟨P, Q, rfl⟩ := List.append_of_mem hl
  cases l with
  | blank e => cases hfirst
  | content lead first rest => exact ⟨P, lead, first, rest, Q, rfl, Option.some.inj hfirst⟩

theorem TokenChain.Steady.findsStandalone {c : TokenChain} {ls : List (Line Entry)}
    (h : c.Steady (flat ls)) (hls : ∀ l ∈ ls, l.Proper) : c.FindsStandalone := by
  intro id t hget hcomment
  constructor
  · intro hsome
    obtain ⟨l, hl, hin⟩ := List.mem_flatMap.mp (h.holds.mem_of_get? hget)
    have hkind : t.kind = .comment := by simpa [Token.isComment] using hcomment
    have hw : t.isWhitespace = false := by simp [Token.isWhitespace, hkind]
    have hcore := (hls l hl).mem_core hin hw
    cases l with
    | blank e =>
      have hblank : e.2.isWhitespace = true := (hls _ hl).1
      rw [← List.mem_singleton.mp hcore, hw] at hblank
      cases hblank
    | content lead first rest =>
      rcases List.mem_cons.mp hcore with hfirst | hrest
      · rw [h.standalone_iff hls]
        exact List.mem_map.mpr ⟨_, hl, congrArg (some ∘ Prod.fst) hfirst.symm⟩
      · obtain ⟨P, Q, rfl⟩ := List.append_of_mem hl
        have hholds := h.holds
        rw [flat_append, flat_cons] at hholds
        rw [hholds.standaloneStart?_rest (hls _ hl) (List.mem_map_of_mem hrest)] at hsome
        cases hsome
  · intro hid
    obtain ⟨P, lead, first, rest, Q, rfl, rfl⟩ := h.exists_first hls hid
    have hholds := h.holds
    rw [flat_append, flat_cons] at hholds
    rw [hholds.standaloneStart?_first (hls _ (by simp))]
    rfl

/-! ## The code that a comment aims at -/

theorem flat_content (P Q : List (Line Entry)) (lead : Option Entry) (first : Entry)
    (rest : List Entry) : flat (P ++ .content lead first rest :: Q) =
      (flat P ++ lead.toList) ++ first :: (rest ++ flat Q) := by
  simp [flat_append, Line.items]

theorem split_unique {A B A' B' : List Entry} {e e' : Entry}
    (hnd : ((A ++ e :: B).map Prod.fst).Nodup) (h : A ++ e :: B = A' ++ e' :: B')
    (hid : e.1 = e'.1) : A = A' ∧ e = e' ∧ B = B' := by
  have hA : e' ∉ A := fun hm => TokenChain.ids_ne_of_distinct hnd
    (Or.inl (List.mem_map_of_mem hm)) hid.symm
  have hB : e' ∉ B := fun hm => TokenChain.ids_ne_of_distinct hnd
    (Or.inr (List.mem_map_of_mem hm)) hid.symm
  exact (List.append_cons_inj_of_notMem hA hB).mp h

/-- No code behind a comment stands further up than the code that it aims at. -/
theorem AnchoredAt.row_lt {closers : List String} {row : Nat} {R : List Entry} {anchor e : Entry}
    (h : AnchoredAt closers row R anchor) {before : Option Token} (hp : PlacedAfter before R)
    (he : e ∈ R) (hcode : e.2.isTrivia = false) : row < e.2.row := by
  obtain ⟨S, B, rfl, hS, -, hrow, -⟩ := h
  rcases List.mem_append.mp he with hm | hm
  · rw [hS e hm] at hcode
    cases hcode
  rcases List.mem_cons.mp hm with rfl | hm
  · exact hrow
  · have hle := (placed_append.mp hp).2.2.row_le e hm
    have hstop : (stopOf (some anchor.2)).row = anchor.2.row + anchor.2.lineBreaks :=
      anchor.2.following_row
    omega

theorem not_closesBlock {closers : List String} {t : Token} :
    ¬ t.closesBlock closers = true ↔
      ∀ word ∈ closers, ¬ (t.kind = .reservedWord ∧ Token.sameWord t.text word = true) := by
  simp [Token.closesBlock, Token.isWord]

theorem target_eq_some {closers : List String} {t : Token} {R : List Entry} {column : Nat} :
    target closers t (R.map Prod.snd) = some column ↔
      ∃ anchor, AnchoredAt closers (t.row + t.lineBreaks) R anchor ∧ anchor.2.col = column := by
  unfold target
  rw [Option.bind_eq_some_iff, ← Token.following_row]
  constructor
  · rintro ⟨code, hfind, hcode⟩
    rw [List.find?_map, Option.map_eq_some_iff] at hfind
    obtain ⟨anchor, hfind, rfl⟩ := hfind
    obtain ⟨hp, S, B, rfl, hS⟩ := List.find?_eq_some_iff_append.mp hfind
    split at hcode
    · cases hcode
    · next hnot =>
      rw [not_or, not_closesBlock, Nat.not_le] at hnot
      refine ⟨anchor, ⟨S, B, rfl, ?_, by simpa using hp, hnot.1, hnot.2⟩, Option.some.inj hcode⟩
      intro e he
      simpa using hS e he
  · rintro ⟨anchor, ⟨S, B, rfl, hS, hcode, hrow, hcloses⟩, rfl⟩
    refine ⟨anchor.2, ?_, ?_⟩
    · rw [List.find?_map, Option.map_eq_some_iff]
      refine ⟨anchor, List.find?_eq_some_iff_append.mpr ⟨by simp [hcode], S, B, rfl, ?_⟩, rfl⟩
      intro e he
      simp [hS e he]
    · rw [if_neg]
      rw [not_or, not_closesBlock, Nat.not_le]
      exact ⟨hrow, hcloses⟩

/-- A line has a column to go to when its content starts with a comment that aims at code. -/
theorem goal_eq_some {closers : List String} {accepts : Token → Bool} {lead : Option Entry}
    {first : Entry} {rest below : List Entry} {column : Nat} :
    goal closers accepts (.content lead first rest) below = some column ↔
      first.2.isComment = true ∧ accepts first.2 = true ∧
        ∃ anchor, AnchoredAt closers (first.2.row + first.2.lineBreaks) (rest ++ below) anchor ∧
          anchor.2.col = column := by
  rw [← target_eq_some, ← and_assoc, ← Bool.and_eq_true]
  simp only [goal]
  by_cases hf : (first.2.isComment && accepts first.2) = true
  · simp [hf]
  · simp [hf]

section Aims

variable {c : TokenChain} {closers : List String} {accepts : Token → Bool}

theorem TokenChain.Aims.exists_goal {ls : List (Line Entry)} {id anchor : TokenId}
    (h : c.Aims closers accepts id anchor) (hc : c.Steady (flat ls)) (hls : ∀ l ∈ ls, l.Proper) :
    ∃ P lead first rest Q code, ls = P ++ .content lead first rest :: Q ∧ first.1 = id ∧
      goal closers accepts (.content lead first rest) (flat Q) = some code.col ∧
      (anchor, code) ∈ flat ls ∧ code.isTrivia = false := by
  obtain ⟨A, t, R, code, hentries, hcomment, haccepts, hanchor⟩ := h.behind
  rw [hc.holds.entries_eq] at hentries
  obtain ⟨P, lead, first, rest, Q, rfl, hfirst⟩ := hc.exists_first hls h.standalone
  have hnd := hc.holds.distinct
  rw [flat_content] at hentries hnd
  obtain ⟨-, rfl, rfl⟩ := split_unique hnd hentries hfirst
  refine ⟨P, lead, _, rest, Q, code, rfl, rfl,
    goal_eq_some.mpr ⟨hcomment, haccepts, _, hanchor, rfl⟩, ?_, ?_⟩
  · obtain ⟨S, B, hsplit, -⟩ := hanchor
    rw [flat_content, hsplit]
    simp
  · obtain ⟨S, B, -, -, hcode, -⟩ := hanchor
    exact hcode

theorem TokenChain.Steady.exists_aims {P Q : List (Line Entry)} {lead : Option Entry}
    {first : Entry} {rest : List Entry} {column : Nat}
    (h : c.Steady (flat (P ++ .content lead first rest :: Q)))
    (hls : ∀ l ∈ P ++ .content lead first rest :: Q, l.Proper)
    (hgoal : goal closers accepts (.content lead first rest) (flat Q) = some column) :
    ∃ anchor, c.Aims closers accepts first.1 anchor := by
  obtain ⟨hcomment, haccepts, anchor, hanchor, -⟩ := goal_eq_some.mp hgoal
  refine ⟨anchor.1, ?_, flat P ++ lead.toList, first.2, rest ++ flat Q, anchor.2, ?_, hcomment,
    haccepts, hanchor⟩
  · rw [h.standalone_iff hls]
    exact List.mem_map.mpr ⟨.content lead first rest, by simp, rfl⟩
  · rw [h.holds.entries_eq, flat_content]

theorem mem_aimedIds_cons {l : Line Entry} {ls : List (Line Entry)} {id : TokenId} :
    id ∈ aimedIds closers accepts (l :: ls) ↔
      (∃ lead first rest column, l = .content lead first rest ∧ first.1 = id ∧
        goal closers accepts (.content lead first rest) (flat ls) = some column) ∨
      id ∈ aimedIds closers accepts ls := by
  cases l with
  | blank e => simp [aimedIds]
  | content lead first rest =>
    cases hgoal : goal closers accepts (.content lead first rest) (flat ls) with
    | none =>
      simp only [aimedIds, hgoal]
      refine ⟨Or.inr, ?_⟩
      rintro (⟨_, _, _, _, ⟨⟩, -, hsome⟩ | h)
      · rw [hgoal] at hsome
        cases hsome
      · exact h
    | some column =>
      simp only [aimedIds, hgoal, List.mem_cons]
      constructor
      · rintro (rfl | h)
        · exact Or.inl ⟨lead, first, rest, column, rfl, rfl, hgoal⟩
        · exact Or.inr h
      · rintro (⟨_, _, _, _, ⟨⟩, rfl, -⟩ | h)
        · exact Or.inl rfl
        · exact Or.inr h

theorem mem_aimedIds {ls : List (Line Entry)} {id : TokenId} :
    id ∈ aimedIds closers accepts ls ↔
      ∃ P lead first rest Q column, ls = P ++ .content lead first rest :: Q ∧ first.1 = id ∧
        goal closers accepts (.content lead first rest) (flat Q) = some column := by
  constructor
  · intro h
    induction ls with
    | nil => cases h
    | cons l ls ih =>
      rcases mem_aimedIds_cons.mp h with ⟨lead, first, rest, column, rfl, hid, hgoal⟩ | h
      · exact ⟨[], lead, first, rest, ls, column, rfl, hid, hgoal⟩
      · obtain ⟨P, lead, first, rest, Q, column, rfl, hrest⟩ := ih h
        exact ⟨l :: P, lead, first, rest, Q, column, rfl, hrest⟩
  · rintro ⟨P, lead, first, rest, Q, column, rfl, hrest⟩
    induction P with
    | nil => exact mem_aimedIds_cons.mpr (Or.inl ⟨lead, first, rest, column, rfl, hrest⟩)
    | cons l P ih => exact mem_aimedIds_cons.mpr (Or.inr ih)

theorem aimedIds_sublist (ls : List (Line Entry)) :
    (aimedIds closers accepts ls).Sublist ((flat ls).map Prod.fst) := by
  induction ls with
  | nil => exact List.Sublist.refl _
  | cons l ls ih =>
    rw [flat_cons, List.map_append]
    have hlater := ih.trans (List.sublist_append_right (l.items.map Prod.fst) _)
    cases l with
    | blank e => exact hlater
    | content lead first rest =>
      unfold aimedIds
      split
      · have hfirst : [first.1].Sublist ((Line.content lead first rest).items.map Prod.fst) := by
          rw [List.singleton_sublist]
          exact List.mem_map_of_mem (by simp [Line.items])
        exact hfirst.append ih
      · exact hlater

end Aims

/-! ## Where the tokens of a line end up -/

/-- A chain before and after its comments were aligned. -/
structure Realigned (closers : List String) (accepts : Token → Bool) (c d : TokenChain)
    (ls ls' : List (Line Entry)) : Prop where
  steady : c.Steady (flat ls)
  steady' : d.Steady (flat ls')
  proper : ∀ l ∈ ls, l.Proper
  proper' : ∀ l ∈ ls', l.Proper
  aligned : Aligned closers accepts ls ls'

theorem Aligned.split {closers : List String} {accepts : Token → Bool} {P Q ls' : List (Line Entry)}
    {l : Line Entry} (h : Aligned closers accepts (P ++ l :: Q) ls') :
    ∃ P' l' Q', ls' = P' ++ l' :: Q' ∧ Refitted P P' ∧
      Settled (goal closers accepts l (flat Q)) l l' := by
  induction P generalizing ls' with
  | nil =>
    cases h with
    | cons hsettled _ => exact ⟨[], _, _, rfl, .nil, hsettled⟩
  | cons p P ih =>
    cases h with
    | cons hsettled hrest =>
      obtain ⟨P', l', Q', rfl, hP, hl⟩ := ih hrest
      exact ⟨_ :: P', l', Q', rfl, .cons ⟨_, hsettled⟩ hP, hl⟩

namespace Realigned

variable {closers : List String} {accepts : Token → Bool} {c d : TokenChain}
  {P Q ls ls' : List (Line Entry)} {l : Line Entry}

theorem line (h : Realigned closers accepts c d (P ++ l :: Q) ls') :
    ∃ l' before before', (∀ e ∈ l'.items, d.get? e.1 = some e.2) ∧
      Settled (goal closers accepts l (flat Q)) l l' ∧ l.Proper ∧ l'.Proper ∧
      PlacedAfter before l.items ∧ PlacedAfter before' l'.items ∧
      stopOf before' = stopOf before ∧ (∀ e ∈ l.items, e.2.unbroken) ∧
      ∀ e ∈ l'.items, e.2.unbroken := by
  obtain ⟨P', l', Q', rfl, hP, hsettled⟩ := h.aligned.split
  have hp := h.steady.sound.placed
  have hp' := h.steady'.sound.placed
  have hplain := h.steady.sound.plain
  have hplain' := h.steady'.sound.plain
  have hproper := h.proper
  have hproper' := h.proper'
  simp only [List.forall_mem_append, List.forall_mem_cons] at hproper hproper'
  simp only [flat_append, flat_cons, List.forall_mem_append] at hplain hplain'
  have hstop := hP.stops hp (placed_append.mp (by rwa [flat_append] at hp')).1 rfl (by simp)
    h.proper hproper'.1 hplain.1 hplain'.1
  rw [flat_append, flat_cons, placed_append, placed_append] at hp hp'
  refine ⟨l', _, _, ?_, hsettled, hproper.2.1, hproper'.2.1, hp.2.1, hp'.2.1, hstop, hplain.2.1,
    hplain'.2.1⟩
  intro e he
  apply h.steady'.holds.get?_of_mem
  simp [flat_append, he]

theorem stays (h : Realigned closers accepts c d (P ++ l :: Q) ls')
    (hgoal : goal closers accepts l (flat Q) = none) : ∀ e ∈ l.items, d.get? e.1 = some e.2 := by
  obtain ⟨l', before, before', hget, hsettled, -⟩ := h.line
  rw [hgoal] at hsettled
  have hl : l' = l := hsettled
  rw [← hl]
  exact hget

/-- A line with a column starts its content there, and what stands on a later row stays. -/
theorem moves {lead : Option Entry} {first : Entry} {rest : List Entry} {column : Nat}
    (h : Realigned closers accepts c d (P ++ .content lead first rest :: Q) ls')
    (hgoal : goal closers accepts (.content lead first rest) (flat Q) = some column) :
    (∃ t, d.get? first.1 = some t ∧ t.col = column) ∧
      ∀ e ∈ first :: rest, first.2.row < e.2.row →
        ∃ u, d.get? e.1 = some u ∧ u.position = e.2.position := by
  obtain ⟨l', before, before', hget, hsettled, hl, hl', hp, hp', hstop, hplain, hplain'⟩ := h.line
  rw [hgoal] at hsettled
  have hrefit : Refit column (.content lead first rest) l' := hsettled
  obtain ⟨hmoved, hhead, -⟩ := hrefit.moved hp hp' hstop hl hl' hplain hplain'
  have hrow : (stopOf before).row ≤ first.2.row := hp.row_le first (by simp [Line.items])
  have hcol : (stopOf before).col = 0 := by
    rw [Line.items_eq] at hp
    rw [← hp.1.place]
    exact hp.1.col_of_beginsLine hl.begins
  constructor
  · obtain ⟨first', rest', hfirst, -, hcore⟩ := List.forall₂_cons_left_iff.mp hmoved
    refine ⟨first'.2, ?_, ?_⟩
    · rw [← hfirst.id_eq]
      exact hget first' (Line.mem_items_of_core (by rw [hcore]; exact List.mem_cons_self))
    · have hplace := congrArg Position.col (hhead first' (by rw [hcore]; rfl))
      rw [hcol, Nat.zero_add] at hplace
      exact hplace
  · intro e he hlt
    obtain ⟨e', he', hm⟩ := exists_right_of_mem hmoved he
    refine ⟨e'.2, ?_, hm.place.eq_of_row_ne ?_⟩
    · rw [← hm.id_eq]
      exact hget e' (Line.mem_items_of_core he')
    · simp only [Token.position]
      omega

theorem code_stays (h : Realigned closers accepts c d ls ls') {e : Entry} (he : e ∈ flat ls)
    (hcode : e.2.isTrivia = false) : ∃ u, d.get? e.1 = some u ∧ u.position = e.2.position := by
  obtain ⟨l, hl, hel⟩ := List.mem_flatMap.mp he
  obtain ⟨P, Q, rfl⟩ := List.append_of_mem hl
  cases hgoal : goal closers accepts l (flat Q) with
  | none => exact ⟨e.2, h.stays hgoal e hel, rfl⟩
  | some column =>
    match l with
    | .blank item => cases hgoal
    | .content lead first rest =>
      obtain ⟨hcomment, -, anchor, hanchor, -⟩ := goal_eq_some.mp hgoal
      have hp := h.steady.sound.placed
      rw [flat_content] at hp
      have hbehind : PlacedAfter (some first.2) (rest ++ flat Q) := (placed_append.mp hp).2.2
      have hcore := (h.proper _ hl).mem_core hel (Bool.or_eq_false_iff.mp hcode).1
      rcases List.mem_cons.mp hcore with rfl | hrest
      · simp [Token.isTrivia, hcomment] at hcode
      · have hrow := hanchor.row_lt hbehind (List.mem_append_left _ hrest) hcode
        exact (h.moves hgoal).2 e hcore (by omega)

theorem commentsAligned (h : Realigned closers accepts c d ls ls') :
    c.CommentsAligned closers accepts (aimedIds closers accepts ls).length d := by
  refine ⟨?_, ?_, ?_, ⟨h.steady.findsStandalone h.proper, h.steady'.findsStandalone h.proper'⟩,
    aimedIds closers accepts ls, ?_, ?_, rfl⟩
  · intro id anchor haims
    obtain ⟨P, lead, first, rest, Q, code, rfl, rfl, hgoal, hmem, hcode⟩ :=
      haims.exists_goal h.steady h.proper
    obtain ⟨t, ht, hcol⟩ := (h.moves hgoal).1
    obtain ⟨u, hu, hplace⟩ := h.code_stays hmem hcode
    have hucol : u.col = code.col := congrArg Position.col hplace
    exact ⟨t, u, ht, hu, hcol.trans hucol.symm⟩
  · intro id t hget hcomment hstandalone hnot
    obtain ⟨P, lead, first, rest, Q, rfl, rfl⟩ := h.steady.exists_first h.proper hstandalone
    have hitem : first ∈ (Line.content lead first rest).items := by simp [Line.items]
    have hfirst : c.get? first.1 = some first.2 := by
      apply h.steady.holds.get?_of_mem
      rw [flat_append, flat_cons]
      simp [hitem]
    rw [hget] at hfirst
    have ht : t = first.2 := Option.some.inj hfirst
    cases hgoal : goal closers accepts (.content lead first rest) (flat Q) with
    | none => exact ⟨first.2, h.stays hgoal first hitem, by rw [ht], by rw [ht]⟩
    | some column =>
      obtain ⟨anchor, haims⟩ := h.steady.exists_aims h.proper hgoal
      exact absurd haims (hnot anchor)
  · intro id
    rw [h.steady.standalone_iff h.proper, h.steady'.standalone_iff h.proper',
      h.aligned.refitted.firsts]
  · exact (aimedIds_sublist ls).nodup h.steady.holds.distinct
  · intro id
    rw [mem_aimedIds]
    constructor
    · rintro ⟨P, lead, first, rest, Q, column, rfl, rfl, hgoal⟩
      exact h.steady.exists_aims h.proper hgoal
    · rintro ⟨anchor, haims⟩
      obtain ⟨P, lead, first, rest, Q, code, hsplit, hid, hgoal, -⟩ :=
        haims.exists_goal h.steady h.proper
      exact ⟨P, lead, first, rest, Q, code.col, hsplit, hid, hgoal⟩

end Realigned

/-- Aligning the comments of these lines gives the same lines, each one where it goes. -/
theorem TokenChain.Steady.realigned {c : TokenChain} {ls : List (Line Entry)}
    (h : c.Steady (flat ls)) (hls : ∀ l ∈ ls, l.Proper) (closers : List String)
    (accepts : Token → Bool) (hfits : c.Fits (c.toList.filter Token.isComment).length) :
    ∃ e ls', c.alignStandalone closers accepts = .ok e ∧
      Realigned closers accepts c e.chain ls ls' ∧
      e.value = (aimedIds closers accepts ls).length := by
  have hcount := TokenChain.commentIds_length_le accepts h.holds
  have htext := h.holds.short_text hfits.text
  have hroom := hfits.room
  obtain ⟨e, ls', hok, hsteady, haligned, hproper, -, hvalue⟩ :=
    h.alignStandalone closers accepts hls (by omega) htext
  exact ⟨e, ls', hok, ⟨h, hsteady, hls, hproper, haligned⟩, hvalue⟩

/-- A consistent chain is a list of lines, so its comments are aligned line by line. -/
theorem TokenChain.Consistent.realigned {c : TokenChain} (hc : c.Consistent)
    (closers : List String) (accepts : Token → Bool)
    (hfits : c.Fits (c.toList.filter Token.isComment).length) :
    ∃ e ls ls', c.alignStandalone closers accepts = .ok e ∧
      Realigned closers accepts c e.chain ls ls' ∧
      e.value = (aimedIds closers accepts ls).length := by
  obtain ⟨L, hL⟩ := hc.steady hfits.text
  obtain ⟨ls, rfl, hls⟩ := hL.sound.exists_lines
  obtain ⟨e, ls', hrun⟩ := hL.realigned hls closers accepts hfits
  exact ⟨e, ls, ls', hrun⟩

/-- Aligning the comments of a consistent chain brings every standalone comment that aims at code to
the column of this code. The others stay, and all of them still stand alone. -/
theorem aligned_comments_reach_their_code (c : TokenChain) (closers : List String)
    (accepts : Token → Bool) (hc : c.Consistent)
    (hfits : c.Fits (c.toList.filter Token.isComment).length) :
    ∃ e, c.alignStandalone closers accepts = .ok e ∧
      c.CommentsAligned closers accepts e.value e.chain := by
  obtain ⟨e, ls, ls', hok, hrealigned, hvalue⟩ := hc.realigned closers accepts hfits
  refine ⟨e, hok, ?_⟩
  rw [hvalue]
  exact hrealigned.commentsAligned

/-- Two comments in front of code, one of them over two lines with a third behind it, and one
comment in front of a word that closes a block. -/
def notedTokens : List Token :=
  [{ text := "  ", kind := .whitespace, beginsLine := true },
    { text := "\x7ba\x7d", kind := .comment, col := 2 },
    { text := "\n", kind := .whitespace, endsLine := true, col := 5 },
    { text := "\x7bb\nc\x7d", kind := .comment, beginsLine := true, row := 1 },
    { text := " ", kind := .whitespace, row := 2, col := 2 },
    { text := "// d", kind := .comment, row := 2, col := 3 },
    { text := "\n", kind := .whitespace, endsLine := true, row := 2, col := 7 },
    { text := "\t", kind := .whitespace, beginsLine := true, row := 3 },
    { text := "x", kind := .identifier, row := 3, col := 1 },
    { text := "\n", kind := .whitespace, endsLine := true, row := 3, col := 2 },
    { text := "// e", kind := .comment, beginsLine := true, row := 4 },
    { text := "\n", kind := .whitespace, endsLine := true, row := 4, col := 4 },
    { text := "end", kind := .reservedWord, beginsLine := true, row := 5 }]

theorem noted_comments_reach_their_code :
    (TokenChain.ofList notedTokens).Consistent ∧
    (TokenChain.ofList notedTokens).Fits
      ((TokenChain.ofList notedTokens).toList.filter Token.isComment).length ∧
    ((TokenChain.ofList notedTokens).alignStandalone ["END"] fun _ => true).map Edited.value =
      .ok 2 ∧
    ∃ e, (TokenChain.ofList notedTokens).alignStandalone ["END"] (fun _ => true) = .ok e ∧
      (TokenChain.ofList notedTokens).CommentsAligned ["END"] (fun _ => true) e.value e.chain := by
  have hc : (TokenChain.ofList notedTokens).Consistent :=
    TokenChain.consistent_ofList (by decide) (by decide +kernel) (by decide +kernel)
  have hfits : (TokenChain.ofList notedTokens).Fits
      ((TokenChain.ofList notedTokens).toList.filter Token.isComment).length := by decide +kernel
  exact ⟨hc, hfits, by decide +kernel, aligned_comments_reach_their_code _ _ _ hc hfits⟩

end LineLayout
