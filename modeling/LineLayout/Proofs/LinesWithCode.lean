-- Lines that start with a comment and hold code. For such a line there is no column to go to when
-- the code stands on the row where the comment ends. So the line is kept as long as nothing between
-- its comment and its code breaks it. Behind a second comment over several rows the code is taken
-- for that of a later line: the line moves, unless the code closes a block.
import LineLayout.Proofs.CommentTargets
import LineLayout.Proofs.EditOrder

namespace LineLayout

namespace TokenChain

/-- The tokens from one to another, both included. -/
def stretch (c : TokenChain) (first last : TokenId) : List Entry :=
  (c.entriesFrom first).take ((c.entriesFrom first).findIdx (fun e => e.1 == last) + 1)

/-- The whitespace and the comments between a token and the code behind it. -/
def gapBehind (c : TokenChain) (id : TokenId) : List Entry :=
  (c.entriesFrom id).tail.takeWhile fun e => e.2.isTrivia

/-- The pass leaves this line as it is and does not count its comment: without this comment it
counts as many. -/
structure LineKept (c : TokenChain) (closers : List String) (accepts : Token → Bool)
    (line : List Entry) (comment : Token) (e : Edited Nat) : Prop where
  kept : ∀ x ∈ line, e.chain.get? x.1 = some x.2
  uncounted : (c.alignStandalone closers fun t => accepts t && t != comment).map Edited.value =
    .ok e.value

end TokenChain

/-! ## Tokens at different places -/

/-- A place further up, or on the same row further to the front. -/
def Position.Before (p q : Position) : Prop := p.row < q.row ∨ p.row = q.row ∧ p.col < q.col

theorem Position.Before.trans {p q r : Position} (h : p.Before q) (k : q.Before r) :
    p.Before r := by
  unfold Before at *
  omega

theorem Position.before_after (p : Position) {text : List Char} (h : text ≠ []) :
    p.Before (p.after text) := by
  by_cases hb : '\n' ∈ text
  · left
    rw [after_of_break p hb]
    exact Nat.lt_add_of_pos_right (List.count_pos_iff.mpr hb)
  · right
    rw [after_of_plain p hb]
    exact ⟨rfl, Nat.lt_add_of_pos_right (List.length_pos_iff.mpr h)⟩

theorem PlacedAfter.before {t : Token} {L : List Entry} (h : PlacedAfter (some t) L)
    (ht : t.text.toList ≠ []) (hL : ∀ e ∈ L, e.2.text.toList ≠ []) :
    ∀ e ∈ L, t.position.Before e.2.position := by
  induction L generalizing t with
  | nil => simp
  | cons e rest ih =>
    rw [List.forall_mem_cons] at hL ⊢
    have hnext : t.position.Before e.2.position := by
      rw [h.1.place]
      exact t.position.before_after ht
    exact ⟨hnext, fun x hx => hnext.trans (ih h.2 hL.1 hL.2 x hx)⟩

theorem PlacedAfter.nodup_tokens {before : Option Token} {L : List Entry}
    (h : PlacedAfter before L) (hL : ∀ e ∈ L, e.2.text.toList ≠ []) :
    (L.map Prod.snd).Nodup := by
  induction L generalizing before with
  | nil => exact List.nodup_nil
  | cons e rest ih =>
    rw [List.forall_mem_cons] at hL
    rw [List.map_cons, List.nodup_cons]
    refine ⟨?_, ih h.2 hL.2⟩
    intro hmem
    obtain ⟨x, hx, heq⟩ := List.mem_map.mp hmem
    have hlater := h.2.before hL.1 hL.2 x hx
    rw [heq] at hlater
    unfold Position.Before at hlater
    omega

theorem Fresh.nonempty {features : Features} {L : List Entry} (h : Fresh features L) :
    ∀ e ∈ L, e.2.text.toList ≠ [] := by
  intro e he
  obtain ⟨A, B, rfl⟩ := List.append_of_mem he
  exact (cuts_of_lexed h.lexed).text_ne_nil

/-! ## The line of a standalone comment -/

theorem TokenChain.Holds.stretch_eq {c : TokenChain} {A S R : List Entry} {first last : Entry}
    (h : c.Holds (A ++ (S ++ R))) (hfirst : S.head? = some first) (hlast : S.getLast? = some last) :
    c.stretch first.1 last.1 = S := by
  have hfrom : c.entriesFrom first.1 = S ++ R := by
    obtain ⟨S', rfl⟩ := List.head?_eq_some_iff.mp hfirst
    exact h.entriesFrom_at
  obtain ⟨front, rfl⟩ := List.getLast?_eq_some_iff.mp hlast
  have hnd : ((A ++ front ++ last :: R).map Prod.fst).Nodup := by simpa using h.distinct
  have hne : ∀ e ∈ front, (e.1 == last.1) = false := by
    intro e he
    have hmem : e.1 ∈ (A ++ front).map Prod.fst := List.mem_map_of_mem (by simp [he])
    exact beq_false_of_ne (ids_ne_of_distinct hnd (Or.inl hmem))
  have hidx : (front ++ [last] ++ R).findIdx (fun e => e.1 == last.1) = front.length := by
    rw [List.append_assoc, List.findIdx_append, List.findIdx_eq_length.mpr hne]
    simp [List.findIdx_cons]
  unfold stretch
  rw [hfrom, hidx, List.take_left' (by simp)]

section Line

variable {c : TokenChain} {features : Features} {P Q : List (Line Entry)} {lead : Option Entry}
  {first : Entry} {rest : List Entry}

theorem TokenChain.Steady.lineLast?_content
    (h : c.Steady (flat (P ++ .content lead first rest :: Q)))
    (hf : Fresh features (flat (P ++ .content lead first rest :: Q)))
    (hls : ∀ l ∈ P ++ .content lead first rest :: Q, l.Proper) :
    ∃ last, (first :: rest).getLast? = some last ∧ c.lineLast? first.1 = some last.1 := by
  have hholds := h.holds
  have hplaced := h.sound.placed
  have hclosed := hf.closed
  rw [flat_content] at hholds hplaced hclosed
  simp only [List.forall_mem_append, List.forall_mem_cons] at hls
  obtain ⟨body, last, hbody, hinside, hend⟩ := (placed_append.mp hplaced).2.line_end
    hls.2.1.inside.2 (head?_flat hls.2.2) (fun hQ x hx => hclosed x (by
      rw [hQ, List.append_nil, List.getLast?_append, hx]
      rfl))
  obtain ⟨S, last', tl, R, hS, hinside', hend', hlast⟩ := hholds.lineLast?
  have hline : first :: (rest ++ flat Q) = body ++ last :: flat Q := by
    rw [← List.cons_append, hbody, List.append_assoc]
    rfl
  obtain ⟨-, rfl, -⟩ := first_end_unique (hS.symm.trans hline) hinside' hinside hend' hend
  exact ⟨_, by rw [hbody, List.getLast?_concat], hlast⟩

theorem TokenChain.Steady.stretch_line
    (h : c.Steady (flat (P ++ .content lead first rest :: Q)))
    (hf : Fresh features (flat (P ++ .content lead first rest :: Q)))
    (hls : ∀ l ∈ P ++ .content lead first rest :: Q, l.Proper) {last : TokenId}
    (hlast : c.lineLast? first.1 = some last) :
    c.stretch (Line.content lead first rest).start.1 last =
      (Line.content lead first rest).items := by
  obtain ⟨x, hx, hlast'⟩ := h.lineLast?_content hf hls
  obtain rfl : x.1 = last := Option.some.inj (hlast'.symm.trans hlast)
  have hholds := h.holds
  rw [flat_append, flat_cons] at hholds
  apply hholds.stretch_eq
  · rw [Line.items_eq]
    rfl
  · rw [Line.items, List.getLast?_append, hx]
    rfl

end Line

/-! ## The code behind a comment -/

/-- The code behind some trivia is on the row where the text in front stops, exactly when nothing
in between breaks the line. -/
theorem PlacedAfter.row_le_iff {before : Option Token} {S B : List Entry} {code : Entry}
    (h : PlacedAfter before (S ++ code :: B)) :
    code.2.row ≤ (stopOf before).row ↔ ∀ e ∈ S, e.2.plain := by
  induction S generalizing before with
  | nil =>
    have hrow : code.2.row = (stopOf before).row := congrArg Position.row h.1.place
    simp [hrow]
  | cons e S ih =>
    have hrow : e.2.row = (stopOf before).row := congrArg Position.row h.1.place
    have hbehind : (stopOf (some e.2)).row ≤ code.2.row := PlacedAfter.row_le h.2 code (by simp)
    rw [List.forall_mem_cons, ← ih h.2, ← hrow]
    by_cases hplain : e.2.plain
    · have hsame : (stopOf (some e.2)).row = e.2.row := by
        rw [stopOf, Token.following_of_plain hplain]
      rw [hsame]
      exact (and_iff_right hplain).symm
    · have hlt : e.2.row < (stopOf (some e.2)).row := Token.row_lt_following hplain
      constructor
      · omega
      · exact fun hboth => absurd hboth.1 hplain

theorem target_at (closers : List String) (t : Token) {S B : List Entry} {code : Entry}
    (hS : ∀ e ∈ S, e.2.isTrivia = true) (hcode : code.2.isTrivia = false) :
    target closers t ((S ++ code :: B).map Prod.snd) =
      if code.2.row ≤ t.following.row ∨ code.2.closesBlock closers = true then none
      else some code.2.col := by
  have hfind : ((S ++ code :: B).map Prod.snd).find? (fun t => !t.isTrivia) = some code.2 := by
    rw [List.find?_map, Option.map_eq_some_iff]
    refine ⟨code, List.find?_eq_some_iff_append.mpr ⟨by simp [hcode], S, B, rfl, ?_⟩, rfl⟩
    intro e he
    simp [hS e he]
  rw [target, hfind]
  rfl

/-- A line with a comment in front of code has no column to go to exactly when the comment is not
let through, nothing between the two breaks the line, or the code closes a block. -/
theorem goal_eq_none_iff (closers : List String) (accepts : Token → Bool) (lead : Option Entry)
    {first code : Entry} {rest below S B : List Entry} (hcomment : first.2.isComment = true)
    (hsplit : rest ++ below = S ++ code :: B) (hS : ∀ e ∈ S, e.2.isTrivia = true)
    (hcode : code.2.isTrivia = false) (hp : PlacedAfter (some first.2) (rest ++ below)) :
    goal closers accepts (.content lead first rest) below = none ↔
      accepts first.2 = false ∨ (∀ e ∈ S, e.2.plain) ∨ code.2.closesBlock closers = true := by
  rw [hsplit] at hp
  have hrow : code.2.row ≤ first.2.following.row ↔ ∀ e ∈ S, e.2.plain := hp.row_le_iff
  cases haccepts : accepts first.2 with
  | false => simp [goal, haccepts]
  | true =>
    simp only [goal, hcomment, haccepts, Bool.and_self, if_true, hsplit,
      target_at closers first.2 hS hcode]
    rw [← hrow, ite_eq_left_iff]
    simp only [reduceCtorEq, imp_false, not_not, Bool.true_eq_false, false_or]

/-! ## Counting without one comment -/

section Count

variable {closers : List String} {accepts : Token → Bool}

theorem aimedIds_filter {p : Token → Bool} {q : TokenId → Bool} {ls : List (Line Entry)}
    (h : ∀ e ∈ flat ls, p e.2 = q e.1) :
    aimedIds closers (fun t => accepts t && p t) ls = (aimedIds closers accepts ls).filter q := by
  induction ls with
  | nil => rfl
  | cons l ls ih =>
    rw [flat_cons, List.forall_mem_append] at h
    have hrest := ih h.2
    cases l with
    | blank e => exact hrest
    | content lead first rest =>
      have hfirst := h.1 first (by simp [Line.items])
      cases hq : q first.1 with
      | false =>
        have hgoal : goal closers (fun t => accepts t && p t) (.content lead first rest)
            (flat ls) = none := by
          simp [goal, hfirst, hq]
        simp only [aimedIds, hgoal, hrest]
        cases goal closers accepts (.content lead first rest) (flat ls) <;> simp [hq]
      | true =>
        have hgoal : goal closers (fun t => accepts t && p t) (.content lead first rest)
            (flat ls) = goal closers accepts (.content lead first rest) (flat ls) := by
          simp [goal, hfirst, hq]
        simp only [aimedIds, hgoal, hrest]
        cases goal closers accepts (.content lead first rest) (flat ls) <;> simp [hq]

variable (closers accepts) in
/-- Without one of the comments as many are aimed, exactly when this one is not. -/
theorem length_aimedIds_without {ls : List (Line Entry)} {x : Entry} (hx : x ∈ flat ls)
    (hids : ((flat ls).map Prod.fst).Nodup) (htokens : ((flat ls).map Prod.snd).Nodup) :
    (aimedIds closers (fun t => accepts t && t != x.2) ls).length =
        (aimedIds closers accepts ls).length ↔ x.1 ∉ aimedIds closers accepts ls := by
  have hsame : ∀ e ∈ flat ls, (e.2 != x.2) = (e.1 != x.1) := by
    intro e he
    have htoken : e.2 = x.2 ↔ e.1 = x.1 :=
      ⟨fun heq => by rw [List.inj_on_of_nodup_map htokens he hx heq],
        fun heq => by rw [List.inj_on_of_nodup_map hids he hx heq]⟩
    rw [Bool.eq_iff_iff, bne_iff_ne, bne_iff_ne, ne_eq, ne_eq, htoken]
  rw [aimedIds_filter (q := (· != x.1)) hsame, List.length_filter_eq_length_iff]
  simp only [bne_iff_ne]
  constructor
  · exact fun h hmem => h x.1 hmem rfl
  · exact fun h id hid heq => h (heq ▸ hid)

theorem mem_aimedIds_first {P Q : List (Line Entry)} {lead : Option Entry} {first : Entry}
    {rest : List Entry}
    (hnd : ((flat (P ++ .content lead first rest :: Q)).map Prod.fst).Nodup) :
    first.1 ∈ aimedIds closers accepts (P ++ .content lead first rest :: Q) ↔
      goal closers accepts (.content lead first rest) (flat Q) ≠ none := by
  rw [mem_aimedIds, Option.ne_none_iff_exists']
  constructor
  · rintro ⟨P', lead', first', rest', Q', column, hsplit, hid, hgoal⟩
    have hflat := congrArg flat hsplit
    rw [flat_content] at hnd
    rw [flat_content, flat_content] at hflat
    obtain ⟨-, rfl, hbehind⟩ := split_unique hnd hflat hid.symm
    refine ⟨column, ?_⟩
    simpa only [goal, hbehind] using hgoal
  · rintro ⟨column, hgoal⟩
    exact ⟨P, lead, first, rest, Q, column, rfl, rfl, hgoal⟩

end Count

/-! ## Lines that hold code -/

theorem TokenChain.Steady.lineKept_iff {c : TokenChain} {features : Features}
    {P Q : List (Line Entry)} {lead : Option Entry} {first : Entry} {rest : List Entry}
    (h : c.Steady (flat (P ++ .content lead first rest :: Q)))
    (hf : Fresh features (flat (P ++ .content lead first rest :: Q)))
    (hls : ∀ l ∈ P ++ .content lead first rest :: Q, l.Proper) (closers : List String)
    (accepts : Token → Bool) (hfits : c.Fits (c.toList.filter Token.isComment).length) :
    ∃ e, c.alignStandalone closers accepts = .ok e ∧
      (c.LineKept closers accepts (Line.content lead first rest).items first.2 e ↔
        goal closers accepts (.content lead first rest) (flat Q) = none) := by
  obtain ⟨e, ls', hok, hrealigned, hvalue⟩ := h.realigned hls closers accepts hfits
  obtain ⟨others, -, hothers, -, hcount⟩ :=
    h.realigned hls closers (fun t => accepts t && t != first.2) hfits
  have hmem : first ∈ flat (P ++ .content lead first rest :: Q) := by
    rw [flat_content]
    simp
  have hcounts := length_aimedIds_without closers accepts hmem h.holds.distinct
    (h.sound.placed.nodup_tokens hf.nonempty)
  rw [← hvalue, ← hcount, mem_aimedIds_first h.holds.distinct, not_not] at hcounts
  refine ⟨e, hok, ?_⟩
  rw [← hcounts]
  constructor
  · intro hkept
    have huncounted := hkept.uncounted
    rw [hothers] at huncounted
    exact Except.ok.inj huncounted
  · intro hsame
    refine ⟨hrealigned.stays (hcounts.mp hsame), ?_⟩
    rw [hothers, ← hsame]
    rfl

theorem exists_first_code {lead : Option Entry} {first : Entry} {rest : List Entry}
    (hl : (Line.content lead first rest).Proper) (hcomment : first.2.isComment = true)
    (hcode : ∃ x ∈ (Line.content lead first rest).items, x.2.isTrivia = false) :
    ∃ S code B, rest = S ++ code :: B ∧ (∀ e ∈ S, e.2.isTrivia = true) ∧
      code.2.isTrivia = false := by
  obtain ⟨x, hx, hxcode⟩ := hcode
  have hcore := hl.mem_core hx (Bool.or_eq_false_iff.mp hxcode).1
  rcases List.mem_cons.mp hcore with rfl | hrest
  · simp [Token.isTrivia, hcomment] at hxcode
  · have hsome : (rest.find? fun e => !e.2.isTrivia).isSome = true :=
      List.find?_isSome.mpr ⟨x, hrest, by simp [hxcode]⟩
    obtain ⟨code, hfind⟩ := Option.isSome_iff_exists.mp hsome
    obtain ⟨hfirst, S, B, hsplit, hS⟩ := List.find?_eq_some_iff_append.mp hfind
    exact ⟨S, code, B, hsplit, fun e he => by simpa using hS e he, by simpa using hfirst⟩

theorem TokenChain.Holds.gapBehind_at {c : TokenChain} {A S B : List Entry} {id : TokenId}
    {t : Token} {code : Entry} (h : c.Holds (A ++ (id, t) :: (S ++ code :: B)))
    (hS : ∀ e ∈ S, e.2.isTrivia = true) (hcode : code.2.isTrivia = false) :
    c.gapBehind id = S ∧ c.nextCode? id = some code.1 := by
  constructor
  · unfold gapBehind
    rw [h.entriesFrom_at, List.tail_cons, List.takeWhile_append_of_pos hS]
    simp [hcode]
  · rw [h.nextCode?_at, List.find?_append, List.find?_eq_none.mpr fun e he => by simp [hS e he]]
    simp [hcode]

/-- A line of a program text that starts with a comment and holds code is kept exactly when the
comment is not let through, nothing between it and the code breaks the line, or the code closes a
block. -/
theorem line_with_code_is_kept_unless_broken (source : String) (features : Features)
    (closers : List String) (accepts : Token → Bool) (id start last : TokenId) (t : Token)
    (hfits : (TokenChain.ofSource source features).Fits
      ((TokenChain.ofSource source features).toList.filter Token.isComment).length)
    (hget : (TokenChain.ofSource source features).get? id = some t) (hcomment : t.isComment = true)
    (hstart : (TokenChain.ofSource source features).standaloneStart? id = some start)
    (hlast : (TokenChain.ofSource source features).lineLast? id = some last)
    (hcode : ∃ x ∈ (TokenChain.ofSource source features).stretch start last,
      x.2.isTrivia = false) :
    ∃ e anchor code, (TokenChain.ofSource source features).alignStandalone closers accepts = .ok e ∧
      (TokenChain.ofSource source features).nextCode? id = some anchor ∧
      (anchor, code) ∈ (TokenChain.ofSource source features).stretch start last ∧
      ((TokenChain.ofSource source features).LineKept closers accepts
          ((TokenChain.ofSource source features).stretch start last) t e ↔
        accepts t = false ∨
          (∀ x ∈ (TokenChain.ofSource source features).gapBehind id, x.2.plain) ∨
          code.closesBlock closers = true) := by
  have hroom := hfits.room
  obtain ⟨L, hL, hfresh⟩ := exists_steady_ofSource ⟨hfits.text, by omega⟩
  generalize TokenChain.ofSource source features = c at *
  obtain ⟨ls, rfl, hls⟩ := hL.sound.exists_lines
  have hstandalone := (hL.findsStandalone hls id t hget hcomment).mp (by rw [hstart]; rfl)
  obtain ⟨P, lead, first, rest, Q, rfl, rfl⟩ := hL.exists_first hls hstandalone
  have hl : (Line.content lead first rest).Proper := hls _ (by simp)
  have hat := hL.holds
  rw [flat_append, flat_cons] at hat
  obtain rfl := Option.some.inj ((hat.standaloneStart?_first hl).symm.trans hstart)
  have hholds := hL.holds
  have hplaced := hL.sound.placed
  rw [flat_content] at hholds hplaced
  obtain rfl : first.2 = t := Option.some.inj (hholds.get?_at.symm.trans hget)
  rw [hL.stretch_line hfresh hls hlast] at hcode ⊢
  obtain ⟨S, code, B, hrest, hS, htrivia⟩ := exists_first_code hl hcomment hcode
  have hsplit : rest ++ flat Q = S ++ code :: (B ++ flat Q) := by simp [hrest]
  have hgoal := goal_eq_none_iff closers accepts lead hcomment hsplit hS htrivia
    (placed_append.mp hplaced).2.2
  rw [hsplit] at hholds
  obtain ⟨hgap, hnext⟩ := hholds.gapBehind_at hS htrivia
  obtain ⟨e, hok, hkept⟩ := hL.lineKept_iff hfresh hls closers accepts hfits
  refine ⟨e, code.1, code.2, hok, hnext, by simp [Line.items, hrest], ?_⟩
  rw [hkept, hgoal, hgap]

/-- A comment over two rows and another one, with code behind them. -/
def sharedSource : String := "begin\n\t\x7ba\n b\x7d \x7bc\x7d x := 1;\n  y\nend"

/-- The first comment of the line. -/
def sharedNote : Token := { text := "\x7ba\n b\x7d", kind := .comment, row := 1, col := 1 }

/-- Nothing between the first comment and the code breaks the line, so it is kept. -/
theorem shared_line_is_kept :
    (TokenChain.ofSource sharedSource Features.all).standaloneStart? ⟨3, 0⟩ = some ⟨2, 0⟩ ∧
    (TokenChain.ofSource sharedSource Features.all).lineLast? ⟨3, 0⟩ = some ⟨13, 0⟩ ∧
    ∃ e, (TokenChain.ofSource sharedSource Features.all).alignStandalone defaultClosers
        (fun _ => true) = .ok e ∧
      (TokenChain.ofSource sharedSource Features.all).LineKept defaultClosers (fun _ => true)
        ((TokenChain.ofSource sharedSource Features.all).stretch ⟨2, 0⟩ ⟨13, 0⟩)
        sharedNote e := by
  have hstart : (TokenChain.ofSource sharedSource Features.all).standaloneStart? ⟨3, 0⟩ =
      some ⟨2, 0⟩ := by decide +kernel
  have hlast : (TokenChain.ofSource sharedSource Features.all).lineLast? ⟨3, 0⟩ =
      some ⟨13, 0⟩ := by decide +kernel
  have hplain : ∀ x ∈ (TokenChain.ofSource sharedSource Features.all).gapBehind ⟨3, 0⟩,
      x.2.plain := by decide +kernel
  obtain ⟨e, anchor, code, hok, -, -, hkept⟩ := line_with_code_is_kept_unless_broken sharedSource
    Features.all defaultClosers (fun _ => true) ⟨3, 0⟩ ⟨2, 0⟩ ⟨13, 0⟩ sharedNote
    (by decide +kernel) (by decide +kernel) rfl hstart hlast (by decide +kernel)
  exact ⟨hstart, hlast, e, hok, hkept.mpr (Or.inr (Or.inl hplain))⟩

/-- A comment and another one over two rows, with code behind them. -/
def brokenSource : String := "begin\n\x7b a \x7d \x7b b\n  c \x7d x := 1;\nend"

/-- The first comment of the line. -/
def brokenNote : Token :=
  { text := "\x7b a \x7d", kind := .comment, beginsLine := true, row := 1 }

/-- The second comment breaks the line, so the first one is counted and the line moves to the column
of its own code. -/
theorem broken_line_with_code_moves :
    (TokenChain.ofSource brokenSource Features.all).get? ⟨2, 0⟩ = some brokenNote ∧
    (TokenChain.ofSource brokenSource Features.all).standaloneStart? ⟨2, 0⟩ = some ⟨2, 0⟩ ∧
    (TokenChain.ofSource brokenSource Features.all).lineLast? ⟨2, 0⟩ = some ⟨12, 0⟩ ∧
    (∃ x ∈ (TokenChain.ofSource brokenSource Features.all).stretch ⟨2, 0⟩ ⟨12, 0⟩,
      x.2.isTrivia = false) ∧
    ((TokenChain.ofSource brokenSource Features.all).alignStandalone defaultClosers
        fun _ => true).map (fun e => (e.value, e.chain.render)) =
      .ok (1, "begin\n      \x7b a \x7d \x7b b\n  c \x7d x := 1;\nend") ∧
    ∀ e, (TokenChain.ofSource brokenSource Features.all).alignStandalone defaultClosers
        (fun _ => true) = .ok e →
      ¬ (TokenChain.ofSource brokenSource Features.all).LineKept defaultClosers (fun _ => true)
        ((TokenChain.ofSource brokenSource Features.all).stretch ⟨2, 0⟩ ⟨12, 0⟩)
        brokenNote e := by
  have hrun : ((TokenChain.ofSource brokenSource Features.all).alignStandalone defaultClosers
      fun _ => true).map (fun e => (e.value, e.chain.render)) =
      .ok (1, "begin\n      \x7b a \x7d \x7b b\n  c \x7d x := 1;\nend") := by decide +kernel
  have hothers : ((TokenChain.ofSource brokenSource Features.all).alignStandalone defaultClosers
      fun t => true && t != brokenNote).map Edited.value = .ok 0 := by decide +kernel
  refine ⟨by decide +kernel, by decide +kernel, by decide +kernel, by decide +kernel, hrun, ?_⟩
  intro e hok hkept
  rw [hok] at hrun
  have hone : e.value = 1 := congrArg Prod.fst (Except.ok.inj hrun)
  have hzero := Except.ok.inj (hothers.symm.trans hkept.uncounted)
  omega

end LineLayout
