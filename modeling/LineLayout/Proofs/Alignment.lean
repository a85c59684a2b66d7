-- Aligning the comments goes through the lines from top to bottom. Only the first token of a
-- line's content can be a standalone comment. Its line moves to the column of the code below,
-- which is still where it was at the start: the lines below have not moved yet, and a move
-- does not reach past its own line.
import LineLayout.CommentAlignment
import LineLayout.Proofs.Lines

namespace LineLayout

/-! ## The column for a comment -/

/-- The column of the first code behind a comment, unless that code stands on the row where the
comment ends or closes a block. -/
def target (closers : List String) (comment : Token) (behind : List Token) : Option Nat :=
  (behind.find? fun t => !t.isTrivia).bind fun code =>
    if code.row ≤ comment.following.row ∨ code.closesBlock closers = true then none
    else some code.col

/-- The column for a line: that of its comment, when its content starts with one. -/
def goal (closers : List String) (accepts : Token → Bool) (l : Line Entry) (below : List Entry) :
    Option Nat :=
  match l with
  | .blank _ => none
  | .content _ first rest =>
    if first.2.isComment && accepts first.2 then
      target closers first.2 ((rest ++ below).map Prod.snd)
    else none

/-- A line before and after, when it has a column to go to or none. -/
def Settled : Option Nat → Line Entry → Line Entry → Prop
  | none, l, l' => l' = l
  | some column, l, l' => Refit column l l'

/-- The lines before and after the comments are aligned. Every column is that of the lines
before. -/
inductive Aligned (closers : List String) (accepts : Token → Bool) :
    List (Line Entry) → List (Line Entry) → Prop where
  | nil : Aligned closers accepts [] []
  | cons {l l' : Line Entry} {ls ls' : List (Line Entry)} :
      Settled (goal closers accepts l (flat ls)) l l' → Aligned closers accepts ls ls' →
      Aligned closers accepts (l :: ls) (l' :: ls')

/-- The comments with a column to go to. A line has at most one. -/
def aimedIds (closers : List String) (accepts : Token → Bool) : List (Line Entry) → List TokenId
  | [] => []
  | .blank _ :: ls => aimedIds closers accepts ls
  | .content lead first rest :: ls =>
    match goal closers accepts (.content lead first rest) (flat ls) with
    | some _ => first.1 :: aimedIds closers accepts ls
    | none => aimedIds closers accepts ls

theorem length_aimedIds_cons (closers : List String) (accepts : Token → Bool) (l : Line Entry)
    (ls : List (Line Entry)) :
    (aimedIds closers accepts (l :: ls)).length =
      (aimedIds closers accepts ls).length + (goal closers accepts l (flat ls)).toList.length := by
  cases l with
  | blank e => rfl
  | content lead first rest =>
    cases hgoal : goal closers accepts (.content lead first rest) (flat ls) with
    | none => simp [aimedIds, hgoal]
    | some column => simp [aimedIds, hgoal]

theorem target_lt {closers : List String} {comment : Token} {behind : List Token} {column n : Nat}
    (h : target closers comment behind = some column) (hcols : ∀ t ∈ behind, t.col < n) :
    column < n := by
  unfold target at h
  obtain ⟨code, hfind, hcode⟩ := Option.bind_eq_some_iff.mp h
  split at hcode
  · cases hcode
  · cases hcode
    exact hcols code (List.mem_of_find?_eq_some hfind)

/-! ## Which comments stand alone -/

theorem leadingStart?_of_content {id : TokenId} {body before : List Entry} {first : Entry}
    (hw : first.2.isWhitespace = false) (hbody : ∀ e ∈ body, e.2.beginsLine = false) :
    leadingStart? id (body ++ first :: before) = none := by
  induction body generalizing id with
  | nil => simp [leadingStart?, hw]
  | cons e body ih =>
    rw [List.forall_mem_cons] at hbody
    simp only [List.cons_append, leadingStart?, hbody.1]
    split
    · rfl
    · exact ih hbody.2

namespace TokenChain

section Standalone

variable {c : TokenChain} {A R : List Entry}

theorem Holds.standaloneStart?_first {lead : Option Entry} {first : Entry} {rest : List Entry}
    (h : c.Holds (A ++ ((Line.content lead first rest).items ++ R)))
    (hl : (Line.content lead first rest).Proper) :
    c.standaloneStart? first.1 = some (Line.content lead first rest).start.1 := by
  unfold standaloneStart?
  cases lead with
  | none =>
    have hat : c.Holds (A ++ (first.1, first.2) :: (rest ++ R)) := by simpa [Line.items] using h
    obtain ⟨-, hb, -⟩ := hl
    rw [hat.entriesBackFrom_at]
    simp only [hb, if_true]
    rfl
  | some lead =>
    have hat : c.Holds ((A ++ [lead]) ++ (first.1, first.2) :: (rest ++ R)) := by
      simpa [Line.items] using h
    obtain ⟨hw, hb, -, -, hfb, -⟩ := hl
    rw [hat.entriesBackFrom_at]
    simp [leadingStart?, hfb, hw, hb, Line.start]

theorem Holds.standaloneStart?_rest {lead : Option Entry} {first : Entry} {rest : List Entry}
    (h : c.Holds (A ++ ((Line.content lead first rest).items ++ R)))
    (hl : (Line.content lead first rest).Proper) {id : TokenId} (hid : id ∈ rest.map Prod.fst) :
    c.standaloneStart? id = none := by
  have hinside := hl.inside
  obtain ⟨e, he, rfl⟩ := List.mem_map.mp hid
  obtain ⟨body, behind, rfl⟩ := List.append_of_mem he
  have hat : c.Holds ((A ++ lead.toList ++ first :: body) ++ (e.1, e.2) :: (behind ++ R)) := by
    simpa [Line.items] using h
  unfold standaloneStart?
  rw [hat.entriesBackFrom_at]
  have hb : e.2.beginsLine = false := hinside.2 e (by simp)
  have hnone : leadingStart? e.1 (body.reverse ++ first :: (A ++ lead.toList).reverse) = none := by
    apply leadingStart?_of_content hinside.1
    intro x hx
    exact hinside.2 x (by simp [List.mem_reverse.mp hx])
  simpa [hb] using hnone

end Standalone

theorem Holds.nextCode?_at {c : TokenChain} {A B : List Entry} {id : TokenId} {t : Token}
    (h : c.Holds (A ++ (id, t) :: B)) :
    c.nextCode? id = (B.find? fun e => !e.2.isTrivia).map Prod.fst := by
  unfold nextCode?
  rw [h.next?_at]
  cases B with
  | nil => rfl
  | cons n rest =>
    have hn : c.Holds ((A ++ [(id, t)]) ++ (n.1, n.2) :: rest) := by simpa using h
    rw [frontId_cons, Option.bind_some, hn.entriesFrom_at]

theorem Steady.alignmentColumn? {c : TokenChain} {A B : List Entry} {id : TokenId} {t : Token}
    (h : c.Steady (A ++ (id, t) :: B)) (closers : List String) :
    c.alignmentColumn? closers id = .ok (target closers t (B.map Prod.snd)) := by
  unfold TokenChain.alignmentColumn? target
  have hcomp : ((fun t : Token => !t.isTrivia) ∘ Prod.snd) = fun e : Entry => !e.2.isTrivia := rfl
  rw [h.holds.nextCode?_at, List.find?_map, hcomp]
  rcases hfind : B.find? fun e => !e.2.isTrivia with _ | ⟨anchor, code⟩
  · simp only [hfind]
    rfl
  · obtain ⟨S, S', rfl⟩ := List.append_of_mem (List.mem_of_find?_eq_some hfind)
    have hcode : c.Holds ((A ++ (id, t) :: S) ++ (anchor, code) :: S') := by
      simpa using h.holds
    have hfits := h.sound.placed.fits h.sized (id, t) (by simp)
    simp only [Option.map_some, hcode.get_at, h.holds.get_at, bind, Except.bind,
      Token.endPlace_of_lt hfits.2.2.1 hfits.2.2.2, hfind, Option.bind_some]
    by_cases hstays : code.row ≤ t.following.row ∨ code.closesBlock closers = true
    · rw [if_pos hstays, if_pos hstays]
      rfl
    · rw [if_neg hstays, if_neg hstays]
      rfl

theorem Steady.alignmentOf?_first {c : TokenChain} {A R : List Entry} {lead : Option Entry}
    {first : Entry} {rest : List Entry}
    (h : c.Steady (A ++ ((Line.content lead first rest).items ++ R)))
    (hl : (Line.content lead first rest).Proper) (closers : List String) :
    c.alignmentOf? closers first.1 =
      .ok ((target closers first.2 ((rest ++ R).map Prod.snd)).map fun column =>
        ((Line.content lead first rest).start.1, column)) := by
  have hat : c.Steady ((A ++ lead.toList) ++ (first.1, first.2) :: (rest ++ R)) := by
    simpa [Line.items] using h
  unfold alignmentOf?
  rw [h.holds.standaloneStart?_first hl, hat.alignmentColumn? closers]
  rfl

/-! ## The pass over the lines -/

theorem alignEach_stays {c : TokenChain} {closers : List String} {id : TokenId}
    {ids : List TokenId} (h : c.alignmentOf? closers id = .ok none) :
    alignEach closers (id :: ids) c = alignEach closers ids c := by
  rw [alignEach, h]
  rfl

theorem alignEach_moves {c : TokenChain} {closers : List String} {id start : TokenId}
    {ids : List TokenId} {column : Nat} {moved : Edited TokenId} {others : Edited Nat}
    (h : c.alignmentOf? closers id = .ok (some (start, column)))
    (hm : c.setIndent start column = .ok moved)
    (ho : alignEach closers ids moved.chain = .ok others) :
    alignEach closers (id :: ids) c =
      .ok ⟨others.value + 1, others.chain, moved.notes ++ others.notes⟩ := by
  rw [alignEach, h]
  simp only [bind, Except.bind, hm, ho]
  rfl

theorem alignEach_passes {c : TokenChain} {closers : List String} {ids more : List TokenId}
    (h : ∀ id ∈ ids, c.standaloneStart? id = none) :
    alignEach closers (ids ++ more) c = alignEach closers more c := by
  induction ids with
  | nil => rfl
  | cons id ids ih =>
    rw [List.forall_mem_cons] at h
    have hnone : c.alignmentOf? closers id = .ok none := by
      unfold alignmentOf?
      rw [h.1]
    rw [List.cons_append, alignEach_stays hnone, ih h.2]

/-- The comments behind the front of a line's content are passed over. -/
theorem Holds.alignEach_behind {c : TokenChain} {closers : List String} {A R : List Entry}
    {lead : Option Entry} {first : Entry} {rest : List Entry}
    (h : c.Holds (A ++ ((Line.content lead first rest).items ++ R)))
    (hl : (Line.content lead first rest).Proper) {ids : List TokenId}
    (hids : ∀ id ∈ ids, id ∈ rest.map Prod.fst) (more : List TokenId) :
    alignEach closers (ids ++ more) c = alignEach closers more c := by
  apply alignEach_passes
  intro id hid
  exact h.standaloneStart?_rest hl (hids id hid)

/-- The ids of the comments that are let through. -/
def commentIds (accepts : Token → Bool) (L : List Entry) : List TokenId :=
  (L.filter fun e => e.2.isComment && accepts e.2).map Prod.fst

@[simp] theorem commentIds_append (accepts : Token → Bool) (A B : List Entry) :
    commentIds accepts (A ++ B) = commentIds accepts A ++ commentIds accepts B := by
  simp [commentIds]

theorem mem_of_commentIds {accepts : Token → Bool} {L : List Entry} {id : TokenId}
    (h : id ∈ commentIds accepts L) : id ∈ L.map Prod.fst := by
  obtain ⟨e, he, rfl⟩ := List.mem_map.mp h
  exact List.mem_map_of_mem (List.mem_filter.mp he).1

theorem commentIds_whitespace {accepts : Token → Bool} {e : Entry} (L : List Entry)
    (h : e.2.isWhitespace = true) : commentIds accepts (e :: L) = commentIds accepts L := by
  have hkind : e.2.kind = .whitespace := by simpa [Token.isWhitespace] using h
  have hno : e.2.isComment = false := by simp [Token.isComment, hkind]
  simp [commentIds, hno]

theorem commentIds_content (accepts : Token → Bool) {lead : Option Entry} {first : Entry}
    {rest : List Entry} (hl : (Line.content lead first rest).Proper) :
    commentIds accepts (Line.content lead first rest).items =
      (if first.2.isComment && accepts first.2 then [first.1] else []) ++
        commentIds accepts rest := by
  have hfirst : commentIds accepts (first :: rest) =
      (if first.2.isComment && accepts first.2 then [first.1] else []) ++
        commentIds accepts rest := by
    by_cases hf : (first.2.isComment && accepts first.2) = true
    · simp [commentIds, hf]
    · simp [commentIds, hf]
  cases lead with
  | none => exact hfirst
  | some lead => exact (commentIds_whitespace _ hl.1).trans hfirst

section Pass

variable {c : TokenChain} (closers : List String) (accepts : Token → Bool)

/-- One line of the pass. The rest of the pass goes on from a chain where this line is
settled. -/
theorem Steady.alignLine {A R : List Entry} {l : Line Entry} (h : c.Steady (A ++ (l.items ++ R)))
    (hl : l.Proper) (hR : ∀ r ∈ R.head?, r.2.beginsLine = true)
    (hroom : c.slots.size + (commentIds accepts l.items).length ≤ slotLimit)
    (hcols : ∀ e ∈ l.items ++ R, e.2.col < signedLimit) (more : List TokenId) :
    ∃ d l', d.Steady (A ++ (l'.items ++ R)) ∧ Settled (goal closers accepts l R) l l' ∧
      l'.Proper ∧ d.slots.size ≤ c.slots.size + (commentIds accepts l.items).length ∧
      ∀ others, alignEach closers more d = .ok others →
        ∃ all, alignEach closers (commentIds accepts l.items ++ more) c = .ok all ∧
          all.chain = others.chain ∧
          all.value = others.value + (goal closers accepts l R).toList.length := by
  match l with
  | .blank e =>
    have hids : commentIds accepts (Line.blank e).items = [] := commentIds_whitespace [] hl.1
    rw [hids]
    exact ⟨c, .blank e, h, rfl, hl, Nat.le_refl _, fun others ho => ⟨others, ho, rfl, rfl⟩⟩
  | .content lead first rest =>
    have hids := commentIds_content accepts hl
    have hrest : ∀ id ∈ commentIds accepts rest, id ∈ rest.map Prod.fst :=
      fun id hid => mem_of_commentIds hid
    have hstay : alignEach closers (commentIds accepts rest ++ more) c =
        alignEach closers more c := h.holds.alignEach_behind hl hrest more
    by_cases hf : (first.2.isComment && accepts first.2) = true
    · rw [if_pos hf] at hids
      simp only [goal, hf, if_true]
      have hof := h.alignmentOf?_first hl closers
      rcases hgoal : target closers first.2 ((rest ++ R).map Prod.snd) with _ | column
      · rw [hgoal] at hof
        refine ⟨c, _, h, rfl, hl, Nat.le_add_right _ _, fun others ho => ⟨others, ?_, rfl, rfl⟩⟩
        rw [hids, List.append_assoc, List.singleton_append, alignEach_stays hof, hstay, ho]
      · have hcolumn : column < signedLimit := by
          refine target_lt hgoal (List.forall_mem_map.mpr fun e he => hcols e ?_)
          simp only [Line.items, List.mem_append, List.mem_cons] at he ⊢
          rcases he with he | he
          · exact Or.inl (Or.inr (Or.inr he))
          · exact Or.inr he
        have hslots : c.slots.size < slotLimit := by
          rw [hids, List.length_append, List.length_singleton] at hroom
          omega
        rw [hgoal] at hof
        obtain ⟨moved, l', hok, hsteady, hrefit, hproper, hgrown⟩ :=
          h.setIndent_line hl hR hslots hcolumn
        obtain ⟨lead', first', rest', rfl, hsame⟩ := hrefit.of_content
        refine ⟨moved.chain, _, hsteady, hrefit, hproper, ?_, ?_⟩
        · rw [hids, List.length_append, List.length_singleton]
          omega
        · intro others ho
          rw [← hsame] at hrest
          have hrun := (hsteady.holds.alignEach_behind hproper hrest more).trans ho
          refine ⟨⟨others.value + 1, others.chain, moved.notes ++ others.notes⟩, ?_, rfl, rfl⟩
          rw [hids, List.append_assoc, List.singleton_append]
          exact alignEach_moves hof hok hrun
    · rw [if_neg hf, List.nil_append] at hids
      simp only [goal, hf]
      refine ⟨c, _, h, rfl, hl, Nat.le_add_right _ _, fun others ho => ⟨others, ?_, rfl, rfl⟩⟩
      rw [hids, hstay, ho]

/-- The pass over all lines. `A` is what was passed already. -/
theorem Steady.alignLines {A : List Entry} {ls : List (Line Entry)} (h : c.Steady (A ++ flat ls))
    (hls : ∀ l ∈ ls, l.Proper)
    (hroom : c.slots.size + (commentIds accepts (flat ls)).length ≤ slotLimit)
    (hcols : ∀ e ∈ flat ls, e.2.col < signedLimit) :
    ∃ e ls', alignEach closers (commentIds accepts (flat ls)) c = .ok e ∧
      e.chain.Steady (A ++ flat ls') ∧ Aligned closers accepts ls ls' ∧ (∀ l ∈ ls', l.Proper) ∧
      e.chain.slots.size ≤ c.slots.size + (commentIds accepts (flat ls)).length ∧
      e.value = (aimedIds closers accepts ls).length := by
  induction ls generalizing c A with
  | nil => exact ⟨c.unchanged 0, [], rfl, h, .nil, by simp, Nat.le_add_right _ _, rfl⟩
  | cons l ls ih =>
    rw [List.forall_mem_cons] at hls
    rw [flat_cons, commentIds_append, List.length_append] at hroom
    have hline : c.Steady (A ++ (l.items ++ flat ls)) := h
    obtain ⟨d, l', hd, hsettled, hproper, hslots, hthen⟩ := hline.alignLine closers accepts hls.1
      (head?_flat hls.2) (by omega) hcols (commentIds accepts (flat ls))
    have hnext : d.Steady ((A ++ l'.items) ++ flat ls) := by simpa using hd
    have hcols' : ∀ e ∈ flat ls, e.2.col < signedLimit := by
      intro e he
      exact hcols e (by simp [he])
    obtain ⟨others, ls', hok, hsteady, haligned, hproper', hslots', hcount⟩ :=
      ih hnext hls.2 (by omega) hcols'
    obtain ⟨all, hall, hchain, hvalue⟩ := hthen others hok
    refine ⟨all, l' :: ls', by simpa using hall, ?_, .cons hsettled haligned, ?_, ?_, ?_⟩
    · rw [hchain]
      simpa using hsteady
    · rw [List.forall_mem_cons]
      exact ⟨hproper, hproper'⟩
    · rw [hchain, flat_cons, commentIds_append, List.length_append]
      omega
    · rw [hvalue, hcount, length_aimedIds_cons]

/-- Aligning the standalone comments of a chain. -/
theorem Steady.alignStandalone {ls : List (Line Entry)} (h : c.Steady (flat ls))
    (hls : ∀ l ∈ ls, l.Proper)
    (hroom : c.slots.size + (commentIds accepts (flat ls)).length ≤ slotLimit)
    (htext : (textOf (flat ls)).length < signedLimit) :
    ∃ e ls', c.alignStandalone closers accepts = .ok e ∧ e.chain.Steady (flat ls') ∧
      Aligned closers accepts ls ls' ∧ (∀ l ∈ ls', l.Proper) ∧
      e.chain.slots.size ≤ c.slots.size + (commentIds accepts (flat ls)).length ∧
      e.value = (aimedIds closers accepts ls).length := by
  have hcols : ∀ e ∈ flat ls, e.2.col < signedLimit := by
    intro e he
    have hle := h.sound.placed.col_le e he
    simp only [stopOf] at hle
    omega
  have hids : c.comments accepts = commentIds accepts (flat ls) := by
    unfold comments commentIds
    rw [h.holds.entries_eq]
  have hat : c.Steady ([] ++ flat ls) := h
  obtain ⟨e, ls', hok, hsteady, haligned, hproper, hslots, hcount⟩ :=
    hat.alignLines closers accepts hls hroom hcols
  refine ⟨{ e with notes := e.notes ++ [.alignedComments e.value] }, ls', ?_, hsteady, haligned,
    hproper, hslots, hcount⟩
  unfold TokenChain.alignStandalone
  rw [hids, hok]
  rfl

end Pass

end TokenChain

end LineLayout
