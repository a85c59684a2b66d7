-- Layout never touches code. Whatever the places and marks of a chain say, no run of operations
-- on live tokens meets a stale id. The code stays as it is, whitespace keeps its switches as long
-- as it stays, and whitespace that comes in takes the switches of the token behind it.
import LineLayout.Proofs.CommentPass
import LineLayout.Proofs.Operations
import Mathlib.Data.List.Chain

namespace LineLayout

/-! ## Calls -/

/-- What one call leaves: the tokens afterwards are traced from the tokens before. -/
def Spares (c d : TokenChain) : Prop :=
  ∃ L M, c.Holds L ∧ d.Holds M ∧ Traced (· ∈ stampsOf L) (stampsOf L) (stampsOf M)

namespace TokenChain

variable {c : TokenChain} {L : List Entry}

theorem Holds.spares_refl (h : c.Holds L) : Spares c c := ⟨L, L, h, h, .refl _ _⟩

theorem Holds.spares_setIndent (h : c.Holds L) {start : TokenId} (hs : c.contains start = true)
    (hroom : c.slots.size < slotLimit) (level : Nat) :
    Lands (fun e => Spares c e.chain) (c.setIndent start level) := by
  obtain ⟨A, t, B, rfl⟩ := h.split hs
  rcases h.setIndent_outcome hroom level with ⟨e, M, hok, hM, hre, -⟩ | ⟨-, hfault⟩
  · rw [hok]
    refine ⟨_, M, h, hM, hre.traced (.refl (fun _ => False) _) h.distinct ?_ ?_ id ?_⟩
    · rw [stampsOf_ids]
      exact id
    · exact fun _ => False.elim
    · intro _
      simp [stampsOf]
  · rcases hfault with hfault | hfault
    · simp [hfault, Lands]
    · simp [hfault, Lands]

theorem lineLast?_of_stale {id : TokenId} (h : c.contains id = false) : c.lineLast? id = none := by
  have hnode : c.node? id = none := by simpa [TokenChain.contains] using h
  have hwalk : c.entriesFrom id = [] := by
    unfold entriesFrom
    cases c.slots.size with
    | zero => rfl
    | succ fuel => simp [walk, hnode]
  simp [TokenChain.lineLast?, hwalk]

theorem Holds.spares_blankLine (h : c.Holds L) (id : TokenId) (hroom : c.slots.size < slotLimit) :
    Lands (fun e => Spares c e.chain) (c.withBlankLineAfter id) := by
  cases hid : c.contains id with
  | true =>
    obtain ⟨A, t, B, rfl⟩ := h.split hid
    obtain ⟨S, last, tl, R, e, M, hsplit, -, -, hok, hM, hsep, -⟩ := h.withBlankLineAfter hroom
    rw [hsplit, ← List.append_assoc] at h
    rw [hok]
    exact ⟨_, M, h, hM, hsep.traced h.distinct⟩
  | false =>
    unfold TokenChain.withBlankLineAfter lineBoundary?
    rw [lineLast?_of_stale hid]
    exact h.spares_refl

/-- The pass over the comments is made of turns, and nothing that left comes back. -/
theorem Holds.passing_align (h : c.Holds L) (closers : List String) (accepts : Token → Bool)
    (hroom : c.slots.size + (c.toList.filter Token.isComment).length ≤ slotLimit) :
    Lands (fun e => ∃ done M, Passing (stampsOf L) done e.chain M ∧
        Relation.ReflTransGen (Turn (L.map Prod.fst)) L M)
      (c.alignStandalone closers accepts) := by
  have hids : c.comments accepts = commentIds accepts L := by
    unfold comments
    rw [h.entries_eq]
    rfl
  have hlive : ∀ a ∈ (stampsOf L).map Stamp.id, c.contains a = true := by
    intro a ha
    rw [stampsOf_ids] at ha
    exact h.live_iff.mpr ha
  have hstart : Passing (stampsOf L) [] c L := ⟨h, .refl _ _, fun a ha => Or.inl (hlive a ha)⟩
  have hnd : (commentIds accepts L).Nodup := h.distinct.sublist (List.filter_sublist.map _)
  have hcomments : ∀ id ∈ commentIds accepts L,
      ∃ s ∈ stampsOf L, s.id = id ∧ s.kind = .comment := by
    intro id hid
    obtain ⟨e, he, rfl⟩ := List.mem_map.mp hid
    obtain ⟨hin, hcomment⟩ := List.mem_filter.mp he
    refine ⟨stampOf e, List.mem_map_of_mem hin, rfl, ?_⟩
    simpa [Token.isComment, stampOf] using (Bool.and_eq_true_iff.mp hcomment).1
  have hcount := commentIds_length_le accepts h
  have hpass := hstart.alignEach
    (fun a ha b hb hindex => eq_of_index (hlive a ha) (hlive b hb) hindex) closers hnd (by simp)
    hcomments (by omega)
  rw [stampsOf_ids] at hpass
  unfold alignStandalone
  rw [hids]
  exact hpass.bind fun _ hthen => hthen

theorem Holds.spares_align (h : c.Holds L) (closers : List String) (accepts : Token → Bool)
    (hroom : c.slots.size + (c.toList.filter Token.isComment).length ≤ slotLimit) :
    Lands (fun e => Spares c e.chain) (c.alignStandalone closers accepts) := by
  refine (h.passing_align closers accepts hroom).mono ?_
  rintro aligned ⟨done, M, hM, -⟩
  refine ⟨L, M, h, hM.holds, hM.traced.code, ?_⟩
  intro u hu
  refine (hM.traced.origin u hu).imp_right ?_
  rintro ⟨hnew, hfills, n, hn, ⟨-, hkind⟩, hrest⟩
  have hcode : n ∈ codeOf (stampsOf L) := by
    rw [← hM.traced.code, mem_codeOf]
    exact ⟨hn, by simp [hkind]⟩
  exact ⟨hnew, hfills, n, hn, (mem_codeOf.mp hcode).1, hrest⟩

end TokenChain

namespace LayoutOp

/-- An operation that needs its token is made on a live one. -/
def Aimed (c : TokenChain) : LayoutOp → Prop
  | setIndent start _ => c.contains start = true
  | indentLine _ start => c.contains start = true
  | separate _ id => c.contains id = true
  | blankLineAfter _ | alignComments _ _ | alignStandalone _ => True

/-- Every operation is aimed in the chain where it is made, and the arena has room for it. -/
def Workable : List LayoutOp → TokenChain → Prop
  | [], _ => True
  | op :: ops, c => op.Aimed c ∧ c.slots.size + op.additions c ≤ slotLimit ∧
      ∀ next, op.apply c = .ok next → Workable ops next

instance decidableAimed (c : TokenChain) : (op : LayoutOp) → Decidable (op.Aimed c)
  | setIndent start _ => inferInstanceAs (Decidable (c.contains start = true))
  | indentLine _ start => inferInstanceAs (Decidable (c.contains start = true))
  | separate _ id => inferInstanceAs (Decidable (c.contains id = true))
  | blankLineAfter _ | alignComments _ _ | alignStandalone _ => isTrue trivial

instance decidableWorkable : (ops : List LayoutOp) → (c : TokenChain) →
    Decidable (Workable ops c)
  | [], _ => isTrue trivial
  | op :: ops, c =>
    have := decidableWorkable ops
    inferInstanceAs (Decidable (op.Aimed c ∧ c.slots.size + op.additions c ≤ slotLimit ∧
      ∀ next, op.apply c = .ok next → Workable ops next))

theorem spares_apply {c : TokenChain} {L : List Entry} (h : c.Holds L) (op : LayoutOp)
    (haimed : op.Aimed c) (hroom : c.slots.size + op.additions c ≤ slotLimit) :
    Lands (Spares c) (op.apply c) := by
  have hskips : ∀ (run : LayoutRun) (id : TokenId) (switch : Features → Bool),
      c.contains id = true → Lands (fun _ => True) (run.skips c id switch) := by
    intro run id switch hid
    rcases run.skips_of_live hid switch with hskip | hskip
    · rw [hskip]
      trivial
    · rw [hskip]
      trivial
  cases op with
  | setIndent start level =>
    exact (h.spares_setIndent haimed hroom level).map fun _ hspares => hspares
  | indentLine run start =>
    have hcolumn : Lands (fun _ => True) run.lineColumn := by
      unfold LayoutRun.lineColumn checkedMul
      split <;> simp [Lands]
    have hline : Lands (fun e => Spares c e.chain) (run.indentLine c start) := by
      refine (hskips run start _ haimed).bind fun skip _ => ?_
      cases skip with
      | true => exact h.spares_refl
      | false => exact hcolumn.bind fun column _ => h.spares_setIndent haimed hroom column
    exact hline.map fun _ hspares => hspares
  | blankLineAfter id => exact (h.spares_blankLine id hroom).map fun _ hspares => hspares
  | separate run id =>
    have hline : Lands (fun e => Spares c e.chain) (run.separate c id) := by
      refine (hskips run id _ haimed).bind fun skip _ => ?_
      cases skip with
      | true => exact h.spares_refl
      | false => exact h.spares_blankLine id hroom
    exact hline.map fun _ hspares => hspares
  | alignComments closers accepts =>
    exact (h.spares_align closers accepts hroom).map fun _ hspares => hspares
  | alignStandalone run => exact (h.spares_align _ _ hroom).map fun _ hspares => hspares

theorem spares_runAll {ops : List LayoutOp} {c : TokenChain} {L : List Entry} (h : c.Holds L)
    (hw : Workable ops c) :
    Lands (fun chains => (c :: chains).IsChain Spares) (runAll ops c) := by
  induction ops generalizing c L with
  | nil => exact .singleton c
  | cons op ops ih =>
    obtain ⟨haimed, hroom, hthen⟩ := hw
    have hcall := op.spares_apply h haimed hroom
    rw [runAll]
    cases hop : op.apply c with
    | error fault =>
      rw [hop] at hcall
      exact hcall
    | ok next =>
      rw [hop] at hcall
      obtain ⟨-, M, -, hM, -⟩ := id hcall
      exact (ih hM (hthen next hop)).bind fun later hlater => .cons_cons hcall hlater

end LayoutOp

/-! ## Runs -/

/-- Between two chains a token came in, directly in front of a token that was there. It has the
switches of that token. -/
def CameIn (x y : TokenChain) (u : Stamp) : Prop :=
  x.contains u.id = false ∧ ∃ n ∈ x.stamps, y.next? u.id = some n.id ∧ u.features = n.features

/-- A chain `d` that came from `b` by edits. The chains after each edit are `way`. A token is kept
under an id that stays live all the way: an id that was free in between can name another token,
after as many removals from its slot as there are generations. A token that is new has come in at
one of the edits, and stayed. -/
structure Spared (b : TokenChain) (way : List TokenChain) (d : TokenChain) : Prop where
  code : d.code = b.code
  kept : ∀ s ∈ b.stamps, ∀ u ∈ d.stamps, u.id = s.id → (∀ x ∈ way, x.contains s.id = true) →
    u.kind = s.kind ∧ u.features = s.features
  removed : ∀ s ∈ b.stamps, ∀ x ∈ way, x.contains s.id = false → s.kind = .whitespace
  added : ∀ u ∈ d.stamps, b.contains u.id = false → u.Fills ∧
    ∃ before x y after, b :: way = before ++ x :: y :: after ∧ CameIn x y u ∧
      ∀ z ∈ after, z.contains u.id = true

theorem TokenChain.Holds.stamps_eq {c : TokenChain} {L : List Entry} (h : c.Holds L) :
    c.stamps = stampsOf L := by
  rw [TokenChain.stamps, h.entries_eq]

/-- The live ids are those of the stamps. -/
theorem TokenChain.Holds.mem_stamps_iff {c : TokenChain} {L : List Entry} (h : c.Holds L)
    {id : TokenId} : c.contains id = true ↔ ∃ s ∈ c.stamps, s.id = id := by
  rw [h.live_iff, ← stampsOf_ids, h.stamps_eq, List.mem_map]

theorem TokenChain.Holds.one_stamp {c : TokenChain} {L : List Entry} (h : c.Holds L)
    {s u : Stamp} (hs : s ∈ c.stamps) (hu : u ∈ c.stamps) (hid : u.id = s.id) : u = s := by
  rw [h.stamps_eq] at hs hu
  have hnd := h.distinct
  rw [← stampsOf_ids] at hnd
  exact eq_of_id hnd hs hu hid

section Call

variable {c d : TokenChain}

theorem Spares.code (h : Spares c d) : d.code = c.code := by
  obtain ⟨L, M, hL, hM, ht⟩ := h
  rw [TokenChain.code, TokenChain.code, hL.stamps_eq, hM.stamps_eq, ht.code]

/-- A token after a call was there before it, or came in. -/
theorem Spares.origin (h : Spares c d) {u : Stamp} (hu : u ∈ d.stamps) :
    (∃ s ∈ c.stamps, s.Keeps u) ∨ u.Fills ∧ CameIn c d u := by
  obtain ⟨L, M, hL, hM, ht⟩ := h
  rw [hM.stamps_eq] at hu
  unfold CameIn
  rw [hL.stamps_eq]
  refine (ht.origin u hu).imp_right ?_
  rintro ⟨hnew, hfills, n, -, hin, hnext, hfeatures⟩
  rw [stampsOf_ids] at hnew hnext
  rw [← hL.live_iff, Bool.not_eq_true] at hnew
  exact ⟨hfills, hnew, n, hin, hM.next?_of_neighbours hnext, hfeatures⟩

end Call

theorem TokenChain.Holds.whitespace_of_gone {b d : TokenChain} {M : List Entry} (h : d.Holds M)
    (hcode : d.code = b.code) {s : Stamp} (hs : s ∈ b.stamps) (hgone : d.contains s.id = false) :
    s.kind = .whitespace := by
  by_contra hkind
  have hin : s ∈ d.code := by
    rw [hcode]
    exact mem_codeOf.mpr ⟨hs, hkind⟩
  rw [h.mem_stamps_iff.mpr ⟨s, (mem_codeOf.mp hin).1, rfl⟩] at hgone
  cases hgone

theorem TokenChain.Holds.spared {c : TokenChain} {L : List Entry} (h : c.Holds L) :
    Spared c [] c := by
  refine ⟨rfl, ?_, by simp, ?_⟩
  · intro s hs u hu hid _
    rw [h.one_stamp hs hu hid]
    exact ⟨rfl, rfl⟩
  · intro u hu hnew
    rw [h.mem_stamps_iff.mpr ⟨u, hu, rfl⟩] at hnew
    cases hnew

section Step

variable {b d e : TokenChain} {way : List TokenChain}

theorem Spared.kept_step (h : Spared b way d) (hlast : (b :: way).getLast? = some d)
    (hcall : Spares d e) {s u : Stamp} (hs : s ∈ b.stamps) (hu : u ∈ e.stamps) (hid : u.id = s.id)
    (hstayed : ∀ x ∈ way, x.contains s.id = true) :
    u.kind = s.kind ∧ u.features = s.features := by
  have hlists := hcall
  obtain ⟨L, M, hL, -, -⟩ := hlists
  have hlive : d.contains s.id = true := by
    rcases List.mem_cons.mp (List.mem_of_getLast? hlast) with rfl | hin
    · exact hL.mem_stamps_iff.mpr ⟨s, hs, rfl⟩
    · exact hstayed d hin
  obtain ⟨v, hv, hvid⟩ := hL.mem_stamps_iff.mp hlive
  obtain ⟨hkind, hfeatures⟩ := h.kept s hs v hv hvid hstayed
  rcases hcall.origin hu with ⟨o, ho, hkeeps⟩ | ⟨-, hnew, -⟩
  · rw [hL.one_stamp hv ho (by rw [← hkeeps.id, hid, hvid])] at hkeeps
    exact ⟨hkeeps.kind.trans hkind, hkeeps.features.trans hfeatures⟩
  · rw [hid, hlive] at hnew
    cases hnew

/-- A new token comes in with this edit, or it came in at an earlier one and stayed. -/
theorem Spared.added_step (h : Spared b way d) (hlast : (b :: way).getLast? = some d)
    (hcall : Spares d e) {u : Stamp} (hu : u ∈ e.stamps) (hnew : b.contains u.id = false) :
    u.Fills ∧ ∃ before x y after, b :: (way ++ [e]) = before ++ x :: y :: after ∧ CameIn x y u ∧
      ∀ z ∈ after, z.contains u.id = true := by
  have hlists := hcall
  obtain ⟨L, M, -, hM, -⟩ := hlists
  rcases hcall.origin hu with ⟨v, hv, hkeeps⟩ | ⟨hfills, hcame⟩
  · rw [hkeeps.id] at hnew
    obtain ⟨hfills, before, x, y, after, hway, ⟨hx, n, hn, hnext, hfeatures⟩, hstayed⟩ :=
      h.added v hv hnew
    refine ⟨hfills.of_keeps hkeeps, before, x, y, after ++ [e], ?_, ?_, ?_⟩
    · rw [← List.cons_append, hway]
      simp
    · unfold CameIn
      rw [hkeeps.id, hkeeps.features]
      exact ⟨hx, n, hn, hnext, hfeatures⟩
    · rw [List.forall_mem_append, List.forall_mem_singleton, hkeeps.id]
      exact ⟨hstayed, hM.mem_stamps_iff.mpr ⟨u, hu, hkeeps.id⟩⟩
  · obtain ⟨before, hbefore⟩ := List.getLast?_eq_some_iff.mp hlast
    refine ⟨hfills, before, d, e, [], ?_, hcame, by simp⟩
    rw [← List.cons_append, hbefore]
    simp

theorem Spared.step (h : Spared b way d) (hlast : (b :: way).getLast? = some d)
    (hcall : Spares d e) : Spared b (way ++ [e]) e := by
  have hcode := hcall.code.trans h.code
  have hlists := hcall
  obtain ⟨L, M, -, hM, -⟩ := hlists
  refine ⟨hcode, ?_, ?_, ?_⟩
  · intro s hs u hu hid hstayed
    rw [List.forall_mem_append] at hstayed
    exact h.kept_step hlast hcall hs hu hid hstayed.1
  · intro s hs x hx hgone
    rcases List.mem_append.mp hx with hx | hx
    · exact h.removed s hs x hx hgone
    · rw [List.mem_singleton] at hx
      subst hx
      exact hM.whitespace_of_gone hcode hs hgone
  · intro u hu hnew
    exact h.added_step hlast hcall hu hnew

end Step

/-- What every edit spares, a stretch of edits spares. -/
theorem spared_of_isChain {b : TokenChain} {way : List TokenChain} {L : List Entry}
    (hb : b.Holds L) (h : (b :: way).IsChain Spares) :
    ∃ d, (b :: way).getLast? = some d ∧ Spared b way d := by
  induction way using List.reverseRecOn with
  | nil => exact ⟨b, rfl, hb.spared⟩
  | append_singleton way e ih =>
    rw [← List.cons_append, List.isChain_append] at h
    obtain ⟨hway, -, hjoin⟩ := h
    obtain ⟨d, hlast, hspared⟩ := ih hway
    refine ⟨e, by rw [← List.cons_append, List.getLast?_concat], ?_⟩
    exact hspared.step hlast (hjoin d hlast e rfl)

/-- Layout never touches code: however the marks and places of the chain stand, no operation of a
run faults on a stale id, and from any chain of the run to any later one the code is the same. A
token that stays keeps its kind and its switches, only whitespace leaves, and whatever comes in is
whitespace, with the switches of the token behind it. -/
theorem layout_never_touches_code (c : TokenChain) (ops : List LayoutOp)
    (hlinks : ∃ L, c.Holds L) (hw : LayoutOp.Workable ops c) :
    (∀ id, LayoutOp.runAll ops c ≠ .error (.staleId id)) ∧
    ∀ chains, LayoutOp.runAll ops c = .ok chains →
      ∀ b between d, b :: (between ++ [d]) <:+: c :: chains → Spared b (between ++ [d]) d := by
  obtain ⟨L, hL⟩ := hlinks
  have hrun := LayoutOp.spares_runAll hL hw
  constructor
  · intro id hfault
    rw [hfault] at hrun
    exact hrun id rfl
  · intro chains hok b between d hway
    rw [hok] at hrun
    change (c :: chains).IsChain Spares at hrun
    have hpart := hrun.infix hway
    have hb : ∃ M, b.Holds M := by
      cases between with
      | nil =>
        obtain ⟨M, -, hM, -⟩ := List.isChain_pair.mp hpart
        exact ⟨M, hM⟩
      | cons x between =>
        obtain ⟨M, -, hM, -⟩ := (List.isChain_cons_cons.mp hpart).1
        exact ⟨M, hM⟩
    obtain ⟨M, hM⟩ := hb
    obtain ⟨last, hlast, hspared⟩ := spared_of_isChain hM hpart
    rw [← List.cons_append, List.getLast?_concat, Option.some.injEq] at hlast
    rw [← hlast] at hspared
    exact hspared

/-- Tokens with marks and places that fit nothing: whitespace beside whitespace, a line break in
the middle of a line, comments with their switches off. -/
def looseTokens : List Token :=
  [{ text := "  ", kind := .whitespace, features := Features.none, row := 4 },
    { text := "\t", kind := .whitespace, col := 9 },
    { text := "// a", kind := .comment, features := Features.none, row := 2, col := 5 },
    { text := "\n", kind := .whitespace, row := 2, col := 9 },
    { text := "x", kind := .identifier, beginsLine := true, row := 7, col := 3 },
    { text := "\r\n", kind := .whitespace, beginsLine := true, endsLine := true, row := 1 },
    { text := "\x7bb\x7d", kind := .comment, beginsLine := true, features := Features.none },
    { text := " ", kind := .whitespace, endsLine := true, row := 3 },
    { text := "y", kind := .number, row := 9, col := 6 }]

/-- Whitespace comes in and goes, a slot is taken again, and one id names nothing. -/
def looseOps : List LayoutOp :=
  [.alignAll, .setIndent ⟨4, 0⟩ 2, .blankLineAfter ⟨40, 3⟩, .blankLineAfter ⟨1, 0⟩,
    .setIndent ⟨1, 0⟩ 0, .setIndent ⟨8, 0⟩ 1, .alignComments [] fun t => t.row = 2,
    .separate {} ⟨6, 0⟩]

theorem loose_marks_leave_the_code_alone :
    (∃ L, (TokenChain.ofList looseTokens).Holds L) ∧
    LayoutOp.Workable looseOps (TokenChain.ofList looseTokens) ∧
    ∃ chains, LayoutOp.runAll looseOps (TokenChain.ofList looseTokens) = .ok chains ∧
      ∀ b between d, b :: (between ++ [d]) <:+: TokenChain.ofList looseTokens :: chains →
        Spared b (between ++ [d]) d := by
  have hlinks : ∃ L, (TokenChain.ofList looseTokens).Holds L :=
    TokenChain.linked_ofList (by decide)
  have hw : LayoutOp.Workable looseOps (TokenChain.ofList looseTokens) := by decide +kernel
  have hok : (LayoutOp.runAll looseOps (TokenChain.ofList looseTokens)).isOk = true := by
    decide +kernel
  refine ⟨hlinks, hw, ?_⟩
  cases hrun : LayoutOp.runAll looseOps (TokenChain.ofList looseTokens) with
  | error fault =>
    rw [hrun] at hok
    cases hok
  | ok chains => exact ⟨chains, rfl, (layout_never_touches_code _ _ hlinks hw).2 chains hrun⟩

end LineLayout
