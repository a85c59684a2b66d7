-- Runs of layout operations. A consistent chain stays consistent through every run, and no
-- operation of a run faults, as long as each operation is made on a live token, every width
-- and every text stay below the 63rd power of two, and the arena has room.
import LineLayout.LayoutRun
import LineLayout.Proofs.Alignment
import LineLayout.Proofs.BlankLines

namespace LineLayout

/-! ## Operations and runs -/

/-- What is to hold of a result can be checked: there is one result or none. -/
instance decidableForallOk {ε α : Type} {P : α → Prop} [DecidablePred P] :
    (x : Except ε α) → Decidable (∀ a, x = .ok a → P a)
  | .ok a => decidable_of_iff (P a) (by simp)
  | .error _ => isTrue (by simp)

/-- The text is short enough, and the arena has room for so many more tokens. -/
structure TokenChain.Fits (c : TokenChain) (additions : Nat) : Prop where
  text : c.render.length < signedLimit
  room : c.slots.size + additions ≤ slotLimit

/-- One edit of a chain, made directly or by a layout run. -/
inductive LayoutOp where
  | setIndent (start : TokenId) (level : Nat)
  | indentLine (run : LayoutRun) (start : TokenId)
  | blankLineAfter (id : TokenId)
  | separate (run : LayoutRun) (id : TokenId)
  | alignComments (closers : List String) (accepts : Token → Bool)
  | alignStandalone (run : LayoutRun)

namespace LayoutOp

/-- Aligns every standalone comment, with the usual closing words. -/
def alignAll : LayoutOp := alignComments defaultClosers fun _ => true

def apply (c : TokenChain) : LayoutOp → Except Fault TokenChain
  | setIndent start level => (c.setIndent start level).map Edited.chain
  | indentLine run start => (run.indentLine c start).map Edited.chain
  | blankLineAfter id => (c.withBlankLineAfter id).map Edited.chain
  | separate run id => (run.separate c id).map Edited.chain
  | alignComments closers accepts => (c.alignStandalone closers accepts).map Edited.chain
  | alignStandalone run => (run.alignStandalone c).map Edited.chain

/-- The id names a token that begins a line. -/
def Starts (c : TokenChain) (id : TokenId) : Prop :=
  ∃ t, c.get? id = some t ∧ t.beginsLine = true

/-- What the caller of an operation sees to: the token is there, and the width is not too
large. -/
def Allowed (c : TokenChain) : LayoutOp → Prop
  | setIndent start level => Starts c start ∧ level < signedLimit
  | indentLine run start =>
    Starts c start ∧ run.nesting.lowest * run.options.indentWidth < signedLimit
  | blankLineAfter id => c.contains id = true
  | separate _ id => c.contains id = true
  | alignComments _ _ => True
  | alignStandalone _ => True

/-- How many tokens an operation adds at most. -/
def additions (c : TokenChain) : LayoutOp → Nat
  | alignComments _ _ => (c.toList.filter Token.isComment).length
  | alignStandalone _ => (c.toList.filter Token.isComment).length
  | _ => 1

/-- The chains after each operation, in order. -/
def runAll : List LayoutOp → TokenChain → Except Fault (List TokenChain)
  | [], _ => .ok []
  | op :: ops, c => do
    let next ← op.apply c
    let later ← runAll ops next
    return next :: later

/-- Every operation is allowed in the chain where it is made, and every chain on the way has a
short text and room for what comes next. -/
def Admissible : List LayoutOp → TokenChain → Prop
  | [], c => c.Fits 0
  | op :: ops, c => c.Fits (op.additions c) ∧ op.Allowed c ∧
      ∀ next, op.apply c = .ok next → Admissible ops next

instance (c : TokenChain) (additions : Nat) : Decidable (c.Fits additions) :=
  decidable_of_iff (c.render.length < signedLimit ∧ c.slots.size + additions ≤ slotLimit)
    ⟨fun h => ⟨h.1, h.2⟩, fun h => ⟨h.text, h.room⟩⟩

instance (c : TokenChain) (id : TokenId) : Decidable (Starts c id) :=
  decidable_of_iff ((c.get? id).any Token.beginsLine = true) (by
    simp [Starts, Option.any_eq_true])

instance decidableAllowed (c : TokenChain) : (op : LayoutOp) → Decidable (op.Allowed c)
  | setIndent start level => inferInstanceAs (Decidable (Starts c start ∧ level < signedLimit))
  | indentLine run start => inferInstanceAs (Decidable
      (Starts c start ∧ run.nesting.lowest * run.options.indentWidth < signedLimit))
  | blankLineAfter id => inferInstanceAs (Decidable (c.contains id = true))
  | separate _ id => inferInstanceAs (Decidable (c.contains id = true))
  | alignComments _ _ => isTrue trivial
  | alignStandalone _ => isTrue trivial

instance decidableAdmissible : (ops : List LayoutOp) → (c : TokenChain) →
    Decidable (Admissible ops c)
  | [], c => inferInstanceAs (Decidable (c.Fits 0))
  | op :: ops, c =>
    have := decidableAdmissible ops
    inferInstanceAs (Decidable (c.Fits (op.additions c) ∧ op.Allowed c ∧
      ∀ next, op.apply c = .ok next → Admissible ops next))

theorem Admissible.fits {ops : List LayoutOp} {c : TokenChain} (h : Admissible ops c) :
    c.Fits 0 := by
  cases ops with
  | nil => exact h
  | cons op ops => exact ⟨h.1.text, Nat.le_trans (Nat.le_add_right _ _) h.1.room⟩

end LayoutOp

/-- The links are a list of all live tokens, the check finds nothing, and whitespace inside a
line has no line break. -/
structure TokenChain.Consistent (c : TokenChain) : Prop where
  linked : ∃ L, c.Holds L
  checked : c.check = .ok none
  plain : ∀ t ∈ c.toList, t.isWhitespace = true → t.endsWithBreak = false → t.plain

theorem TokenChain.consistent_ofList {tokens : List Token} (hroom : tokens.length ≤ slotLimit)
    (hcheck : (ofList tokens).check = .ok none)
    (hplain : ∀ t ∈ tokens, t.isWhitespace = true → t.endsWithBreak = false → t.plain) :
    (ofList tokens).Consistent := by
  obtain ⟨L, hL, htokens⟩ := holds_ofList hroom
  refine ⟨⟨L, hL⟩, hcheck, ?_⟩
  rwa [toList, hL.entries_eq, htokens]

theorem TokenChain.Consistent.steady {c : TokenChain} (h : c.Consistent)
    (hc : c.render.length < signedLimit) : ∃ L, c.Steady L := by
  obtain ⟨L, hL⟩ := h.linked
  refine ⟨L, hL, ⟨hL.placed_of_check h.checked, ?_⟩, sized_of_textOf (hL.short_text hc)⟩
  intro e he
  apply h.plain e.2
  unfold toList
  rw [hL.entries_eq]
  exact List.mem_map_of_mem he

theorem TokenChain.Steady.consistent {c : TokenChain} {L : List Entry} (h : c.Steady L) :
    c.Consistent := by
  refine ⟨⟨L, h.holds⟩, h.holds.check_of_placed h.sound.placed h.sized, ?_⟩
  intro t ht
  unfold toList at ht
  rw [h.holds.entries_eq] at ht
  obtain ⟨e, he, rfl⟩ := List.mem_map.mp ht
  exact h.sound.plain e he

/-! ## What an operation changes -/

/-- Each line keeps its content, and may have got another indentation. -/
def Refitted (ls ls' : List (Line Entry)) : Prop :=
  List.Forall₂ (fun l l' => ∃ column, Settled column l l') ls ls'

theorem refitted_refl (ls : List (Line Entry)) : Refitted ls ls :=
  List.forall₂_same.mpr fun _ _ => ⟨none, rfl⟩

theorem Aligned.refitted {closers : List String} {accepts : Token → Bool}
    {ls ls' : List (Line Entry)} (h : Aligned closers accepts ls ls') : Refitted ls ls' := by
  induction h with
  | nil => exact .nil
  | cons hsettled _ ih => exact .cons ⟨_, hsettled⟩ ih

/-- A list before and after an operation. -/
inductive Changed : List Entry → List Entry → Prop where
  | refitted (ls ls' : List (Line Entry)) : (∀ l ∈ ls, l.Proper) → (∀ l ∈ ls', l.Proper) →
      Refitted ls ls' → Changed (flat ls) (flat ls')
  | separated (P : List Entry) (last : TokenId) (tl : Token) (R : List Entry)
      (value : Option TokenId) (L : List Entry) : (tl.endsLine = true ∨ R = []) →
      Separated P last tl R value L → Changed (P ++ (last, tl) :: R) L

theorem Line.Proper.behind {l : Line Entry} (h : l.Proper) :
    ∀ e ∈ l.behind, e.2.beginsLine = false := by
  match l, h with
  | .blank _, _ => simp [Line.behind]
  | .content none _ _, h => exact List.forall_mem_map.mp h.2.2
  | .content (some _) _ _, h =>
    simp only [Line.behind, List.forall_mem_cons]
    exact ⟨h.2.2.2.2.1, List.forall_mem_map.mp h.2.2.2.2.2⟩

theorem exists_line {ls : List (Line Entry)} (hls : ∀ l ∈ ls, l.Proper) {e : Entry}
    (he : e ∈ flat ls) (hb : e.2.beginsLine = true) :
    ∃ P l Q, ls = P ++ l :: Q ∧ l.start = e := by
  obtain ⟨l, hl, hel⟩ := List.mem_flatMap.mp he
  obtain ⟨P, Q, rfl⟩ := List.append_of_mem hl
  rw [l.items_eq] at hel
  rcases List.mem_cons.mp hel with rfl | hin
  · exact ⟨P, l, Q, rfl, rfl⟩
  · rw [(hls l hl).behind e hin] at hb
    cases hb

namespace TokenChain

theorem Holds.lineHeads_eq {c : TokenChain} {ls : List (Line Entry)} (h : c.Holds (flat ls))
    (hls : ∀ l ∈ ls, l.Proper) : c.lineHeads = ls.map fun l => l.start.1 := by
  unfold lineHeads
  rw [h.entries_eq]
  clear h
  induction ls with
  | nil => rfl
  | cons l ls ih =>
    rw [List.forall_mem_cons] at hls
    have hline : l.items.filter (fun e => e.2.beginsLine) = [l.start] := by
      rw [l.items_eq, List.filter_cons_of_pos (p := fun e : Entry => e.2.beginsLine)
        hls.1.begins, List.filter_eq_nil_iff.mpr]
      intro e he
      simp [hls.1.behind e he]
    rw [flat_cons, List.filter_append, hline, List.map_append, ih hls.2]
    rfl

section Steps

variable {c : TokenChain} {L : List Entry}

theorem Steady.change_setIndent (h : c.Steady L) {start : TokenId} {level : Nat}
    (hstart : LayoutOp.Starts c start) (hlevel : level < signedLimit)
    (hroom : c.slots.size < slotLimit) :
    ∃ e L', c.setIndent start level = .ok e ∧ e.chain.Holds L' ∧ Sound L' ∧ Changed L L' := by
  obtain ⟨t, hget, hb⟩ := hstart
  obtain ⟨A, B, hL⟩ := h.holds.split_get? hget
  obtain ⟨ls, rfl, hls⟩ := h.sound.exists_lines
  obtain ⟨P, l, Q, rfl, hl⟩ := exists_line hls (e := (start, t)) (by rw [hL]; simp) hb
  have hflat : ∀ x : Line Entry, flat (P ++ x :: Q) = flat P ++ (x.items ++ flat Q) := by
    intro x
    simp [flat]
  simp only [List.forall_mem_append, List.forall_mem_cons] at hls
  rw [hflat] at h
  obtain ⟨e, l', hok, hsteady, hrefit, hproper, -⟩ :=
    h.setIndent_line hls.2.1 (head?_flat hls.2.2) hroom hlevel
  rw [hl] at hok
  rw [← hflat] at hsteady
  refine ⟨e, _, hok, hsteady.holds, hsteady.sound, .refitted _ _ ?_ ?_ ?_⟩
  · simpa only [List.forall_mem_append, List.forall_mem_cons] using hls
  · simp only [List.forall_mem_append, List.forall_mem_cons]
    exact ⟨hls.1, hproper, hls.2.2⟩
  · exact List.rel_append (refitted_refl P) (.cons ⟨some level, hrefit⟩ (refitted_refl Q))

theorem Steady.change_blankLine (h : c.Steady L) {id : TokenId} (hid : c.contains id = true)
    (hroom : c.slots.size < slotLimit) :
    ∃ e L', c.withBlankLineAfter id = .ok e ∧ e.chain.Holds L' ∧ Sound L' ∧ Changed L L' := by
  obtain ⟨A, t, B, rfl⟩ := h.holds.split hid
  obtain ⟨S, last, tl, R, e, L', hsplit, -, hend, hok, hL', hsep, -⟩ :=
    h.holds.withBlankLineAfter hroom
  rw [hsplit, ← List.append_assoc] at h ⊢
  exact ⟨e, L', hok, hL', hsep.keeps h.sound h.sized hend, .separated _ _ _ _ _ _ hend hsep⟩

theorem commentIds_length_le (accepts : Token → Bool) (h : c.Holds L) :
    (commentIds accepts L).length ≤ (c.toList.filter Token.isComment).length := by
  unfold commentIds toList
  rw [h.entries_eq, List.filter_map, List.length_map, List.length_map,
    ← List.countP_eq_length_filter, ← List.countP_eq_length_filter]
  apply List.countP_mono_left
  intro e _ he
  exact (Bool.and_eq_true_iff.mp he).1

theorem Steady.change_align (h : c.Steady L) (closers : List String) (accepts : Token → Bool)
    (hroom : c.slots.size + (c.toList.filter Token.isComment).length ≤ slotLimit)
    (htext : (textOf L).length < signedLimit) :
    ∃ e L', c.alignStandalone closers accepts = .ok e ∧ e.chain.Holds L' ∧ Sound L' ∧
      Changed L L' := by
  have hcount := commentIds_length_le accepts h.holds
  obtain ⟨ls, rfl, hls⟩ := h.sound.exists_lines
  obtain ⟨e, ls', hok, hsteady, haligned, hproper, -⟩ :=
    h.alignStandalone closers accepts hls (by omega) htext
  exact ⟨e, flat ls', hok, hsteady.holds, hsteady.sound,
    .refitted ls ls' hls hproper haligned.refitted⟩

end Steps

end TokenChain

/-! ## Every operation keeps the invariant -/

theorem LayoutRun.skips_of_live {c : TokenChain} {id : TokenId} (h : c.contains id = true)
    (run : LayoutRun) (switch : Features → Bool) :
    run.skips c id switch = .ok true ∨ run.skips c id switch = .ok false := by
  obtain ⟨node, hnode⟩ := TokenChain.contains_iff.mp h
  have hget : c.get id = .ok node.token := by simp [TokenChain.get, TokenChain.get?, hnode]
  unfold skips
  rw [hget]
  by_cases hr : run.options.respectFeatures = true
  · rw [if_pos hr]
    cases hs : switch node.token.features
    · left
      simp [bind, Except.bind, pure, Except.pure, hs]
    · right
      simp [bind, Except.bind, pure, Except.pure, hs]
  · rw [if_neg hr]
    exact Or.inr rfl

theorem LayoutRun.lineColumn_of_lt {run : LayoutRun}
    (h : run.nesting.lowest * run.options.indentWidth < signedLimit) :
    run.lineColumn = .ok (run.nesting.lowest * run.options.indentWidth) := by
  unfold lineColumn checkedMul
  rw [if_pos]
  simp only [signedLimit, wordLimit] at *
  omega

theorem LayoutOp.Starts.contains {c : TokenChain} {id : TokenId} (h : Starts c id) :
    c.contains id = true := by
  obtain ⟨t, hget, -⟩ := h
  obtain ⟨node, hnode, -⟩ := Option.map_eq_some_iff.mp hget
  simp [TokenChain.contains, hnode]

theorem Sound.changed_refl {L : List Entry} (h : Sound L) : Changed L L := by
  obtain ⟨ls, rfl, hls⟩ := h.exists_lines
  exact .refitted ls ls hls hls (refitted_refl ls)

/-- An allowed operation does not fault, and changes the list in one of the two ways. -/
theorem LayoutOp.apply_changes {c : TokenChain} {L : List Entry} (h : c.Steady L)
    (op : LayoutOp) (hfits : c.Fits (op.additions c)) (hallowed : op.Allowed c) :
    ∃ d L', op.apply c = .ok d ∧ d.Holds L' ∧ Sound L' ∧ Changed L L' := by
  have htext := h.holds.short_text hfits.text
  have hroom := hfits.room
  cases op with
  | setIndent start level =>
    obtain ⟨e, L', hok, hrest⟩ := h.change_setIndent hallowed.1 hallowed.2 hroom
    exact ⟨e.chain, L', by simp [apply, hok, Except.map], hrest⟩
  | indentLine run start =>
    obtain ⟨hstart, hcolumn⟩ := hallowed
    rcases run.skips_of_live hstart.contains Features.indent with hskip | hskip
    · refine ⟨c, L, ?_, h.holds, h.sound, h.sound.changed_refl⟩
      simp [apply, LayoutRun.indentLine, hskip, bind, Except.bind, pure, Except.pure, Except.map,
        TokenChain.unchanged]
    · obtain ⟨e, L', hok, hrest⟩ := h.change_setIndent hstart hcolumn hroom
      refine ⟨e.chain, L', ?_, hrest⟩
      simp [apply, LayoutRun.indentLine, hskip, LayoutRun.lineColumn_of_lt hcolumn, hok, bind,
        Except.bind, Except.map]
  | blankLineAfter id =>
    obtain ⟨e, L', hok, hrest⟩ := h.change_blankLine hallowed hroom
    exact ⟨e.chain, L', by simp [apply, hok, Except.map], hrest⟩
  | separate run id =>
    rcases run.skips_of_live hallowed Features.blankLines with hskip | hskip
    · refine ⟨c, L, ?_, h.holds, h.sound, h.sound.changed_refl⟩
      simp [apply, LayoutRun.separate, hskip, bind, Except.bind, pure, Except.pure, Except.map,
        TokenChain.unchanged]
    · obtain ⟨e, L', hok, hrest⟩ := h.change_blankLine hallowed hroom
      refine ⟨e.chain, L', ?_, hrest⟩
      simp [apply, LayoutRun.separate, hskip, hok, bind, Except.bind, Except.map]
  | alignComments closers accepts =>
    obtain ⟨e, L', hok, hrest⟩ := h.change_align closers accepts hroom htext
    exact ⟨e.chain, L', by simp [apply, hok, Except.map], hrest⟩
  | alignStandalone run =>
    obtain ⟨e, L', hok, hrest⟩ := h.change_align run.options.closingKeywords
      (fun comment => !run.options.respectFeatures || comment.features.indent) hroom htext
    exact ⟨e.chain, L', by simp [apply, LayoutRun.alignStandalone, hok, Except.map], hrest⟩

/-- What one operation keeps, a whole run keeps: `Q` may say more of the list than that it is
sound. -/
theorem LayoutOp.runAll_keeps {Q : List Entry → Prop}
    (hQ : ∀ L L', Sound L → Sound L' → Changed L L' → Q L → Q L') {ops : List LayoutOp}
    {c : TokenChain} {L : List Entry} (h : c.Steady L) (hL : Q L) (ha : Admissible ops c) :
    ∃ chains, runAll ops c = .ok chains ∧ chains.length = ops.length ∧
      ∀ d ∈ chains, ∃ L', d.Steady L' ∧ Q L' := by
  induction ops generalizing c L with
  | nil => exact ⟨[], rfl, rfl, by simp⟩
  | cons op ops ih =>
    obtain ⟨hfits, hallowed, hthen⟩ := ha
    obtain ⟨next, L', hok, hholds, hsound, hchanged⟩ := op.apply_changes h hfits hallowed
    have hnext := hthen next hok
    have hsteady : next.Steady L' :=
      ⟨hholds, hsound, sized_of_textOf (hholds.short_text hnext.fits.text)⟩
    have hL' := hQ L L' h.sound hsound hchanged hL
    obtain ⟨later, hrun, hlength, hlater⟩ := ih hsteady hL' hnext
    refine ⟨next :: later, ?_, by simp [hlength], ?_⟩
    · simp only [runAll, hok, hrun, bind, Except.bind]
      rfl
    · rw [List.forall_mem_cons]
      exact ⟨⟨L', hsteady, hL'⟩, hlater⟩

/-- A run of layout operations on a consistent chain never faults, and every chain on the way
is consistent. -/
theorem layout_runs_keep_a_chain_consistent (c : TokenChain) (ops : List LayoutOp)
    (hc : c.Consistent) (ha : LayoutOp.Admissible ops c) :
    ∃ chains, LayoutOp.runAll ops c = .ok chains ∧ chains.length = ops.length ∧
      ∀ d ∈ chains, d.Consistent := by
  obtain ⟨L, hL⟩ := hc.steady ha.fits.text
  obtain ⟨chains, hrun, hlength, hall⟩ :=
    LayoutOp.runAll_keeps (Q := fun _ => True) (fun _ _ _ _ _ _ => trivial) hL trivial ha
  refine ⟨chains, hrun, hlength, ?_⟩
  intro d hd
  obtain ⟨L', hL', -⟩ := hall d hd
  exact hL'.consistent

/-- Tokens with and without switches: an indented comment over two lines, and code below it. -/
def mixedTokens : List Token :=
  [{ text := "\t", kind := .whitespace, beginsLine := true },
    { text := "\x7ba\nb\x7d", kind := .comment, features := Features.none, col := 1 },
    { text := "\n", kind := .whitespace, endsLine := true, row := 1, col := 2 },
    { text := "x", kind := .directive, beginsLine := true, row := 2 },
    { text := "\r\n", kind := .whitespace, endsLine := true, row := 2, col := 1 },
    { text := "y", kind := .virtualBracket, beginsLine := true, row := 3 }]

/-- Every operation once on these tokens. -/
def mixedOps : List LayoutOp :=
  [.setIndent ⟨3, 0⟩ 4, .indentLine ⟨{}, { lowest := 2 }⟩ ⟨5, 0⟩, .blankLineAfter ⟨1, 0⟩,
    .separate ⟨{ respectFeatures := false }, {}⟩ ⟨3, 0⟩, .alignAll, .alignStandalone {}]

theorem mixed_run_keeps_the_chain_consistent :
    (TokenChain.ofList mixedTokens).Consistent ∧
    LayoutOp.Admissible mixedOps (TokenChain.ofList mixedTokens) ∧
    ∃ chains, LayoutOp.runAll mixedOps (TokenChain.ofList mixedTokens) = .ok chains ∧
      chains.length = mixedOps.length ∧ ∀ d ∈ chains, d.Consistent := by
  have hc : (TokenChain.ofList mixedTokens).Consistent :=
    TokenChain.consistent_ofList (by decide) (by decide +kernel) (by decide +kernel)
  have ha : LayoutOp.Admissible mixedOps (TokenChain.ofList mixedTokens) := by decide +kernel
  exact ⟨hc, ha, layout_runs_keep_a_chain_consistent _ _ hc ha⟩

end LineLayout
