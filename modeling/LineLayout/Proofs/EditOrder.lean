-- Edits of lines can be made in any order. Each edit of a chain is the edit of its plan: setting
-- an indentation changes the shape of its own line, and keeping lines apart puts a blank line
-- below its own line, unless the next line is blank or there is none. So a chain after some edits
-- follows the plan after these edits, in whatever order they were made.
import LineLayout.Proofs.LinePlans

namespace LineLayout

/-! ## Where a line ends -/

/-- Inside a line no token ends it. The last token does, unless it is the last one of all. -/
theorem PlacedAfter.line_ends {before : Option Token} {e : Entry} {behind R : List Entry}
    (h : PlacedAfter before (e :: behind ++ R)) (hb : ∀ x ∈ behind, x.2.beginsLine = false)
    (hR : ∀ r ∈ R.head?, r.2.beginsLine = true) :
    ∃ body last, e :: behind = body ++ [last] ∧ (∀ x ∈ body, x.2.endsLine = false) ∧
      (last.2.endsLine = true ∨ R = []) := by
  induction behind generalizing before e with
  | nil =>
    refine ⟨[], e, rfl, by simp, ?_⟩
    cases R with
    | nil => exact Or.inr rfl
    | cons r R =>
      have hf : Follows e.2 r.2 := h.2.1
      rw [← hf.marks]
      exact Or.inl (hR r rfl)
  | cons n behind ih =>
    rw [List.forall_mem_cons] at hb
    have hf : Follows e.2 n.2 := h.2.1
    obtain ⟨body, last, hline, hbody, hlast⟩ := ih h.2 hb.2
    refine ⟨e :: body, last, by rw [hline]; rfl, ?_, hlast⟩
    rw [List.forall_mem_cons, ← hf.marks]
    exact ⟨hb.1, hbody⟩

theorem PlacedAfter.line_end {before : Option Token} {e : Entry} {behind R : List Entry}
    (h : PlacedAfter before (e :: behind ++ R)) (hb : ∀ x ∈ behind, x.2.beginsLine = false)
    (hR : ∀ r ∈ R.head?, r.2.beginsLine = true)
    (hclosed : R = [] → ∀ x ∈ (e :: behind).getLast?, x.2.endsLine = true) :
    ∃ body last, e :: behind = body ++ [last] ∧ (∀ x ∈ body, x.2.endsLine = false) ∧
      last.2.endsLine = true := by
  obtain ⟨body, last, hline, hbody, hend⟩ := h.line_ends hb hR
  refine ⟨body, last, hline, hbody, hend.elim id ?_⟩
  intro hnil
  exact hclosed hnil last (by rw [hline, List.getLast?_concat]; rfl)

theorem first_end_unique {S S' R R' : List Entry} {x x' : Entry}
    (h : S ++ x :: R = S' ++ x' :: R') (hS : ∀ e ∈ S, e.2.endsLine = false)
    (hS' : ∀ e ∈ S', e.2.endsLine = false) (hx : x.2.endsLine = true ∨ R = [])
    (hx' : x'.2.endsLine = true) : S = S' ∧ x = x' ∧ R = R' := by
  induction S generalizing S' with
  | nil =>
    cases S' with
    | nil =>
      obtain ⟨hxx, hRR⟩ := List.cons.inj h
      exact ⟨rfl, hxx, hRR⟩
    | cons e S' =>
      obtain ⟨rfl, hR⟩ := List.cons.inj h
      have hno := hS' x List.mem_cons_self
      rcases hx with hx | hnil
      · rw [hno] at hx
        cases hx
      · rw [hnil] at hR
        simp at hR
  | cons e S ih =>
    rw [List.forall_mem_cons] at hS
    cases S' with
    | nil =>
      obtain ⟨rfl, -⟩ := List.cons.inj h
      rw [hS.1] at hx'
      cases hx'
    | cons e' S' =>
      rw [List.forall_mem_cons] at hS'
      obtain ⟨rfl, hrest⟩ := List.cons.inj h
      obtain ⟨rfl, hxx, hRR⟩ := ih hrest hS.2 hS'.2
      exact ⟨rfl, hxx, hRR⟩

/-! ## Chains that follow a plan -/

/-- The chain holds fresh tokens, and their lines follow the plan. -/
structure Realized (features : Features) (ps : List LinePlan) (c : TokenChain)
    (ls : List (Line Entry)) : Prop where
  steady : c.Steady (flat ls)
  fresh : Fresh features (flat ls)
  proper : ∀ l ∈ ls, l.Proper
  drawn : Drawn ps ls

section Line

variable {features : Features} {c : TokenChain} {X Y : List (Line Entry)} {l : Line Entry}

theorem Realized.line_end {ps : List LinePlan} (h : Realized features ps c (X ++ l :: Y)) :
    ∃ body last, l.items = body ++ [last] ∧ (∀ x ∈ body, x.2.endsLine = false) ∧
      last.2.endsLine = true := by
  have hproper := h.proper
  rw [List.forall_mem_append, List.forall_mem_cons] at hproper
  have hplaced := h.steady.sound.placed
  have hclosed := h.fresh.closed
  rw [flat_append, flat_cons, l.items_eq] at hplaced hclosed
  rw [l.items_eq]
  refine (placed_append.mp hplaced).2.line_end hproper.2.1.behind (head?_flat hproper.2.2) ?_
  intro hnil x hx
  apply hclosed x
  rw [hnil, List.append_nil, List.getLast?_append]
  rw [hx]
  rfl

/-- A line is blank exactly when its first token is a blank line. -/
theorem Realized.isBlankLine_start {ps : List LinePlan}
    (h : Realized features ps c (X ++ l :: Y)) : l.start.2.isBlankLine = !l.isContent := by
  have hl : l.Proper := h.proper l (by simp)
  match l with
  | .blank e =>
    obtain ⟨body, last, hitems, -, hend⟩ := h.line_end
    have hlast : e = last := by
      cases body with
      | nil => exact (List.cons.inj hitems).1
      | cons x body => simp [Line.items] at hitems
    rw [← hlast] at hend
    have hw : e.2.isWhitespace = true := hl.1
    simp [Line.start, Line.isContent, Token.isBlankLine, hw, hend]
  | .content none first rest =>
    have hw : first.2.isWhitespace = false := hl.1
    simp [Line.start, Line.isContent, Token.isBlankLine, hw]
  | .content (some lead) first rest =>
    have hend : lead.2.endsLine = false := hl.2.2.1
    simp [Line.start, Line.isContent, Token.isBlankLine, hend]

end Line

/-! ## One edit -/

section Edit

variable {features : Features} {c : TokenChain} {ls : List (Line Entry)} {P Q : List LinePlan}
  {p : LinePlan}

theorem editPlan_local {edit : LineEdit} (h : ∀ q ∈ P ++ Q, q.edit edit = q) :
    editPlan (P ++ p :: Q) edit = P ++ p.edit edit :: Q := by
  rw [List.forall_mem_append] at h
  have hsame : ∀ R : List LinePlan, (∀ q ∈ R, q.edit edit = q) → R.map (·.edit edit) = R :=
    fun R hR => (List.map_congr_left hR).trans (List.map_id R)
  rw [editPlan, List.map_append, List.map_cons, hsame P h.1, hsame Q h.2]

theorem Drawn.apart {X G Y : List (Line Entry)} {l : Line Entry} (hX : Drawn P X)
    (hY : Drawn Q Y) (hnd : ((flat (X ++ l :: (G ++ Y))).map Prod.fst).Nodup) {id : TokenId}
    (hid : id ∈ l.items.map Prod.fst) : ∀ q ∈ P ++ Q, q.start ≠ some id ∧ id ∉ q.core := by
  rw [flat_append, flat_cons, flat_append, List.map_append, List.map_append, List.map_append,
    List.nodup_append, List.nodup_append] at hnd
  obtain ⟨-, ⟨-, -, hlY⟩, hXl⟩ := hnd
  intro q hq
  rw [← not_or]
  intro hin
  rcases List.mem_append.mp hq with hP | hQ
  · exact hXl id (hX.mem_ids hP hin) id (List.mem_append_left _ hid) rfl
  · exact hlY id hid id (List.mem_append_right _ (hY.mem_ids hQ hin)) rfl

theorem Realized.indent (h : Realized features (P ++ p :: Q) c ls) {start : TokenId}
    (hstart : p.start = some start) {level : Nat} (hlevel : level < signedLimit)
    (hroom : c.slots.size < slotLimit) :
    ∃ d ls', (LineEdit.indent start level).op.apply c = .ok d ∧
      Realized features (editPlan (P ++ p :: Q) (.indent start level)) d ls' := by
  obtain ⟨X, l, G, Y, rfl, hX, hl, hshapes, hY⟩ := h.drawn.split
  have hls := h.proper
  rw [List.forall_mem_append, List.forall_mem_cons] at hls
  have hflat : ∀ x : Line Entry,
      flat (X ++ x :: (G ++ Y)) = flat X ++ (x.items ++ flat (G ++ Y)) := by
    intro x
    rw [flat_append, flat_cons]
  have hat := h.steady
  rw [hflat] at hat
  obtain ⟨e, l', hok, hsteady, hrefit, hproper, -⟩ :=
    hat.setIndent_line hls.2.1 (head?_flat hls.2.2) hroom hlevel
  rw [hl.start start hstart] at hok
  rw [← hflat] at hsteady
  have hls' : ∀ x ∈ X ++ l' :: (G ++ Y), x.Proper := by
    rw [List.forall_mem_append, List.forall_mem_cons]
    exact ⟨hls.1, hproper, hls.2.2⟩
  have hchanged : Changed (flat (X ++ l :: (G ++ Y))) (flat (X ++ l' :: (G ++ Y))) :=
    .refitted _ _ h.proper hls'
      (List.rel_append (refitted_refl X) (.cons ⟨some level, hrefit⟩ (refitted_refl _)))
  have hothers : ∀ q ∈ P ++ Q, q.edit (.indent start level) = q := by
    intro q hq
    have hin : start ∈ l.items.map Prod.fst := by
      rw [← hl.start start hstart, l.items_eq]
      exact List.mem_cons_self
    rw [LinePlan.edit, if_neg (hX.apart hY h.steady.holds.distinct hin q hq).1]
  refine ⟨e.chain, X ++ l' :: (G ++ Y), ?_, hsteady, hchanged.fresh h.steady.sound h.fresh, hls',
    ?_⟩
  · simp [LineEdit.op, LayoutOp.apply, hok, Except.map]
  · rw [editPlan_local hothers, LinePlan.edit, if_pos hstart]
    have hshape : shapeOf l' = p.shape.refit level := by rw [hrefit.shape hproper, hl.shape]
    refine hX.append (.cons ⟨hshape, hrefit.core_ids.trans hl.core, by simp⟩ ?_ hY)
    rw [List.map_cons, hshape]
    exact congrArg (p.shape.refit level :: ·) (List.cons.inj hshapes).2

/-- Keeping lines apart looks at what follows the line. -/
theorem Realized.withBlankLineAfter {ps : List LinePlan} {X Y : List (Line Entry)} {l : Line Entry}
    (h : Realized features ps c (X ++ l :: Y)) {id : TokenId} (hid : id ∈ l.core.map Prod.fst)
    (hroom : c.slots.size < slotLimit) :
    ∃ body last e L, l.items = body ++ [last] ∧ last.2.endsLine = true ∧
      c.withBlankLineAfter id = .ok e ∧ e.chain.Holds L ∧
      Separated (flat X ++ body) last.1 last.2 (flat Y) e.value L := by
  obtain ⟨body, last, hbody, hinside, hlast⟩ := h.line_end
  obtain ⟨⟨id, t⟩, he, rfl⟩ := List.mem_map.mp hid
  obtain ⟨front, back, hitems⟩ := List.append_of_mem (Line.mem_items_of_core he)
  have hat : c.Holds ((flat X ++ front) ++ (id, t) :: (back ++ flat Y)) := by
    have hholds := h.steady.holds
    rw [flat_append, flat_cons, hitems] at hholds
    simpa using hholds
  obtain ⟨S, x, tx, R, e, L, hsplit, hS, hend, hok, hL, hsep, -⟩ := hat.withBlankLineAfter hroom
  obtain ⟨inner, hinner⟩ : ∃ inner, (id, t) :: back = inner ++ [last] ∧ body = front ++ inner := by
    rcases List.eq_nil_or_concat ((id, t) :: back) with hnil | ⟨inner, y, hy⟩
    · cases hnil
    · rw [List.concat_eq_append] at hy
      rw [hy, hbody, ← List.append_assoc] at hitems
      obtain ⟨hfront, hyl⟩ := List.append_inj' hitems rfl
      cases hyl
      exact ⟨inner, hy, hfront⟩
  obtain ⟨hrest, rfl⟩ := hinner
  rw [List.forall_mem_append] at hinside
  have hline : S ++ (x, tx) :: R = inner ++ last :: flat Y := by
    rw [← hsplit, ← List.cons_append, hrest]
    simp
  obtain ⟨rfl, rfl, rfl⟩ := first_end_unique hline hS hinside.2 hend hlast
  rw [List.append_assoc] at hsep
  exact ⟨front ++ S, (x, tx), e, L, hbody, hlast, hok, hL, hsep⟩

theorem Line.Proper.shiftRow {l : Line Entry} (h : l.Proper) (delta : Int) :
    (l.map fun e => (e.1, e.2.shiftRow delta)).Proper := by
  have hinside : ∀ rest : List Entry, (∀ t ∈ rest.map Prod.snd, t.beginsLine = false) →
      ∀ t ∈ (rest.map fun e => (e.1, e.2.shiftRow delta)).map Prod.snd, t.beginsLine = false := by
    intro rest hrest
    rw [List.forall_mem_map] at hrest
    rw [List.forall_mem_map, List.forall_mem_map]
    exact hrest
  match l, h with
  | .blank _, h => exact h
  | .content none _ rest, h => exact ⟨h.1, h.2.1, hinside rest h.2.2⟩
  | .content (some _) _ rest, h =>
    exact ⟨h.1, h.2.1, h.2.2.1, h.2.2.2.1, h.2.2.2.2.1, hinside rest h.2.2.2.2.2⟩

/-- The blank line below a line comes first, and then the next line of the plan. -/
theorem Drawn.next_content {G Y : List (Line Entry)} (hY : Drawn Q Y)
    (hG : G.map shapeOf = if p.gap then [.blank (.whitespace, "\n")] else [])
    (hf : p.followed = opensContent Q) :
    (G ++ Y).head?.any Line.isContent = (!p.gap && p.followed) := by
  cases hgap : p.gap with
  | true =>
    rw [hgap] at hG
    obtain ⟨m, M, rfl, hm, -⟩ := List.map_eq_cons_iff.mp hG
    have hblank := isContent_shapeOf m
    rw [hm] at hblank
    change false = m.isContent at hblank
    simp [← hblank]
  | false =>
    rw [hgap] at hG
    rw [List.map_eq_nil_iff.mp hG, hf]
    cases hY with
    | nil => rfl
    | cons hq _ _ => simp [opensContent, ← hq.shape, isContent_shapeOf]

/-- What comes right below a line is a blank line or nothing, or it is content. -/
theorem Realized.blank_below_iff {ps : List LinePlan} {X Z : List (Line Entry)} {l : Line Entry}
    (h : Realized features ps c (X ++ l :: Z)) :
    (∀ e ∈ (flat Z).head?, e.2.isBlankLine = true) ↔ Z.head?.any Line.isContent = false := by
  cases Z with
  | nil => simp [flat]
  | cons m M =>
    have hat : Realized features ps c ((X ++ [l]) ++ m :: M) := by simpa using h
    rw [flat_cons, m.items_eq]
    simp [hat.isBlankLine_start]

/-- A blank line below a line is its gap, and the rows further down do not matter. -/
theorem Drawn.gapped {X Y : List (Line Entry)} {l : Line Entry} {e : Entry} (hX : Drawn P X)
    (hl : Realizes p l) (hY : Drawn Q Y) (hkind : e.2.kind = .whitespace)
    (htext : e.2.text = "\n") :
    Drawn (P ++ { p with gap := true } :: Q)
      (X ++ l :: ([.blank e] ++ Y.map (Line.map fun e => (e.1, e.2.shiftRow 1)))) := by
  refine hX.append (.cons ⟨hl.shape, hl.core, hl.start⟩ ?_ (hY.map (fun _ => rfl) fun _ => rfl))
  have hblank : shapeOf (.blank e) = .blank (e.2.kind, e.2.text) := rfl
  rw [List.map_cons, List.map_singleton, hl.shape, hblank, hkind, htext]
  rfl

/-- The lines after lines were kept apart. A blank line comes in exactly where the next line has
content and none was planned yet. -/
theorem Realized.separated {X G Y : List (Line Entry)} {l : Line Entry}
    (h : Realized features (P ++ p :: Q) c (X ++ l :: (G ++ Y))) (hX : Drawn P X)
    (hl : Realizes p l) (hshapes : (l :: G).map shapeOf = p.shapes) (hY : Drawn Q Y)
    (hf : p.followed = opensContent Q) {body : List Entry} {last : Entry}
    (hbody : l.items = body ++ [last]) {value : Option TokenId} {L : List Entry}
    (hsep : Separated (flat X ++ body) last.1 last.2 (flat (G ++ Y)) value L) :
    ∃ ls, L = flat ls ∧ (∀ x ∈ ls, x.Proper) ∧
      Drawn (P ++ { p with gap := p.gap || p.followed } :: Q) ls := by
  have hG := (List.cons.inj hshapes).2
  have hnext := hY.next_content hG hf
  cases hsep with
  | stays hblank =>
    refine ⟨X ++ l :: (G ++ Y), by simp [flat_append, hbody], h.proper, ?_⟩
    have hnone := h.blank_below_iff.mp hblank
    rw [hnext] at hnone
    have hgap : (p.gap || p.followed) = p.gap := by
      cases hg : p.gap <;> simp_all
    rw [hgap]
    exact h.drawn
  | inserted new next n rest hR hn _ =>
    have hcontent : (G ++ Y).head?.any Line.isContent = true := by
      rw [← Bool.not_eq_false]
      intro hnone
      have hblank := h.blank_below_iff.mpr hnone
      rw [hR] at hblank
      simp [hn] at hblank
    rw [hnext] at hcontent
    obtain ⟨hgap, hfollowed⟩ : p.gap = false ∧ p.followed = true := by simpa using hcontent
    rw [hgap] at hG
    obtain rfl := List.map_eq_nil_iff.mp hG
    have hls := h.proper
    rw [List.nil_append, List.forall_mem_append, List.forall_mem_cons] at hls
    refine ⟨X ++ l :: ([.blank (new, n.blankLineBefore)] ++
      Y.map (Line.map fun e => (e.1, e.2.shiftRow 1))), ?_, ?_, ?_⟩
    · have hitem : (Line.blank (new, n.blankLineBefore)).items = [(new, n.blankLineBefore)] := rfl
      simp [flat_append, flat_map, hbody, hitem, editAll]
    · rw [List.forall_mem_append, List.forall_mem_cons, List.forall_mem_append,
        List.forall_mem_singleton, List.forall_mem_map]
      exact ⟨hls.1, hls.2.1, ⟨rfl, rfl⟩, fun x hx => (hls.2.2 x hx).shiftRow 1⟩
    · have hboth : (p.gap || p.followed) = true := by rw [hfollowed, Bool.or_true]
      rw [hboth]
      exact hX.gapped (e := (new, n.blankLineBefore)) hl hY rfl rfl

theorem Realized.separate (h : Realized features (P ++ p :: Q) c ls)
    (hf : Followed (P ++ p :: Q)) {id : TokenId} (hid : id ∈ p.core)
    (hroom : c.slots.size < slotLimit) :
    ∃ d ls', (LineEdit.separate id).op.apply c = .ok d ∧ (d.render.length < signedLimit →
      Realized features (editPlan (P ++ p :: Q) (.separate id)) d ls') := by
  obtain ⟨X, l, G, Y, rfl, hX, hl, hshapes, hY⟩ := h.drawn.split
  obtain ⟨body, last, e, L, hbody, hlast, hok, hL, hsep⟩ :=
    h.withBlankLineAfter (hl.core ▸ hid) hroom
  have hwhole : flat (X ++ l :: (G ++ Y)) =
      (flat X ++ body) ++ (last.1, last.2) :: flat (G ++ Y) := by
    rw [flat_append, flat_cons, hbody]
    simp
  have hsteady := h.steady
  have hfresh : Fresh features L := by
    apply Changed.fresh _ h.steady.sound h.fresh
    rw [hwhole]
    exact .separated _ _ _ _ _ _ (Or.inl hlast) hsep
  have hsound : Sound L := by
    rw [hwhole] at hsteady
    exact hsep.keeps hsteady.sound hsteady.sized (Or.inl hlast)
  have hothers : ∀ q ∈ P ++ Q, q.edit (.separate id) = q := by
    intro q hq
    have hcore : id ∈ l.core.map Prod.fst := hl.core ▸ hid
    obtain ⟨x, hx, rfl⟩ := List.mem_map.mp hcore
    have hin : x.1 ∈ l.items.map Prod.fst := List.mem_map_of_mem (Line.mem_items_of_core hx)
    have hnot := (hX.apart hY h.steady.holds.distinct hin q hq).2
    simp [LinePlan.edit, hnot]
  have hedit : p.edit (.separate id) = { p with gap := p.gap || p.followed } := by
    simp [LinePlan.edit, hid]
  obtain ⟨ls', rfl, hproper, hdrawn⟩ := h.separated hX hl hshapes hY hf.next_content hbody hsep
  refine ⟨e.chain, ls', by simp [LineEdit.op, LayoutOp.apply, hok, Except.map], ?_⟩
  intro htext
  refine ⟨⟨hL, hsound, sized_of_textOf (hL.short_text htext)⟩, hfresh, hproper, ?_⟩
  rw [editPlan_local hothers, hedit]
  exact hdrawn

end Edit

/-! ## Runs of edits -/

namespace LineEdit

/-- The chain after all edits, made one after the other. -/
def run : List LineEdit → TokenChain → Except Fault TokenChain
  | [], c => .ok c
  | edit :: edits, c => do
    let next ← edit.op.apply c
    run edits next

/-- Every chain on the way has a short text, and room for the next edit. -/
def Within : List LineEdit → TokenChain → Prop
  | [], c => c.Fits 0
  | edit :: edits, c => c.Fits 1 ∧ ∀ next, edit.op.apply c = .ok next → Within edits next

/-- The edit is made for a line of this chain: the line is given by the token that begins it, or
by a visible token. -/
def Suits (c : TokenChain) : LineEdit → Prop
  | indent start level => start ∈ c.lineHeads ∧ level < signedLimit
  | separate id => ∃ t, c.get? id = some t ∧ t.isWhitespace = false

instance decidableSuits (c : TokenChain) : (edit : LineEdit) → Decidable (edit.Suits c)
  | indent start level => inferInstanceAs (Decidable (start ∈ c.lineHeads ∧ level < signedLimit))
  | separate id => decidable_of_iff ((c.get? id).any (fun t => !t.isWhitespace) = true) (by
      simp [Suits, Option.any_eq_true])

instance decidableWithin : (edits : List LineEdit) → (c : TokenChain) →
    Decidable (Within edits c)
  | [], c => inferInstanceAs (Decidable (c.Fits 0))
  | edit :: edits, c =>
    have := decidableWithin edits
    inferInstanceAs (Decidable (c.Fits 1 ∧ ∀ next, edit.op.apply c = .ok next →
      Within edits next))

theorem Within.fits {edits : List LineEdit} {c : TokenChain} (h : Within edits c) : c.Fits 0 := by
  cases edits with
  | nil => exact h
  | cons edit edits => exact ⟨h.1.text, Nat.le_trans (Nat.le_add_right _ _) h.1.room⟩

/-- The edit has its line in the plan. -/
def Planned (ps : List LinePlan) : LineEdit → Prop
  | indent start level => level < signedLimit ∧ ∃ p ∈ ps, p.start = some start
  | separate id => ∃ p ∈ ps, id ∈ p.core

theorem Planned.after {ps : List LinePlan} {edit other : LineEdit} (h : other.Planned ps)
    (hapart : ∀ start, other.start? = some start → edit.start? ≠ some start) :
    other.Planned (editPlan ps edit) := by
  cases other with
  | indent start level =>
    obtain ⟨hlevel, p, hp, hstart⟩ := h
    exact ⟨hlevel, p.edit edit, List.mem_map_of_mem hp, p.start_edit hstart (hapart start rfl)⟩
  | separate id =>
    obtain ⟨p, hp, hid⟩ := h
    exact ⟨p.edit edit, List.mem_map_of_mem hp, by simpa using hid⟩

end LineEdit

/-- One edit of a chain is the edit of its plan. -/
theorem Realized.edit {features : Features} {ps : List LinePlan} {c : TokenChain}
    {ls : List (Line Entry)} (h : Realized features ps c ls) (hf : Followed ps)
    {edit : LineEdit} (hp : edit.Planned ps) (hfits : c.Fits 1)
    (hnext : ∀ next, edit.op.apply c = .ok next → next.Fits 0) :
    ∃ d ls', edit.op.apply c = .ok d ∧ Realized features (editPlan ps edit) d ls' := by
  cases edit with
  | indent start level =>
    obtain ⟨hlevel, p, hin, hstart⟩ := hp
    obtain ⟨P, Q, rfl⟩ := List.append_of_mem hin
    exact h.indent hstart hlevel hfits.room
  | separate id =>
    obtain ⟨p, hin, hid⟩ := hp
    obtain ⟨P, Q, rfl⟩ := List.append_of_mem hin
    obtain ⟨d, ls', hok, hreal⟩ := h.separate hf hid hfits.room
    exact ⟨d, ls', hok, hreal (hnext d hok).text⟩

theorem Realized.run {features : Features} {edits : List LineEdit} {ps : List LinePlan}
    {c : TokenChain} {ls : List (Line Entry)} (h : Realized features ps c ls) (hf : Followed ps)
    (hp : ∀ edit ∈ edits, edit.Planned ps) (honce : LineEdit.Once edits)
    (hw : LineEdit.Within edits c) :
    ∃ d ls', LineEdit.run edits c = .ok d ∧ Realized features (edits.foldl editPlan ps) d ls' := by
  induction edits generalizing ps c ls with
  | nil => exact ⟨c, ls, rfl, h⟩
  | cons edit edits ih =>
    rw [List.forall_mem_cons] at hp
    obtain ⟨next, ls', hok, hreal⟩ := h.edit hf hp.1 hw.1 fun d hd => (hw.2 d hd).fits
    have hlater : ∀ other ∈ edits, other.Planned (editPlan ps edit) :=
      fun other ho => (hp.2 other ho).after (honce.apart other ho)
    obtain ⟨d, ls'', hrun, hd⟩ := ih hreal (hf.edit edit) hlater honce.tail (hw.2 next hok)
    refine ⟨d, ls'', ?_, hd⟩
    rw [LineEdit.run, hok]
    exact hrun

theorem mem_planOf {ls : List (Line Entry)} {l : Line Entry} (hl : l ∈ ls) :
    ∃ p ∈ planOf ls, p.start = some l.start.1 ∧ p.core = l.core.map Prod.fst := by
  induction ls with
  | nil => cases hl
  | cons m ls ih =>
    rcases List.mem_cons.mp hl with rfl | hl
    · exact ⟨_, List.mem_cons_self, rfl, rfl⟩
    · obtain ⟨p, hp, hrest⟩ := ih hl
      exact ⟨p, List.mem_cons_of_mem _ hp, hrest⟩

theorem LineEdit.Suits.planned {c : TokenChain} {ls : List (Line Entry)} {edit : LineEdit}
    (h : edit.Suits c) (hc : c.Holds (flat ls)) (hls : ∀ l ∈ ls, l.Proper) :
    edit.Planned (planOf ls) := by
  cases edit with
  | indent start level =>
    obtain ⟨hstart, hlevel⟩ := h
    rw [hc.lineHeads_eq hls] at hstart
    obtain ⟨l, hl, rfl⟩ := List.mem_map.mp hstart
    obtain ⟨p, hp, hps, -⟩ := mem_planOf hl
    exact ⟨hlevel, p, hp, hps⟩
  | separate id =>
    obtain ⟨t, hget, hw⟩ := h
    obtain ⟨A, B, hflat⟩ := hc.split_get? hget
    have he : (id, t) ∈ flat ls := by simp [hflat]
    obtain ⟨l, hl, hin⟩ := List.mem_flatMap.mp he
    have hcore := (hls l hl).mem_core hin hw
    obtain ⟨p, hp, -, hpc⟩ := mem_planOf hl
    refine ⟨p, hp, ?_⟩
    rw [hpc]
    exact List.mem_map_of_mem hcore

/-- Edits of the lines of a program text can be made in any order: no order faults, and all
orders give the same tokens. -/
theorem line_edits_are_order_independent (source : String) (features : Features)
    (first second : List LineEdit) (hperm : first.Perm second) (honce : LineEdit.Once first)
    (hsuits : ∀ edit ∈ first, edit.Suits (TokenChain.ofSource source features))
    (hfirst : LineEdit.Within first (TokenChain.ofSource source features))
    (hsecond : LineEdit.Within second (TokenChain.ofSource source features)) :
    ∃ c d, LineEdit.run first (TokenChain.ofSource source features) = .ok c ∧
      LineEdit.run second (TokenChain.ofSource source features) = .ok d ∧
      c.toList = d.toList := by
  obtain ⟨L, hsteady, hfresh⟩ := exists_steady_ofSource hfirst.fits
  obtain ⟨ls, rfl, hls⟩ := hsteady.sound.exists_lines
  have hstart : Realized features (planOf ls) (TokenChain.ofSource source features) ls :=
    ⟨hsteady, hfresh, hls, drawn_planOf ls⟩
  have hplanned : ∀ edit ∈ first, edit.Planned (planOf ls) :=
    fun edit hin => (hsuits edit hin).planned hsteady.holds hls
  have hplanned' : ∀ edit ∈ second, edit.Planned (planOf ls) :=
    fun edit hin => hplanned edit (hperm.mem_iff.mpr hin)
  have honce' : LineEdit.Once second := (hperm.filterMap LineEdit.start?).nodup_iff.mp honce
  obtain ⟨c, ms, hc, hcs⟩ := hstart.run (followed_planOf ls) hplanned honce hfirst
  obtain ⟨d, ns, hd, hds⟩ := hstart.run (followed_planOf ls) hplanned' honce' hsecond
  rw [← foldl_editPlan_perm hperm honce] at hds
  refine ⟨c, d, hc, hd, ?_⟩
  unfold TokenChain.toList
  rw [hcs.steady.holds.entries_eq, hds.steady.holds.entries_eq]
  exact hcs.drawn.tokens_eq hds.drawn hcs.steady.sound hds.steady.sound hcs.fresh hds.fresh

/-- Two lines in a row, a blank line, a tab, and blanks at the end of the last line. -/
def linedSource : String := "a\n  b x\n\n\tc\nd  "

/-- Every line is indented, the second one to the front and the blank one in vain, and a blank line
is asked for below every line with a visible token, twice below the second. -/
def linedEdits : List LineEdit :=
  [.indent ⟨2, 0⟩ 0, .separate ⟨0, 0⟩, .indent ⟨0, 0⟩ 3, .separate ⟨5, 0⟩, .indent ⟨7, 0⟩ 2,
    .separate ⟨9, 0⟩, .indent ⟨8, 0⟩ 4, .separate ⟨3, 0⟩, .separate ⟨11, 0⟩, .indent ⟨11, 0⟩ 1]

theorem lined_source_is_edited_in_either_order :
    linedEdits.Perm linedEdits.reverse ∧ LineEdit.Once linedEdits ∧
    (∀ edit ∈ linedEdits, edit.Suits (TokenChain.ofSource linedSource Features.none)) ∧
    LineEdit.Within linedEdits (TokenChain.ofSource linedSource Features.none) ∧
    LineEdit.Within linedEdits.reverse (TokenChain.ofSource linedSource Features.none) ∧
    ∃ c d, LineEdit.run linedEdits (TokenChain.ofSource linedSource Features.none) = .ok c ∧
      LineEdit.run linedEdits.reverse (TokenChain.ofSource linedSource Features.none) = .ok d ∧
      c.toList = d.toList := by
  have hperm : linedEdits.Perm linedEdits.reverse := (List.reverse_perm linedEdits).symm
  have honce : LineEdit.Once linedEdits := by unfold LineEdit.Once; decide
  have hsuits : ∀ edit ∈ linedEdits,
      edit.Suits (TokenChain.ofSource linedSource Features.none) := by decide +kernel
  have hfirst : LineEdit.Within linedEdits (TokenChain.ofSource linedSource Features.none) := by
    decide +kernel
  have hsecond :
      LineEdit.Within linedEdits.reverse (TokenChain.ofSource linedSource Features.none) := by
    decide +kernel
  exact ⟨hperm, honce, hsuits, hfirst, hsecond,
    line_edits_are_order_independent _ _ _ _ hperm honce hsuits hfirst hsecond⟩

end LineLayout
