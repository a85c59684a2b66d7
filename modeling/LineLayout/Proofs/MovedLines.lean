-- What moves when a line gets another indentation. The tokens on the row where the line starts move
-- by the change of the width in front of them. A text with a line break stops at a column of its
-- own, so the tokens behind the first break stay, on this line and on all lines below.
import LineLayout.Proofs.Shapes

namespace LineLayout

/-! ## Places along a row -/

/-- A place before and after a move: on the row it moves by the distance, elsewhere it stays. -/
structure Shifted (row : Nat) (delta : Int) (p q : Position) : Prop where
  sameRow : q.row = p.row
  on : p.row = row → (q.col : Int) = p.col + delta
  off : p.row ≠ row → q.col = p.col

/-- A text that stands further along stops further along, or behind its break as before. -/
theorem Shifted.after {row : Nat} {delta : Int} {p q : Position} (h : Shifted row delta p q)
    (hle : row ≤ p.row) (text : List Char) :
    Shifted row delta (p.after text) (q.after text) ∧ row ≤ (p.after text).row := by
  have hrow := h.sameRow
  by_cases hb : '\n' ∈ text
  · have hpos : 0 < text.count '\n' := List.count_pos_iff.mpr hb
    rw [Position.after_of_break p hb, Position.after_of_break q hb, hrow]
    refine ⟨⟨rfl, ?_, fun _ => rfl⟩, ?_⟩
    · simp only
      omega
    · simp only
      omega
  · rw [Position.after_of_plain p hb, Position.after_of_plain q hb]
    refine ⟨⟨hrow, ?_, ?_⟩, hle⟩
    · intro hon
      have hcol := h.on hon
      simp only
      omega
    · intro hoff
      have hcol := h.off hoff
      simp only
      omega

theorem Shifted.eq_of_row_ne {row : Nat} {delta : Int} {p q : Position} (h : Shifted row delta p q)
    (hne : p.row ≠ row) : q = p := by
  obtain ⟨r, k⟩ := q
  have hrow := h.sameRow
  have hcol := h.off hne
  simp only at hrow hcol
  rw [hrow, hcol]

theorem PlacedAfter.row_le {before : Option Token} {L : List Entry} (h : PlacedAfter before L) :
    ∀ e ∈ L, (stopOf before).row ≤ e.2.row := by
  induction L generalizing before with
  | nil =>
    intro e he
    cases he
  | cons e rest ih =>
    have hrow : e.2.row = (stopOf before).row := congrArg Position.row h.1.place
    have hstop : (stopOf (some e.2)).row = e.2.row + e.2.lineBreaks := e.2.following_row
    intro x hx
    rcases List.mem_cons.mp hx with rfl | hx
    · omega
    · have hrest := ih h.2 x hx
      omega

/-- A token before and after a move along its row. -/
structure Moved (row : Nat) (delta : Int) (e e' : Entry) : Prop where
  face : face e' = face e
  place : Shifted row delta e.2.position e'.2.position

theorem Moved.id_eq {row : Nat} {delta : Int} {e e' : Entry} (h : Moved row delta e e') :
    e'.1 = e.1 := by
  have hid := congrArg Prod.fst h.face
  exact hid

theorem exists_right_of_mem {α β : Type} {P : α → β → Prop} {as : List α} {bs : List β}
    (h : List.Forall₂ P as bs) {a : α} (ha : a ∈ as) : ∃ b ∈ bs, P a b := by
  induction h with
  | nil => cases ha
  | cons hab _ ih =>
    rcases List.mem_cons.mp ha with rfl | ha
    · exact ⟨_, List.mem_cons_self, hab⟩
    · obtain ⟨b, hb, hP⟩ := ih ha
      exact ⟨b, List.mem_cons_of_mem _ hb, hP⟩

theorem token_of_face {e e' : Entry} (h : face e' = face e) :
    e'.2 = { e.2 with
      beginsLine := e'.2.beginsLine, row := e'.2.row, col := e'.2.col } := by
  obtain ⟨id, t⟩ := e
  obtain ⟨id', t'⟩ := e'
  cases t
  cases t'
  simp_all [face]

/-- The same tokens from another place of the row on. -/
theorem PlacedAfter.moved {row : Nat} {delta : Int} {before before' : Option Token}
    {L L' : List Entry} (h : PlacedAfter before L) (h' : PlacedAfter before' L')
    (hface : L'.map face = L.map face)
    (hstop : Shifted row delta (stopOf before) (stopOf before'))
    (hle : row ≤ (stopOf before).row) :
    List.Forall₂ (Moved row delta) L L' ∧
      Shifted row delta (stopOf (lastToken before L)) (stopOf (lastToken before' L')) := by
  induction L generalizing before before' L' with
  | nil =>
    rw [List.map_eq_nil_iff.mp hface]
    exact ⟨.nil, hstop⟩
  | cons e rest ih =>
    obtain ⟨e', rest', rfl, he, hrest⟩ := List.map_eq_cons_iff.mp hface
    have hplace : Shifted row delta e.2.position e'.2.position := by
      rw [h.1.place, h'.1.place]
      exact hstop
    have htext : e'.2.text = e.2.text := congrArg (fun x => x.2.2.1) he
    have hrow : row ≤ e.2.position.row := by
      rw [h.1.place]
      exact hle
    obtain ⟨hnext, hle'⟩ := hplace.after hrow e.2.text.toList
    have hstop' : Shifted row delta (stopOf (some e.2)) (stopOf (some e'.2)) := by
      simp only [stopOf, Token.following, htext]
      exact hnext
    obtain ⟨hmoved, hlast⟩ := ih h.2 h'.2 hrest hstop' hle'
    rw [lastToken_cons, lastToken_cons]
    exact ⟨.cons ⟨he, hplace⟩ hmoved, hlast⟩

/-! ## A line with another indentation -/

theorem margin_content (lead : Option Entry) (first : Entry) (rest : List Entry) :
    (shapeOf (.content lead first rest)).margin = leadWidth (lead.map fun e => e.2.text) := by
  simp [shapeOf, Line.map, Shape.margin, Function.comp_def]

theorem Refit.margin {level : Nat} {lead : Option Entry} {first : Entry} {rest : List Entry}
    {l' : Line Entry} (h : Refit level (.content lead first rest) l') :
    (shapeOf l').margin = level := by
  cases h with
  | content _ _ _ lead' first' rest' hlead _ _ _ => rw [margin_content, hlead, leadWidth_fit]

/-- A line with content, from the same place on: its content starts at the new level, and its row
moves by the change of the width in front. -/
theorem Refit.moved {level : Nat} {lead : Option Entry} {first : Entry} {rest : List Entry}
    {l' : Line Entry} (h : Refit level (.content lead first rest) l')
    {before before' : Option Token}
    (hp : PlacedAfter before (Line.content lead first rest).items)
    (hp' : PlacedAfter before' l'.items) (hstop : stopOf before' = stopOf before)
    (hl : (Line.content lead first rest).Proper) (hl' : l'.Proper)
    (hplain : ∀ e ∈ (Line.content lead first rest).items, e.2.unbroken)
    (hplain' : ∀ e ∈ l'.items, e.2.unbroken) :
    List.Forall₂
        (Moved (stopOf before).row ((level : Int) - leadWidth (lead.map fun e => e.2.text)))
        (first :: rest) l'.core ∧
      (∀ e ∈ l'.core.head?, e.2.position = ⟨(stopOf before).row, (stopOf before).col + level⟩) ∧
      Shifted (stopOf before).row ((level : Int) - leadWidth (lead.map fun e => e.2.text))
        (stopOf (lastToken before (Line.content lead first rest).items))
        (stopOf (lastToken before' l'.items)) := by
  obtain ⟨mid, hmid, hlast, hmidstop⟩ := hp.core hl hplain
  obtain ⟨mid', hmid', hlast', hmidstop'⟩ := hp'.core hl' hplain'
  rw [hstop] at hmidstop'
  rw [margin_content] at hmidstop
  rw [h.margin] at hmidstop'
  rw [hlast, hlast']
  cases h with
  | content _ _ _ lead' first' rest' _ _ hfirst hrest =>
    have hshift : Shifted (stopOf before).row
        ((level : Int) - leadWidth (lead.map fun e => e.2.text)) (stopOf mid) (stopOf mid') := by
      rw [hmidstop, hmidstop']
      refine ⟨rfl, ?_, fun hne => absurd rfl hne⟩
      intro _
      simp only
      omega
    have hle : (stopOf before).row ≤ (stopOf mid).row := by simp [hmidstop]
    have hface : (first' :: rest').map face = (first :: rest).map face := by
      rw [List.map_cons, List.map_cons, hfirst, hrest]
    obtain ⟨hmoved, hend⟩ := hmid.moved hmid' hface hshift hle
    refine ⟨hmoved, ?_, hend⟩
    intro e he
    cases he
    rw [← hmidstop']
    exact hmid'.1.place

theorem Settled.stops {column : Option Nat} {l l' : Line Entry} (h : Settled column l l')
    {before before' : Option Token} {r : Entry} {R : List Entry}
    (hp : PlacedAfter before (l.items ++ r :: R)) (hr : r.2.beginsLine = true)
    (hp' : PlacedAfter before' l'.items) (hstop : stopOf before' = stopOf before) (hl : l.Proper)
    (hl' : l'.Proper) (hplain : ∀ e ∈ l.items, e.2.unbroken)
    (hplain' : ∀ e ∈ l'.items, e.2.unbroken) :
    stopOf (lastToken before' l'.items) = stopOf (lastToken before l.items) := by
  have hline := (placed_append.mp hp).1
  have hsame : l' = l →
      stopOf (lastToken before' l'.items) = stopOf (lastToken before l.items) := by
    rintro rfl
    exact (hp'.spots hline hstop rfl).2
  cases column with
  | none => exact hsame h
  | some level =>
    match l, h with
    | .blank e, h =>
      cases h
      exact hsame rfl
    | .content lead first rest, h =>
      obtain ⟨-, -, hshift⟩ := Refit.moved h hline hp' hstop hl hl' hplain hplain'
      apply hshift.eq_of_row_ne
      have hnext : r.2.position =
          stopOf (lastToken before (Line.content lead first rest).items) :=
        (placed_append.mp hp).2.1.place
      rw [Line.items_eq] at hp
      have hlt := hp.row_lt hr
      have hstart : (Line.content lead first rest).start.2.position = stopOf before := hp.1.place
      have hrow := congrArg Position.row hnext
      have hrow' := congrArg Position.row hstart
      simp only [Token.position] at hrow hrow'
      omega

theorem exists_line_head {ls : List (Line Entry)} (hne : ls ≠ []) (hls : ∀ l ∈ ls, l.Proper) :
    ∃ r R, flat ls = r :: R ∧ r.2.beginsLine = true := by
  obtain ⟨l, rest, rfl⟩ := List.exists_cons_of_ne_nil hne
  refine ⟨l.start, l.behind ++ flat rest, ?_, (hls l (by simp)).begins⟩
  rw [flat_cons, l.items_eq, List.cons_append]

/-- A line starts where it started, whatever indentations the lines above got. -/
theorem Refitted.stops {P P' Q : List (Line Entry)} (h : Refitted P P')
    {before before' : Option Token} (hp : PlacedAfter before (flat (P ++ Q)))
    (hp' : PlacedAfter before' (flat P')) (hstop : stopOf before' = stopOf before) (hQ : Q ≠ [])
    (hls : ∀ l ∈ P ++ Q, l.Proper) (hls' : ∀ l ∈ P', l.Proper)
    (hplain : ∀ e ∈ flat P, e.2.unbroken)
    (hplain' : ∀ e ∈ flat P', e.2.unbroken) :
    stopOf (lastToken before' (flat P')) = stopOf (lastToken before (flat P)) := by
  induction h generalizing before before' with
  | nil => exact hstop
  | @cons l l' P P' hsettled _ ih =>
    obtain ⟨column, hsettled⟩ := hsettled
    rw [List.cons_append, List.forall_mem_cons] at hls
    rw [List.forall_mem_cons] at hls'
    rw [flat_cons, List.forall_mem_append] at hplain hplain'
    rw [List.cons_append, flat_cons] at hp
    rw [flat_cons, placed_append] at hp'
    obtain ⟨r, R, hR, hr⟩ := exists_line_head (List.append_ne_nil_of_right_ne_nil P hQ) hls.2
    have hline := hp
    rw [hR] at hline
    have hnext := hsettled.stops hline hr hp'.1 hstop hls.1 hls'.1 hplain.1 hplain'.1
    have hrest := ih (placed_append.mp hp).2 hp'.2 hnext hls.2 hls'.2 hplain.2 hplain'.2
    rw [flat_cons, flat_cons, lastToken_append, lastToken_append]
    exact hrest

end LineLayout
