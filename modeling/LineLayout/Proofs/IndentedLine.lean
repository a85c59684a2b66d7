-- Setting the indentation of a line does one thing. The line begins with whitespace of the new
-- width, or with its content. The tokens on the row where the line starts move by the change of the
-- width, and every other token stays as it was.
import LineLayout.Proofs.MovedLines

namespace LineLayout

namespace TokenChain

/-- The tokens of a line from `start` on, up to the first one that ends it. -/
def lineFrom (c : TokenChain) (start : TokenId) : List Entry :=
  (c.entriesFrom start).take ((c.entriesFrom start).findIdx (fun e => e.2.endsLine) + 1)

/-- The first token of a line that is not whitespace. -/
def firstContent? (c : TokenChain) (start : TokenId) : Option TokenId :=
  ((c.lineFrom start).find? fun e => !e.2.isWhitespace).map Prod.fst

/-- The line that starts at `start` with the token `t` begins with `level` columns of whitespace
now, and nothing else is different. The answer begins the line, in the place of `start`. It is
whitespace of this width, or the content when the width is to be zero, unless the whitespace in
front is empty already. Behind the whitespace in front, the row moves as one. -/
structure Indented (c : TokenChain) (start : TokenId) (t : Token) (level : Nat) (value : TokenId)
    (d : TokenChain) : Prop where
  begins : ∃ u, d.get? value = some u ∧ u.beginsLine = true ∧ u.position = t.position ∧
    d.prev? value = c.prev? start
  led : 0 < level → ∃ u, d.get? value = some u ∧ u.isWhitespace = true ∧ u.width = level
  bare : level = 0 → ¬ (t.isWhitespace = true ∧ t.text = "") → c.firstContent? start = some value
  empty : level = 0 → t.isWhitespace = true → t.text = "" → value = start
  content : ∃ first u, c.firstContent? start = some first ∧ d.get? first = some u ∧
    u.row = t.row ∧ u.col = level
  moved : ∀ id u, c.get? id = some u → u.row = t.row → (id = start → t.isWhitespace = false) →
    ∃ col, d.get? id = some { u with col, beginsLine := decide (id = value) } ∧
      (col : Int) = u.col + ((level : Int) - (if t.isWhitespace then t.width else 0 : Nat))
  kept : ∀ id u, c.get? id = some u → u.row ≠ t.row → d.get? id = some u
  gone : ∀ id, c.contains id = true → d.contains id = false → id = start
  added : ∀ id, d.contains id = true → c.contains id = false → id = value
  order : c.ids.filter d.contains = d.ids.filter c.contains

end TokenChain

/-! ## One line of a chain -/

/-- The first token of a line that is not whitespace. -/
def Line.first? {α : Type} : Line α → Option α
  | blank _ => none
  | content _ first _ => some first

theorem PlacedAfter.blank_ends {before : Option Token} {e : Entry} {R : List Entry}
    (h : PlacedAfter before (e :: R)) (hR : ∀ r ∈ R.head?, r.2.beginsLine = true) :
    e.2.endsLine = true ∨ R = [] := by
  cases R with
  | nil => exact Or.inr rfl
  | cons r R =>
    have hf : Follows e.2 r.2 := h.2.1
    left
    rw [← hf.marks]
    exact hR r rfl

theorem TokenChain.Holds.firstContent?_line {c : TokenChain} {A R : List Entry} {l : Line Entry}
    (h : c.Holds (A ++ (l.items ++ R))) (hp : PlacedAfter none (A ++ (l.items ++ R)))
    (hl : l.Proper) (hR : ∀ r ∈ R.head?, r.2.beginsLine = true) :
    c.firstContent? l.start.1 = l.first?.map Prod.fst := by
  have hat := h
  rw [l.items_eq, List.cons_append] at hat
  have hfrom : c.entriesFrom l.start.1 = l.start :: (l.behind ++ R) := hat.entriesFrom_at
  unfold TokenChain.firstContent? TokenChain.lineFrom
  rw [hfrom]
  match l with
  | .blank e =>
    have hw : e.2.isWhitespace = true := hl.1
    rcases (placed_append.mp hp).2.blank_ends hR with hend | rfl
    · simp [Line.start, Line.first?, List.findIdx_cons, hend, hw]
    · simp [Line.start, Line.first?, Line.behind, hw]
  | .content none first rest =>
    have hw : first.2.isWhitespace = false := hl.1
    simp [Line.start, Line.first?, hw]
  | .content (some lead) first rest =>
    obtain ⟨hw, -, hend, hfw, -⟩ := hl
    have hw : lead.2.isWhitespace = true := hw
    have hend : lead.2.endsLine = false := hend
    have hfw : first.2.isWhitespace = false := hfw
    simp [Line.start, Line.first?, Line.behind, List.findIdx_cons, hw, hend, hfw]

/-- A chain before and after one of its lines got another indentation. -/
structure LineReset (c d : TokenChain) (level : Nat) (A : List Entry) (l l' : Line Entry)
    (R : List Entry) : Prop where
  holds : c.Holds (A ++ (l.items ++ R))
  holds' : d.Holds (A ++ (l'.items ++ R))
  sound : Sound (A ++ (l.items ++ R))
  sound' : Sound (A ++ (l'.items ++ R))
  proper : l.Proper
  proper' : l'.Proper
  below : ∀ r ∈ R.head?, r.2.beginsLine = true
  refit : Refit level l l'

theorem Line.start_mem_items {α : Type} (l : Line α) : l.start ∈ l.items := by
  rw [l.items_eq]
  exact List.mem_cons_self

/-- Two lists with the same elements around one that may differ, each filtered by the other. -/
theorem filter_exchange {α : Type} {A K : List α} {x y : Option α} {p q : α → Bool}
    (hp : ∀ a, p a = true ↔ a ∈ A ++ (x.toList ++ K))
    (hq : ∀ a, q a = true ↔ a ∈ A ++ (y.toList ++ K)) (hx : (A ++ (x.toList ++ K)).Nodup)
    (hy : (A ++ (y.toList ++ K)).Nodup) (hsame : ∀ a ∈ x, ∀ b ∈ y, b = a) :
    (A ++ (x.toList ++ K)).filter q = (A ++ (y.toList ++ K)).filter p := by
  have hfilter : ∀ r : α → Bool, (∀ a ∈ A, r a = true) → (∀ a ∈ K, r a = true) →
      ∀ z : Option α, (A ++ (z.toList ++ K)).filter r = A ++ (z.toList.filter r ++ K) := by
    intro r hA hK z
    rw [List.filter_append, List.filter_append, List.filter_eq_self.mpr hA,
      List.filter_eq_self.mpr hK]
  rw [hfilter q (fun a ha => (hq a).mpr (by simp [ha])) (fun a ha => (hq a).mpr (by simp [ha])),
    hfilter p (fun a ha => (hp a).mpr (by simp [ha])) (fun a ha => (hp a).mpr (by simp [ha]))]
  have hapart : ∀ {b : α}, (A ++ ([b] ++ K)).Nodup → b ∉ A ++ K := by
    intro b hnd
    simp only [List.singleton_append, List.nodup_middle, List.nodup_cons] at hnd
    exact hnd.1
  congr 2
  match x, y with
  | none, none => rfl
  | none, some b =>
    have hpb : ¬ p b = true := fun hb => hapart hy (by simpa using (hp b).mp hb)
    simp [hpb]
  | some a, none =>
    have hqa : ¬ q a = true := fun ha => hapart hx (by simpa using (hq a).mp ha)
    simp [hqa]
  | some a, some b =>
    have hba := hsame a rfl b rfl
    subst hba
    have hpb : p b = true := (hp b).mpr (by simp)
    have hqb : q b = true := (hq b).mpr (by simp)
    simp [hpb, hqb]

namespace LineReset

variable {c d : TokenChain} {level : Nat} {A R : List Entry} {l l' : Line Entry}

/-- Where the text above the line stops, the line starts. -/
theorem place (h : LineReset c d level A l l' R) :
    l.start.2.position = stopOf (lastToken none A) ∧
      l'.start.2.position = stopOf (lastToken none A) := by
  have hp := (placed_append.mp h.sound.placed).2
  have hp' := (placed_append.mp h.sound'.placed).2
  rw [l.items_eq] at hp
  rw [l'.items_eq] at hp'
  exact ⟨hp.1.place, hp'.1.place⟩

theorem col_zero (h : LineReset c d level A l l' R) : (stopOf (lastToken none A)).col = 0 := by
  have hp := (placed_append.mp h.sound.placed).2
  rw [l.items_eq] at hp
  rw [← h.place.1]
  exact hp.1.col_of_beginsLine h.proper.begins

theorem above_row (h : LineReset c d level A l l' R) : ∀ e ∈ A, e.2.row < l.start.2.row := by
  intro e he
  obtain ⟨X, body, rfl⟩ := List.append_of_mem he
  have hp := h.sound.placed
  rw [l.items_eq, List.append_assoc] at hp
  exact (placed_append.mp hp).2.row_lt h.proper.begins

theorem below_row (h : LineReset c d level A l l' R) : ∀ e ∈ R, l.start.2.row < e.2.row := by
  intro e he
  obtain ⟨r, S, rfl⟩ := List.exists_cons_of_ne_nil (List.ne_nil_of_mem he)
  have hp := (placed_append.mp h.sound.placed).2
  have hrest := (placed_append.mp hp).2.row_le e he
  have hr : r.2.row = (stopOf (lastToken (lastToken none A) l.items)).row :=
    congrArg Position.row (placed_append.mp hp).2.1.place
  rw [l.items_eq] at hp
  have hlt := hp.row_lt (h.below r rfl)
  omega

theorem begins_iff (h : LineReset c d level A l l' R) {e : Entry} (he : e ∈ l'.items) :
    e.2.beginsLine = decide (e.1 = l'.start.1) := by
  have hnd := h.holds'.distinct
  rw [l'.items_eq, List.cons_append] at hnd
  rw [l'.items_eq] at he
  rcases List.mem_cons.mp he with rfl | hbehind
  · simp [h.proper'.begins]
  · have hne : e.1 ≠ l'.start.1 :=
      TokenChain.ids_ne_of_distinct hnd (Or.inr (by
        rw [List.map_append]
        exact List.mem_append_left _ (List.mem_map_of_mem hbehind)))
    rw [h.proper'.behind e hbehind]
    simp [hne]

theorem get?_start (h : LineReset c d level A l l' R) : d.get? l'.start.1 = some l'.start.2 := by
  apply h.holds'.get?_of_mem
  simp [l'.start_mem_items]

/-- The line still begins where it began, behind the same token. -/
theorem begins (h : LineReset c d level A l l' R) :
    ∃ u, d.get? l'.start.1 = some u ∧ u.beginsLine = true ∧
      u.position = l.start.2.position ∧ d.prev? l'.start.1 = c.prev? l.start.1 := by
  have hat := h.holds
  have hat' := h.holds'
  rw [Line.items_eq, List.cons_append] at hat hat'
  exact ⟨_, h.get?_start, h.proper'.begins, h.place.2.trans h.place.1.symm,
    hat'.prev?_at.trans hat.prev?_at.symm⟩

section Content

variable {lead : Option Entry} {first : Entry} {rest : List Entry}

theorem moved (h : LineReset c d level A (.content lead first rest) l' R) :
    List.Forall₂ (Moved (Line.content lead first rest).start.2.row
        ((level : Int) - leadWidth (lead.map fun e => e.2.text))) (first :: rest) l'.core ∧
      ∀ e ∈ l'.core.head?,
        e.2.row = (Line.content lead first rest).start.2.row ∧ e.2.col = level := by
  have hp := (placed_append.mp h.sound.placed).2
  have hp' := (placed_append.mp h.sound'.placed).2
  have hplain := h.sound.plain
  have hplain' := h.sound'.plain
  simp only [List.forall_mem_append] at hplain hplain'
  obtain ⟨hmoved, hhead, -⟩ := h.refit.moved (placed_append.mp hp).1 (placed_append.mp hp').1 rfl
    h.proper h.proper' hplain.2.1 hplain'.2.1
  have hrow : (Line.content lead first rest).start.2.row = (stopOf (lastToken none A)).row :=
    congrArg Position.row h.place.1
  rw [hrow]
  refine ⟨hmoved, ?_⟩
  intro e he
  have hplace := hhead e he
  rw [h.col_zero, Nat.zero_add] at hplace
  exact ⟨congrArg Position.row hplace, congrArg Position.col hplace⟩

theorem content_token (h : LineReset c d level A (.content lead first rest) l' R) {e : Entry}
    (he : e ∈ first :: rest) :
    ∃ e' ∈ l'.items, d.get? e.1 = some e'.2 ∧ Moved (Line.content lead first rest).start.2.row
      ((level : Int) - leadWidth (lead.map fun e => e.2.text)) e e' := by
  obtain ⟨e', he', hmoved⟩ := exists_right_of_mem h.moved.1 he
  have hmem : e' ∈ l'.items := Line.mem_items_of_core he'
  refine ⟨e', hmem, ?_, hmoved⟩
  rw [← hmoved.id_eq]
  apply h.holds'.get?_of_mem
  simp [hmem]

/-- On the row of the start the content moves as one. -/
theorem content_moved (h : LineReset c d level A (.content lead first rest) l' R) {e : Entry}
    (he : e ∈ first :: rest) (hrow : e.2.row = (Line.content lead first rest).start.2.row) :
    ∃ col, d.get? e.1 = some { e.2 with col, beginsLine := decide (e.1 = l'.start.1) } ∧
      (col : Int) = e.2.col + ((level : Int) - leadWidth (lead.map fun e => e.2.text)) := by
  obtain ⟨e', hmem, hget, hmoved⟩ := h.content_token he
  refine ⟨e'.2.col, ?_, hmoved.place.on hrow⟩
  have hsame : e'.2.row = e.2.row := hmoved.place.sameRow
  rw [hget, token_of_face hmoved.face, h.begins_iff hmem, hmoved.id_eq, hsame]

theorem content_kept (h : LineReset c d level A (.content lead first rest) l' R) {e : Entry}
    (he : e ∈ first :: rest) (hrow : e.2.row ≠ (Line.content lead first rest).start.2.row) :
    d.get? e.1 = some e.2 := by
  obtain ⟨e', hmem, hget, hmoved⟩ := h.content_token he
  have hplace := hmoved.place.eq_of_row_ne hrow
  have hsame : e'.2.row = e.2.row := congrArg Position.row hplace
  have hcol : e'.2.col = e.2.col := congrArg Position.col hplace
  have hbehind : e ∈ (Line.content lead first rest).behind := by
    have hitems : e ∈ (Line.content lead first rest).items := Line.mem_items_of_core he
    rw [Line.items_eq] at hitems
    exact (List.mem_cons.mp hitems).resolve_left fun hs => hrow (by rw [hs])
  have hbehind' : e' ∈ l'.behind := by
    rw [l'.items_eq] at hmem
    refine (List.mem_cons.mp hmem).resolve_left fun hs => hrow ?_
    have hstart : l'.start.2.row = (Line.content lead first rest).start.2.row :=
      congrArg Position.row (h.place.2.trans h.place.1.symm)
    rw [← hsame, hs, hstart]
  have hmark := h.proper.behind e hbehind
  have hmark' := h.proper'.behind e' hbehind'
  rw [hget, token_of_face hmoved.face, hsame, hcol, hmark', ← hmark]

theorem content_place (h : LineReset c d level A (.content lead first rest) l' R) :
    ∃ u, d.get? first.1 = some u ∧ u.row = (Line.content lead first rest).start.2.row ∧
      u.col = level := by
  obtain ⟨hmoved, hhead⟩ := h.moved
  obtain ⟨e', rest', hfirst, -, hcore⟩ := List.forall₂_cons_left_iff.mp hmoved
  refine ⟨e'.2, ?_, hhead e' (by rw [hcore]; rfl)⟩
  have hmem : e' ∈ l'.items := Line.mem_items_of_core (by rw [hcore]; exact List.mem_cons_self)
  rw [← hfirst.id_eq]
  apply h.holds'.get?_of_mem
  simp [hmem]

/-- The width in front, as the token that begins the line has it. -/
theorem lead_width (h : LineReset c d level A (.content lead first rest) l' R) :
    leadWidth (lead.map fun e => e.2.text) =
      if (Line.content lead first rest).start.2.isWhitespace then
        (Line.content lead first rest).start.2.width else 0 := by
  cases lead with
  | none =>
    have hw : first.2.isWhitespace = false := h.proper.1
    simp [leadWidth, Line.start, hw]
  | some lead =>
    have hw : lead.2.isWhitespace = true := h.proper.1
    simp [leadWidth, Line.start, hw, Token.width]

theorem mem_cases (h : LineReset c d level A (.content lead first rest) l' R) {id : TokenId}
    {u : Token} (hget : c.get? id = some u) :
    (id, u) ∈ A ∨ (id, u) ∈ lead ∨ (id, u) ∈ first :: rest ∨ (id, u) ∈ R := by
  have hmem := h.holds.mem_of_get? hget
  simpa [Line.items, or_assoc] using hmem

theorem start_of_lead (h : LineReset c d level A (.content lead first rest) l' R) {e : Entry}
    (he : e ∈ lead) :
    (Line.content lead first rest).start = e ∧ e.2.isWhitespace = true := by
  cases he
  exact ⟨rfl, h.proper.1⟩

/-- Behind the whitespace in front, the row of the start moves as one. -/
theorem row_moved (h : LineReset c d level A (.content lead first rest) l' R) {id : TokenId}
    {u : Token} (hget : c.get? id = some u)
    (hrow : u.row = (Line.content lead first rest).start.2.row)
    (hnot : id = (Line.content lead first rest).start.1 →
      (Line.content lead first rest).start.2.isWhitespace = false) :
    ∃ col, d.get? id = some { u with col, beginsLine := decide (id = l'.start.1) } ∧
      (col : Int) = u.col + ((level : Int) -
        (if (Line.content lead first rest).start.2.isWhitespace then
          (Line.content lead first rest).start.2.width else 0 : Nat)) := by
  rcases h.mem_cases hget with hA | hlead | hcore | hR
  · have hlt := h.above_row _ hA
    simp only at hlt
    omega
  · obtain ⟨hstart, hw⟩ := h.start_of_lead hlead
    rw [hstart] at hnot
    have hnw := hnot rfl
    rw [hw] at hnw
    cases hnw
  · have hm := h.content_moved hcore hrow
    rw [h.lead_width] at hm
    exact hm
  · have hlt := h.below_row _ hR
    simp only at hlt
    omega

theorem row_kept (h : LineReset c d level A (.content lead first rest) l' R) {id : TokenId}
    {u : Token} (hget : c.get? id = some u)
    (hrow : u.row ≠ (Line.content lead first rest).start.2.row) : d.get? id = some u := by
  rcases h.mem_cases hget with hA | hlead | hcore | hR
  · exact h.holds'.get?_of_mem (e := (id, u)) (by simp [hA])
  · obtain ⟨hstart, -⟩ := h.start_of_lead hlead
    exact absurd (by rw [hstart]) hrow
  · exact h.content_kept hcore hrow
  · exact h.holds'.get?_of_mem (e := (id, u)) (by simp [hR])

end Content

section Answer

variable {lead lead' : Option Entry} {first first' : Entry} {rest rest' : List Entry}

theorem ids_eq
    (h : LineReset c d level A (.content lead first rest) (.content lead' first' rest') R) :
    c.ids = A.map Prod.fst ++
        ((lead.map Prod.fst).toList ++ (first :: rest ++ R).map Prod.fst) ∧
      d.ids = A.map Prod.fst ++
        ((lead'.map Prod.fst).toList ++ (first :: rest ++ R).map Prod.fst) := by
  have hcore : (first' :: rest').map Prod.fst = (first :: rest).map Prod.fst := h.refit.core_ids
  have hbehind : (first :: rest ++ R).map Prod.fst = (first' :: rest' ++ R).map Prod.fst := by
    rw [List.map_append, List.map_append, hcore]
  unfold TokenChain.ids
  rw [h.holds.entries_eq, h.holds'.entries_eq]
  constructor
  · cases lead <;> simp [Line.items]
  · rw [hbehind]
    cases lead' <;> simp [Line.items]

theorem live_ids {c : TokenChain} {L : List Entry} (h : c.Holds L) :
    c.ids.Nodup ∧ ∀ id, c.contains id = true ↔ id ∈ c.ids := by
  have hids : c.ids = L.map Prod.fst := by rw [TokenChain.ids, h.entries_eq]
  rw [hids]
  exact ⟨h.distinct, fun id => h.live_iff⟩

theorem order (h : LineReset c d level A (.content lead first rest) (.content lead' first' rest') R)
    (hsame : ∀ e ∈ lead, ∀ e' ∈ lead', e'.1 = e.1) :
    c.ids.filter d.contains = d.ids.filter c.contains := by
  obtain ⟨hnd, hlive⟩ := live_ids h.holds
  obtain ⟨hnd', hlive'⟩ := live_ids h.holds'
  obtain ⟨hc, hd⟩ := h.ids_eq
  rw [hc] at hnd hlive ⊢
  rw [hd] at hnd' hlive' ⊢
  apply filter_exchange hlive hlive' hnd hnd'
  intro a ha b hb
  obtain ⟨e, he, rfl⟩ := Option.map_eq_some_iff.mp ha
  obtain ⟨e', he', rfl⟩ := Option.map_eq_some_iff.mp hb
  exact hsame e he e' he'

theorem eq_start_of_gone
    (h : LineReset c d level A (.content lead first rest) (.content lead' first' rest') R)
    {id : TokenId} (hc : c.contains id = true) (hd : d.contains id = false) :
    id = (Line.content lead first rest).start.1 := by
  rw [(live_ids h.holds).2, h.ids_eq.1] at hc
  rw [← Bool.not_eq_true, (live_ids h.holds').2, h.ids_eq.2] at hd
  simp only [List.mem_append] at hc hd
  rcases hc with hA | hlead | hK
  · exact absurd (Or.inl hA) hd
  · cases lead with
    | none => cases hlead
    | some lead => simpa [Line.start] using hlead
  · exact absurd (Or.inr (Or.inr hK)) hd

theorem eq_start_of_new
    (h : LineReset c d level A (.content lead first rest) (.content lead' first' rest') R)
    {id : TokenId} (hd : d.contains id = true) (hc : c.contains id = false) :
    id = (Line.content lead' first' rest').start.1 := by
  rw [(live_ids h.holds').2, h.ids_eq.2] at hd
  rw [← Bool.not_eq_true, (live_ids h.holds).2, h.ids_eq.1] at hc
  simp only [List.mem_append] at hc hd
  rcases hd with hA | hlead | hK
  · exact absurd (Or.inl hA) hc
  · cases lead' with
    | none => cases hlead
    | some lead' => simpa [Line.start] using hlead
  · exact absurd (Or.inr (Or.inr hK)) hc

end Answer

section Indented

variable {lead lead' : Option Entry} {first first' : Entry} {rest rest' : List Entry}

/-- Without a width there is nothing in front, unless what was there is empty. -/
theorem lead_none
    (h : LineReset c d 0 A (.content lead first rest) (.content lead' first' rest') R)
    (hne : ¬ ((Line.content lead first rest).start.2.isWhitespace = true ∧
      (Line.content lead first rest).start.2.text = "")) :
    lead' = none ∧ first'.1 = first.1 := by
  have hrefit := h.refit
  cases hrefit with
  | content _ _ _ _ _ _ hlead _ hfirst _ =>
    have hfit : fit 0 (lead.map fun e => e.2.text) = none := by
      cases lead with
      | none => rfl
      | some lead =>
        have hw : lead.2.isWhitespace = true := h.proper.1
        have htext : lead.2.text ≠ "" := fun he => hne ⟨hw, he⟩
        simp [fit, leadWidth, htext]
    rw [hfit, Option.map_eq_none_iff] at hlead
    have hid := congrArg Prod.fst hfirst
    exact ⟨hlead, hid⟩

theorem lead_some (h : LineReset c d level A (.content lead first rest) l' R) (hlevel : 0 < level) :
    l'.start.2.isWhitespace = true ∧ l'.start.2.width = level := by
  have hrefit := h.refit
  cases hrefit with
  | content _ _ _ lead' first' rest' hlead _ _ _ =>
    have hwidth : leadWidth (lead'.map fun e => e.2.text) = level := by
      rw [hlead]
      exact leadWidth_fit _ _
    cases lead' with
    | none =>
      have hzero : 0 = level := hwidth
      omega
    | some lead' => exact ⟨h.proper'.1, hwidth⟩

/-- Whitespace in front before and after is the same token, if the answer is `start` or the
whitespace went. -/
theorem lead_same
    (h : LineReset c d level A (.content lead first rest) (.content lead' first' rest') R)
    (hvalue : (Line.content lead first rest).start.2.isWhitespace = true →
      (Line.content lead' first' rest').start.1 = (Line.content lead first rest).start.1 ∨
        level = 0 ∧ (Line.content lead first rest).start.2.width ≠ 0)
    {e e' : Entry} (he : e ∈ lead) (he' : e' ∈ lead') : e'.1 = e.1 := by
  obtain ⟨hlead, hw⟩ := h.start_of_lead he
  rw [hlead] at hvalue
  cases he'
  rcases hvalue hw with hid | ⟨rfl, hwidth⟩
  · exact hid
  · have hne : ¬ (e.2.isWhitespace = true ∧ e.2.text = "") := by
      rintro ⟨-, htext⟩
      exact hwidth (by simp [Token.width, htext])
    rw [← hlead] at hne
    cases (h.lead_none hne).1

/-- A line with content got its indentation. The answer is `start`, or what stands in its place when
the whitespace went. -/
theorem indented (h : LineReset c d level A (.content lead first rest) l' R)
    (hvalue : (Line.content lead first rest).start.2.isWhitespace = true →
      l'.start.1 = (Line.content lead first rest).start.1 ∨
        level = 0 ∧ (Line.content lead first rest).start.2.width ≠ 0) :
    c.Indented (Line.content lead first rest).start.1 (Line.content lead first rest).start.2 level
      l'.start.1 d := by
  have hfirst : c.firstContent? (Line.content lead first rest).start.1 = some first.1 :=
    h.holds.firstContent?_line h.sound.placed h.proper h.below
  obtain ⟨lead', first', rest', rfl, -⟩ := h.refit.of_content
  refine ⟨h.begins, ?_, ?_, ?_, ?_, ?_, ?_, ?_, ?_, ?_⟩
  · intro hlevel
    exact ⟨_, h.get?_start, h.lead_some hlevel⟩
  · intro hlevel hne
    subst hlevel
    obtain ⟨rfl, hid⟩ := h.lead_none hne
    rw [hfirst, ← hid]
    rfl
  · intro hlevel hw htext
    refine (hvalue hw).resolve_right fun hwidth => hwidth.2 ?_
    simp [Token.width, htext]
  · obtain ⟨u, hu, hplace⟩ := h.content_place
    exact ⟨first.1, u, hfirst, hu, hplace⟩
  · intro id u hget hrow hnot
    exact h.row_moved hget hrow hnot
  · intro id u hget hrow
    exact h.row_kept hget hrow
  · intro id hc hd
    exact h.eq_start_of_gone hc hd
  · intro id hd hc
    exact h.eq_start_of_new hd hc
  · apply h.order
    intro e he e' he'
    exact h.lead_same hvalue he he'

end Indented

end LineReset

/-! ## Every line -/

theorem TokenChain.setIndent_blank {c : TokenChain} {start : TokenId} {t : Token} (level : Nat)
    (hget : c.get? start = some t) (hw : t.isWhitespace = true)
    (hend : t.endsLine = true ∨ c.next? start = none) :
    c.setIndent start level = .ok (c.unchanged start) := by
  unfold setIndent get
  rw [hget]
  simp only [bind, Except.bind, hw, if_true]
  cases hnext : c.next? start with
  | none => rfl
  | some next =>
    rw [hnext] at hend
    simp [hend.resolve_right (by simp), pure, Except.pure]

theorem exists_content_line {c : TokenChain} {ls : List (Line Entry)} (h : c.Steady (flat ls))
    (hls : ∀ l ∈ ls, l.Proper) {start : TokenId} {t : Token} (hget : c.get? start = some t)
    (hb : t.beginsLine = true)
    (hnot : ¬ (t.isWhitespace = true ∧ (t.endsLine = true ∨ c.next? start = none))) :
    ∃ P lead first rest Q, ls = P ++ .content lead first rest :: Q ∧
      (Line.content lead first rest).start = (start, t) := by
  obtain ⟨P, l, Q, rfl, hl⟩ := exists_line hls (h.holds.mem_of_get? hget) hb
  match l with
  | .content lead first rest => exact ⟨P, lead, first, rest, Q, rfl, hl⟩
  | .blank e =>
    have hl : e = (start, t) := hl
    subst hl
    simp only [List.forall_mem_append, List.forall_mem_cons] at hls
    have hat : c.Holds (flat P ++ (start, t) :: flat Q) := by
      simpa [flat_append, Line.items] using h.holds
    have hp : PlacedAfter none (flat P ++ (start, t) :: flat Q) := by
      simpa [flat_append, Line.items] using h.sound.placed
    refine absurd ⟨hls.2.1.1, ?_⟩ hnot
    rw [hat.next?_at]
    rcases (placed_append.mp hp).2.blank_ends (head?_flat hls.2.2) with hend | hnil
    · exact Or.inl hend
    · rw [hnil]
      exact Or.inr rfl

/-- Setting the indentation of a line leaves a blank line alone. Every other line begins with the
new width afterwards, the row where it starts moves by the change of the width, and everything else
stays. -/
theorem indenting_moves_one_row (c : TokenChain) (start : TokenId) (t : Token) (level : Nat)
    (hc : c.Consistent) (hfits : c.Fits 1) (hget : c.get? start = some t)
    (hb : t.beginsLine = true) (hlevel : level < signedLimit) :
    (t.isWhitespace = true ∧ (t.endsLine = true ∨ c.next? start = none) →
      c.setIndent start level = .ok (c.unchanged start)) ∧
    (¬ (t.isWhitespace = true ∧ (t.endsLine = true ∨ c.next? start = none)) →
      ∃ e, c.setIndent start level = .ok e ∧ c.Indented start t level e.value e.chain) := by
  refine ⟨fun hblank => TokenChain.setIndent_blank level hget hblank.1 hblank.2, ?_⟩
  intro hnot
  obtain ⟨L, hL⟩ := hc.steady hfits.text
  obtain ⟨ls, rfl, hls⟩ := hL.sound.exists_lines
  obtain ⟨P, lead, first, rest, Q, rfl, hstart⟩ := exists_content_line hL hls hget hb hnot
  simp only [List.forall_mem_append, List.forall_mem_cons] at hls
  rw [flat_append, flat_cons] at hL
  have hat : c.Steady
      (flat P ++ (start, t) :: ((Line.content lead first rest).behind ++ flat Q)) := by
    rw [← hstart]
    simpa [Line.items_eq] using hL
  obtain ⟨e, L', hok, hsteady, hre, -⟩ := hat.setIndent hb hfits.room hlevel
  obtain ⟨⟨u, S, hfront⟩, hvalue⟩ := hre.front
  have hline : Reindented slideRow (flat P) (Line.content lead first rest).start.1
      (Line.content lead first rest).start.2 ((Line.content lead first rest).behind ++ flat Q) level
      e.value L' := by
    rw [hstart]
    exact hre
  obtain ⟨l', rfl, hrefit, hproper⟩ := hline.confined hL.sound.placed hls.2.1 (head?_flat hls.2.2)
  have hreset : LineReset c e.chain level (flat P) (.content lead first rest) l' (flat Q) :=
    ⟨hL.holds, hsteady.holds, hL.sound, hsteady.sound, hls.2.1, hproper, head?_flat hls.2.2, hrefit⟩
  have hanswer : l'.start.1 = e.value := by
    rw [l'.items_eq, List.cons_append] at hfront
    exact congrArg Prod.fst (List.cons.inj (List.append_cancel_left hfront)).1
  refine ⟨e, hok, ?_⟩
  have hindented := hreset.indented (by rw [hstart, hanswer]; exact hvalue)
  rw [hstart, hanswer] at hindented
  exact hindented

/-- Whitespace in front of a comment over two lines, with an empty token and code behind it. -/
def brokenLine : List Token :=
  [{ text := "z", kind := .identifier, beginsLine := true },
    { text := "\r\n", kind := .whitespace, endsLine := true, col := 1 },
    { text := "\t ", kind := .whitespace, beginsLine := true, row := 1 },
    { text := "\x7ba\nb\x7d", kind := .comment, row := 1, col := 2 },
    { text := "", kind := .symbol, row := 2, col := 2 },
    { text := "y", kind := .number, row := 2, col := 2 }]

/-- The whitespace goes, and the comment begins the line. -/
theorem broken_line_loses_its_indentation :
    (TokenChain.ofList brokenLine).Consistent ∧ (TokenChain.ofList brokenLine).Fits 1 ∧
    ∃ e, (TokenChain.ofList brokenLine).setIndent ⟨2, 0⟩ 0 = .ok e ∧
      (TokenChain.ofList brokenLine).Indented ⟨2, 0⟩
        { text := "\t ", kind := .whitespace, beginsLine := true, row := 1 } 0 e.value e.chain := by
  have hc : (TokenChain.ofList brokenLine).Consistent :=
    TokenChain.consistent_ofList (by decide) (by decide +kernel) (by decide +kernel)
  have hfits : (TokenChain.ofList brokenLine).Fits 1 := by decide +kernel
  have hmoves := indenting_moves_one_row (TokenChain.ofList brokenLine) ⟨2, 0⟩
    { text := "\t ", kind := .whitespace, beginsLine := true, row := 1 } 0 hc hfits
    (by decide +kernel) rfl (by decide)
  exact ⟨hc, hfits, hmoves.2 (by decide +kernel)⟩

end LineLayout
