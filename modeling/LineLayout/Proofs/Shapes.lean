-- The shape of a line: its kinds and texts, without ids, places and marks. Where the content of
-- a line stands depends on the width in front of it and not on the whitespace itself. So two
-- lists of lines with the same contents and the same widths have their code in the same places,
-- and their comments go to the same columns.
import LineLayout.Proofs.Operations

namespace LineLayout

/-! ## Shapes -/

/-- The kinds and texts of a line. -/
abbrev Shape : Type := Line (Kind × String)

def shapeOf (l : Line Entry) : Shape := l.map fun e => (e.2.kind, e.2.text)

/-- The tokens of a line without the whitespace in front. -/
def Line.core {α : Type} : Line α → List α
  | blank item => [item]
  | content _ first rest => first :: rest

theorem Line.core_map {α β : Type} (f : α → β) (l : Line α) : (l.map f).core = l.core.map f := by
  cases l <;> rfl

theorem Line.mem_items_of_core {α : Type} {l : Line α} {x : α} (h : x ∈ l.core) :
    x ∈ l.items := by
  cases l with
  | blank item => exact h
  | content lead first rest => exact List.mem_append_right _ h

theorem Line.Proper.mem_core {l : Line Entry} (h : l.Proper) {e : Entry} (he : e ∈ l.items)
    (hw : e.2.isWhitespace = false) : e ∈ l.core := by
  match l, h with
  | .blank _, _ => exact he
  | .content none _ _, _ => exact he
  | .content (some lead) first rest, h =>
    rcases List.mem_cons.mp he with rfl | hin
    · have hlead : e.2.isWhitespace = true := h.1
      rw [hw] at hlead
      cases hlead
    · exact hin

theorem Refit.core_ids {level : Nat} {l l' : Line Entry} (h : Refit level l l') :
    l'.core.map Prod.fst = l.core.map Prod.fst := by
  cases h with
  | blank e => rfl
  | content lead first rest lead' first' rest' _ _ hfirst hrest =>
    have hfaces : (first' :: rest').map face = (first :: rest).map face := by
      simp [hfirst, hrest]
    have hids := congrArg (List.map Prod.fst) hfaces
    rw [List.map_map, List.map_map] at hids
    exact hids

namespace Shape

/-- The line with another indentation. -/
def refit (level : Nat) : Shape → Shape
  | .blank item => .blank item
  | .content lead first rest =>
    .content ((fit level (lead.map Prod.snd)).map fun text => (.whitespace, text)) first rest

/-- The width in front of the content. -/
def margin : Shape → Nat
  | .blank _ => 0
  | .content lead _ _ => leadWidth (lead.map Prod.snd)

/-- The line goes to its column, if it has one to go to. -/
def settle : Option Nat → Shape → Shape
  | none, s => s
  | some column, s => s.refit column

/-- The text of a line. -/
def text (s : Shape) : List Char := s.items.flatMap fun x => x.2.toList

/-- The shape with nothing but its width in front. -/
def skeleton (s : Shape) : Nat × List (Kind × String) := (s.margin, s.core)

theorem texts_of_lead (lead : Option String) :
    (lead.map fun text => (Kind.whitespace, text)).map Prod.snd = lead := by
  simp [Function.comp_def]

theorem refit_refit (level : Nat) (s : Shape) : (s.refit level).refit level = s.refit level := by
  cases s with
  | blank item => rfl
  | content lead first rest =>
    simp only [refit, texts_of_lead, fit_fit]

/-- To indent a line and to settle it is the same the second time. -/
theorem settle_refit_round (level : Nat) (column : Option Nat) (s : Shape) :
    settle column (refit level (settle column (refit level s))) =
      settle column (refit level s) := by
  cases column with
  | none => exact refit_refit level s
  | some column =>
    cases s with
    | blank item => rfl
    | content lead first rest =>
      simp only [settle, refit, texts_of_lead, fit_round]

theorem core_refit (level : Nat) (s : Shape) : (s.refit level).core = s.core := by
  cases s <;> rfl

theorem core_settle (column : Option Nat) (s : Shape) : (settle column s).core = s.core := by
  cases column with
  | none => rfl
  | some column => exact core_refit column s

/-- After an indentation the skeleton depends on the content only. -/
theorem skeleton_refit_settle (level : Nat) (column : Option Nat) (s : Shape) :
    skeleton (refit level (settle column s)) = skeleton (refit level s) := by
  cases column with
  | none => rfl
  | some column =>
    cases s with
    | blank item => rfl
    | content lead first rest =>
      simp only [settle, refit, skeleton, margin, texts_of_lead, leadWidth_fit, Line.core]

end Shape

theorem Refit.shape {level : Nat} {l l' : Line Entry} (h : Refit level l l') (hl' : l'.Proper) :
    shapeOf l' = (shapeOf l).refit level := by
  cases h with
  | blank e => rfl
  | content lead first rest lead' first' rest' hlead _ hfirst hrest =>
    have hkind : ∀ e ∈ lead', e.2.kind = .whitespace := by
      intro e he
      cases he
      simpa [Token.isWhitespace] using hl'.1
    have hleadShape : lead'.map (fun e => (e.2.kind, e.2.text)) =
        (lead'.map fun e => e.2.text).map fun text => (.whitespace, text) := by
      cases lead' with
      | none => rfl
      | some e => simp [hkind e rfl]
    have hface : ∀ {A B : List Entry}, A.map face = B.map face →
        A.map (fun e => (e.2.kind, e.2.text)) = B.map fun e => (e.2.kind, e.2.text) := by
      intro A B hAB
      have hmap := congrArg (List.map fun x => (x.2.1, x.2.2.1)) hAB
      rw [List.map_map, List.map_map] at hmap
      exact hmap
    have hcontent := hface (A := first' :: rest') (B := first :: rest) (by simp [hfirst, hrest])
    obtain ⟨hf, hr⟩ := List.cons.inj hcontent
    have hlead' : (lead.map fun e => (e.2.kind, e.2.text)).map Prod.snd =
        lead.map fun e => e.2.text := by
      simp [Function.comp_def]
    simp only [shapeOf, Line.map, Shape.refit]
    rw [hleadShape, hlead, hlead', hr]
    exact congrArg (Line.content _ · _) hf

theorem Settled.shape {column : Option Nat} {l l' : Line Entry} (h : Settled column l l')
    (hl' : l'.Proper) : shapeOf l' = (shapeOf l).settle column := by
  cases column with
  | none =>
    cases h
    rfl
  | some column => exact Refit.shape h hl'

/-! ## Places of the content -/

/-- A token with its place. -/
def spot (e : Entry) : Kind × String × Position := (e.2.kind, e.2.text, e.2.position)

theorem PlacedAfter.spots {before before' : Option Token} {L L' : List Entry}
    (h : PlacedAfter before L) (h' : PlacedAfter before' L')
    (hstop : stopOf before = stopOf before')
    (hparts : L.map (fun e => (e.2.kind, e.2.text)) = L'.map fun e => (e.2.kind, e.2.text)) :
    L.map spot = L'.map spot ∧ stopOf (lastToken before L) = stopOf (lastToken before' L') := by
  induction L generalizing before before' L' with
  | nil =>
    rw [List.map_eq_nil_iff.mp hparts.symm]
    exact ⟨rfl, hstop⟩
  | cons e rest ih =>
    obtain ⟨e', rest', rfl, he, hrest⟩ := List.map_eq_cons_iff.mp hparts.symm
    have hplace : e'.2.position = e.2.position := by rw [h.1.place, h'.1.place, hstop]
    obtain ⟨hkind, htext⟩ := Prod.mk.inj he
    have hnext : stopOf (some e.2) = stopOf (some e'.2) := by
      simp only [stopOf, Token.following, hplace, htext]
    obtain ⟨hspots, hlast⟩ := ih h.2 h'.2 hnext hrest.symm
    rw [lastToken_cons, lastToken_cons]
    refine ⟨?_, hlast⟩
    rw [List.map_cons, List.map_cons, hspots, spot, spot, hkind, htext, hplace]

theorem PlacedAfter.core {before : Option Token} {l : Line Entry} (h : PlacedAfter before l.items)
    (hl : l.Proper) (hplain : ∀ e ∈ l.items, e.2.unbroken) :
    ∃ mid, PlacedAfter mid l.core ∧ lastToken before l.items = lastToken mid l.core ∧
      stopOf mid = ⟨(stopOf before).row, (stopOf before).col + (shapeOf l).margin⟩ := by
  match l with
  | .blank e => exact ⟨before, h, rfl, rfl⟩
  | .content none first rest => exact ⟨before, h, rfl, rfl⟩
  | .content (some lead) first rest =>
    refine ⟨some lead.2, h.2, lastToken_cons _ _ _, ?_⟩
    obtain ⟨hw, -, hend, -⟩ := hl
    have hf : Follows lead.2 first.2 := h.2.1
    have hlead : lead.2.plain := hplain lead (by simp [Line.items]) hw (hf.breaks ▸ hend)
    have hplace : lead.2.position = stopOf before := h.1.place
    have hmid : stopOf (some lead.2) = lead.2.following := rfl
    rw [hmid, Token.following_of_plain hlead, ← hplace]
    rfl

theorem core_shapeOf (l : Line Entry) :
    (shapeOf l).core = l.core.map fun e => (e.2.kind, e.2.text) :=
  Line.core_map _ l

theorem PlacedAfter.line_spots {before before' : Option Token} {l l' : Line Entry}
    (h : PlacedAfter before l.items) (h' : PlacedAfter before' l'.items)
    (hstop : stopOf before = stopOf before') (hl : l.Proper) (hl' : l'.Proper)
    (hplain : ∀ e ∈ l.items, e.2.unbroken) (hplain' : ∀ e ∈ l'.items, e.2.unbroken)
    (hskeleton : (shapeOf l).skeleton = (shapeOf l').skeleton) :
    l.core.map spot = l'.core.map spot ∧
      stopOf (lastToken before l.items) = stopOf (lastToken before' l'.items) := by
  obtain ⟨hmargin, hcore⟩ := Prod.mk.inj hskeleton
  obtain ⟨mid, hmid, hlast, hmidstop⟩ := h.core hl hplain
  obtain ⟨mid', hmid', hlast', hmidstop'⟩ := h'.core hl' hplain'
  rw [hlast, hlast']
  apply hmid.spots hmid'
  · rw [hmidstop, hmidstop', hstop, hmargin]
  · rw [← core_shapeOf, ← core_shapeOf, hcore]

/-! ## Columns for comments -/

/-- The places of the code. -/
def codeSpots (L : List Entry) : List (Kind × String × Position) :=
  (L.map spot).filter fun s => !(s.1 == .whitespace || s.1 == .comment)

theorem codeSpots_append (A B : List Entry) : codeSpots (A ++ B) = codeSpots A ++ codeSpots B := by
  simp [codeSpots]

theorem codeSpots_items {l : Line Entry} (hl : l.Proper) :
    codeSpots l.items = codeSpots l.core := by
  match l with
  | .blank _ => rfl
  | .content none _ _ => rfl
  | .content (some lead) first rest =>
    have hkind : lead.2.kind = .whitespace := by simpa [Token.isWhitespace] using hl.1
    simp [codeSpots, Line.items, Line.core, spot, hkind]

/-- The column for a comment depends on where it ends and where the code behind it stands. -/
theorem target_eq (closers : List String) (comment : Token) (L : List Entry) :
    target closers comment (L.map Prod.snd) = (codeSpots L).head?.bind fun s =>
      if s.2.2.row ≤ comment.following.row ∨
          (closers.any fun word => s.1 == .reservedWord && Token.sameWord s.2.1 word) = true then
        none
      else some s.2.2.col := by
  unfold target codeSpots
  rw [List.head?_filter, List.find?_map, List.find?_map]
  have hcode : ((fun s : Kind × String × Position => !(s.1 == .whitespace || s.1 == .comment)) ∘
      spot) = (fun t : Token => !t.isTrivia) ∘ Prod.snd := rfl
  rw [hcode]
  cases List.find? ((fun t : Token => !t.isTrivia) ∘ Prod.snd) L with
  | none => rfl
  | some e => rfl

/-- The columns for all lines, when every comment is let through. -/
def goals (closers : List String) : List (Line Entry) → List (Option Nat)
  | [] => []
  | l :: ls => goal closers (fun _ => true) l (flat ls) :: goals closers ls

/-- Lines whose contents stand in the same places have the same column to go to. -/
theorem goal_congr {l l' : Line Entry} {below below' : List Entry} (closers : List String)
    (hl : l.Proper) (hl' : l'.Proper) (hspots : l.core.map spot = l'.core.map spot)
    (hcodes : codeSpots below = codeSpots below') :
    goal closers (fun _ => true) l below = goal closers (fun _ => true) l' below' := by
  have hfirst : ∀ {l : Line Entry} {below : List Entry} {e : Entry} {rest : List Entry},
      l.Proper → l.core = e :: rest → goal closers (fun _ => true) l below =
        if e.2.kind = .comment then target closers e.2 ((rest ++ below).map Prod.snd)
        else none := by
    intro l below e rest hl hcore
    match l with
    | .blank item =>
      cases hcore
      have hkind : e.2.kind = .whitespace := by simpa [Token.isWhitespace] using hl.1
      simp [goal, hkind]
    | .content lead first body =>
      cases hcore
      simp [goal, Token.isComment]
  have hcons : ∀ l : Line Entry, ∃ e rest, l.core = e :: rest := by
    intro l
    cases l <;> exact ⟨_, _, rfl⟩
  obtain ⟨e, rest, he⟩ := hcons l
  obtain ⟨e', rest', he'⟩ := hcons l'
  rw [he, he', List.map_cons, List.map_cons] at hspots
  obtain ⟨hspot, hrest⟩ := List.cons.inj hspots
  simp only [spot, Prod.mk.injEq] at hspot
  obtain ⟨hkind, htext, hplace⟩ := hspot
  have hfollowing : e.2.following = e'.2.following := by
    simp only [Token.following, hplace, htext]
  have hcodes' : codeSpots (rest ++ below) = codeSpots (rest' ++ below') := by
    rw [codeSpots_append, codeSpots_append, hcodes]
    simp only [codeSpots, hrest]
  rw [hfirst hl he, hfirst hl' he', hkind, target_eq, target_eq, hcodes', hfollowing]

/-- Lines with the same skeletons have the same columns to go to. -/
theorem goals_congr (closers : List String) {before before' : Option Token}
    {ls ls' : List (Line Entry)} (h : PlacedAfter before (flat ls))
    (h' : PlacedAfter before' (flat ls')) (hstop : stopOf before = stopOf before')
    (hls : ∀ l ∈ ls, l.Proper) (hls' : ∀ l ∈ ls', l.Proper)
    (hplain : ∀ e ∈ flat ls, e.2.unbroken) (hplain' : ∀ e ∈ flat ls', e.2.unbroken)
    (hskeletons : (ls.map shapeOf).map Shape.skeleton = (ls'.map shapeOf).map Shape.skeleton) :
    goals closers ls = goals closers ls' ∧ codeSpots (flat ls) = codeSpots (flat ls') := by
  rw [List.map_map, List.map_map] at hskeletons
  induction ls generalizing before before' ls' with
  | nil =>
    rw [List.map_eq_nil_iff.mp hskeletons.symm]
    exact ⟨rfl, rfl⟩
  | cons l ls ih =>
    obtain ⟨l', ls', rfl, hl, hrest⟩ := List.map_eq_cons_iff.mp hskeletons.symm
    rw [List.forall_mem_cons] at hls hls'
    rw [flat_cons, List.forall_mem_append] at hplain hplain'
    rw [flat_cons, placed_append] at h h'
    obtain ⟨hspots, hnext⟩ := h.1.line_spots h'.1 hstop hls.1 hls'.1 hplain.1 hplain'.1 hl.symm
    obtain ⟨hgoals, hcodes⟩ := ih h.2 h'.2 hnext hls.2 hls'.2 hplain.2 hplain'.2 hrest.symm
    constructor
    · rw [goals, goals, hgoals, goal_congr closers hls.1 hls'.1 hspots hcodes]
    · rw [flat_cons, flat_cons, codeSpots_append, codeSpots_append, codeSpots_items hls.1,
        codeSpots_items hls'.1, hcodes]
      simp only [codeSpots, hspots]

end LineLayout
