-- The last level wins. Where the whitespace in front of a line is made of spaces, an indentation
-- replaces it by spaces of the new width and forgets the old width. So a line that goes to one level
-- and then to another has the same tokens as a line that goes to the second level at once, also
-- where its whitespace is taken out on the way and made anew.
import LineLayout.Proofs.IndentedLine

namespace LineLayout

/-! ## Spaces in front of a line -/

/-- The whitespace in front of a line, if there is any, is one or more spaces. -/
def OnlyBlanks (lead : Option String) : Prop :=
  ∀ text ∈ lead, ∃ width, 0 < width ∧ text = blanks width

/-- The whitespace of this width as it is made new. -/
def newLead (level : Nat) : Option String := if level = 0 then none else some (blanks level)

theorem onlyBlanks_newLead (level : Nat) : OnlyBlanks (newLead level) := by
  intro text ht
  unfold newLead at ht
  split at ht
  · cases ht
  · next hne =>
    cases ht
    exact ⟨level, by omega, rfl⟩

theorem fit_of_onlyBlanks {lead : Option String} (h : OnlyBlanks lead) (level : Nat) :
    fit level lead = newLead level := by
  unfold fit newLead
  split
  · next hwidth =>
    cases lead with
    | none =>
      have hzero : level = 0 := hwidth.symm
      rw [if_pos hzero]
    | some text =>
      obtain ⟨width, hpos, rfl⟩ := h text rfl
      have hsame : width = level := (length_blanks width).symm.trans hwidth
      rw [if_neg (by omega), hsame]
  · rfl

/-! ## A line at a level -/

/-- A token without id, place and mark in front. -/
abbrev Face : Type := Kind × String × Features × Bool

/-- The line starts with content, or with spaces that have the features of the content. -/
def Line.SpaceLed : Line Entry → Prop
  | .blank _ => True
  | .content lead first _ => OnlyBlanks (lead.map fun e => e.2.text) ∧
      ∀ e ∈ lead, e.2.features = first.2.features

/-- The tokens of a line when it is brought to a level. What is in front of it has no part in
this. -/
def Line.facesAt (level : Nat) : Line Entry → List Face
  | .blank e => [(face e).2]
  | .content _ first rest =>
    ((newLead level).map fun text => (.whitespace, text, first.2.features, false)).toList ++
      (first :: rest).map fun e => (face e).2

section Refit

variable {level : Nat} {l l' : Line Entry}

theorem features_of_face_eq {e e' : Entry} (h : face e' = face e) :
    e'.2.features = e.2.features :=
  congrArg (fun x => x.2.2.2.1) h

theorem Refit.lead_features {lead lead' : Option Entry} {first first' : Entry}
    {rest rest' : List Entry}
    (h : Refit level (.content lead first rest) (.content lead' first' rest'))
    (hl : (Line.content lead first rest).SpaceLed) :
    ∀ e ∈ lead', e.2.features = first.2.features := by
  cases h with
  | content _ _ _ _ _ _ _ hfeatures _ _ =>
    intro e he
    obtain ⟨origin, hm, horigin⟩ := hfeatures e he
    rw [horigin]
    rcases List.mem_cons.mp hm with rfl | hm
    · rfl
    · exact hl.2 origin (Option.mem_toList.mp hm)

theorem Refit.spaceLed (h : Refit level l l') (hl : l.SpaceLed) : l'.SpaceLed := by
  have hlead := h
  cases h with
  | blank e => trivial
  | content lead first rest lead' first' rest' htext _ hfirst _ =>
    refine ⟨?_, ?_⟩
    · rw [htext, fit_of_onlyBlanks hl.1]
      exact onlyBlanks_newLead level
    · rw [features_of_face_eq hfirst]
      exact hlead.lead_features hl

/-- The content decides what a line looks like at a level. -/
theorem Refit.facesAt (h : Refit level l l') (other : Nat) :
    l'.facesAt other = l.facesAt other := by
  cases h with
  | blank e => rfl
  | content lead first rest lead' first' rest' _ _ hfirst hrest =>
    have hcontent : (first' :: rest').map (fun e => (face e).2) =
        (first :: rest).map fun e => (face e).2 := by
      have hfaces : (first' :: rest').map face = (first :: rest).map face := by
        rw [List.map_cons, List.map_cons, hfirst, hrest]
      have hsnd := congrArg (List.map Prod.snd) hfaces
      rwa [List.map_map, List.map_map] at hsnd
    unfold Line.facesAt
    simp only [features_of_face_eq hfirst, hcontent]

theorem Refit.faces (h : Refit level l l') (hl : l.SpaceLed) (hl' : l'.Proper) :
    l'.items.map (fun e => (face e).2) = l.facesAt level := by
  rw [← h.facesAt level]
  have hlead := h
  cases h with
  | blank e => rfl
  | content lead first rest lead' first' rest' htext _ hfirst _ =>
    rw [fit_of_onlyBlanks hl.1] at htext
    have hfeatures := hlead.lead_features hl
    rw [← features_of_face_eq hfirst] at hfeatures
    unfold Line.facesAt
    rw [← htext]
    cases lead' with
    | none => rfl
    | some e =>
      obtain ⟨hw, -, hend, -⟩ := hl'
      have hkind : e.2.kind = .whitespace := by simpa [Token.isWhitespace] using hw
      have hend : e.2.endsLine = false := hend
      simp [Line.items, face, hkind, hend, hfeatures e rfl]

end Refit

theorem PlacedAfter.tokens_of_faces {before : Option Token} {L L' : List Entry}
    (h : PlacedAfter before L) (h' : PlacedAfter before L')
    (hfaces : L.map (fun e => (face e).2) = L'.map fun e => (face e).2) :
    L.map Prod.snd = L'.map Prod.snd := by
  induction L generalizing before L' with
  | nil => rw [List.map_eq_nil_iff.mp hfaces.symm]
  | cons e rest ih =>
    obtain ⟨e', rest', rfl, he, hrest⟩ := List.map_eq_cons_iff.mp hfaces.symm
    have hplace : e'.2.position = e.2.position := by rw [h.1.place, h'.1.place]
    have hmark : e'.2.beginsLine = e.2.beginsLine := by
      cases before with
      | none => exact h'.1.1.trans h.1.1.symm
      | some b => exact (Follows.marks h'.1).trans (Follows.marks h.1).symm
    have htoken : e'.2 = e.2 := by
      obtain ⟨id, t⟩ := e
      obtain ⟨id', t'⟩ := e'
      cases t
      cases t'
      simp_all [face, Token.position]
    rw [List.map_cons, List.map_cons, htoken]
    refine congrArg (e.2 :: ·) (ih h.2 ?_ hrest.symm)
    rw [← htoken]
    exact h'.2

/-! ## Two levels -/

namespace TokenChain

/-- Two levels, one after the other, on a line that starts with content or with spaces. -/
theorem Steady.setIndent_twice {c : TokenChain} {A R : List Entry} {l : Line Entry}
    (h : c.Steady (A ++ (l.items ++ R))) (hl : l.Proper) (hled : l.SpaceLed)
    (hR : ∀ r ∈ R.head?, r.2.beginsLine = true) (hroom : c.slots.size + 2 ≤ slotLimit)
    {former level : Nat} (hformer : former < signedLimit) (hlevel : level < signedLimit) :
    ∃ first second direct, c.setIndent l.start.1 former = .ok first ∧
      first.chain.setIndent first.value level = .ok second ∧
      c.setIndent l.start.1 level = .ok direct ∧
      second.chain.toList = direct.chain.toList := by
  obtain ⟨first, l₁, hfirst, hvalue, hsteady₁, hrefit₁, hproper₁, hslots⟩ :=
    h.setIndent_line_start hl hR (by omega) hformer
  obtain ⟨second, l₂, hsecond, hsteady₂, hrefit₂, hproper₂, -⟩ :=
    hsteady₁.setIndent_line hproper₁ hR (by omega) hlevel
  obtain ⟨direct, l', hdirect, hsteady', hrefit', hproper', -⟩ :=
    h.setIndent_line hl hR (by omega) hlevel
  refine ⟨first, second, direct, hfirst, by rw [hvalue]; exact hsecond, hdirect, ?_⟩
  have hfaces : l₂.items.map (fun e => (face e).2) = l'.items.map fun e => (face e).2 := by
    rw [hrefit₂.faces (hrefit₁.spaceLed hled) hproper₂, hrefit₁.facesAt level,
      hrefit'.faces hled hproper']
  have hplaced₂ := (placed_append.mp (placed_append.mp hsteady₂.sound.placed).2).1
  have hplaced' := (placed_append.mp (placed_append.mp hsteady'.sound.placed).2).1
  unfold TokenChain.toList
  rw [hsteady₂.holds.entries_eq, hsteady'.holds.entries_eq]
  simp only [List.map_append]
  rw [hplaced₂.tokens_of_faces hplaced' hfaces]

end TokenChain

/-- The line starts with content, or with one or more spaces that have the features of the next
token. Blank lines are free. -/
structure TokenChain.SpaceLedAt (c : TokenChain) (start : TokenId) (t : Token) : Prop where
  text : t.isWhitespace = true → t.endsLine = false → ∃ width, 0 < width ∧ t.text = blanks width
  features : t.isWhitespace = true → t.endsLine = false →
    ∀ next n, c.next? start = some next → c.get? next = some n → t.features = n.features

theorem TokenChain.SpaceLedAt.spaceLed {c : TokenChain} {start : TokenId} {t : Token}
    (h : c.SpaceLedAt start t) {A R : List Entry} {l : Line Entry}
    (hL : c.Holds (A ++ (l.items ++ R))) (hl : l.Proper) (hstart : l.start = (start, t)) :
    l.SpaceLed := by
  match l, hstart with
  | .blank _, _ => trivial
  | .content none _ _, _ => exact ⟨by simp [OnlyBlanks], by simp⟩
  | .content (some lead) first rest, hstart =>
    have hlead : lead = (start, t) := hstart
    subst hlead
    have hw : t.isWhitespace = true := hl.1
    have hend : t.endsLine = false := hl.2.2.1
    have hat : c.Holds (A ++ (start, t) :: (first :: (rest ++ R))) := by
      simpa [Line.items] using hL
    have hbehind : c.Holds ((A ++ [(start, t)]) ++ (first.1, first.2) :: (rest ++ R)) := by
      simpa using hat
    refine ⟨?_, ?_⟩
    · rintro text ⟨⟩
      exact h.text hw hend
    · rintro e ⟨⟩
      exact h.features hw hend first.1 first.2 hat.next?_at hbehind.get?_at

/-- The last level wins: a line of a consistent chain that starts with content or with spaces has
the same tokens whether it goes to another level first or not. -/
theorem the_last_level_wins (c : TokenChain) (start : TokenId) (t : Token) (former level : Nat)
    (hc : c.Consistent) (hfits : c.Fits 2) (hget : c.get? start = some t)
    (hb : t.beginsLine = true) (hled : c.SpaceLedAt start t) (hformer : former < signedLimit)
    (hlevel : level < signedLimit) :
    ∃ first second direct, c.setIndent start former = .ok first ∧
      first.chain.setIndent first.value level = .ok second ∧
      c.setIndent start level = .ok direct ∧
      second.chain.toList = direct.chain.toList := by
  obtain ⟨L, hL⟩ := hc.steady hfits.text
  obtain ⟨ls, rfl, hls⟩ := hL.sound.exists_lines
  obtain ⟨P, l, Q, rfl, hstart⟩ := exists_line hls (hL.holds.mem_of_get? hget) hb
  simp only [List.forall_mem_append, List.forall_mem_cons] at hls
  rw [flat_append, flat_cons] at hL
  have htwice := hL.setIndent_twice hls.2.1 (hled.spaceLed hL.holds hls.2.1 hstart)
    (head?_flat hls.2.2) hfits.room hformer hlevel
  rw [hstart] at htwice
  exact htwice

/-- A line with two spaces in front of a comment over two rows, and code behind the comment. -/
def spacedLine : List Token :=
  [{ text := "z", kind := .identifier, beginsLine := true },
    { text := "\r\n", kind := .whitespace, endsLine := true, col := 1 },
    { text := "  ", kind := .whitespace, beginsLine := true, features := Features.none, row := 1 },
    { text := "\x7ba\nb\x7d", kind := .comment, features := Features.none, row := 1, col := 2 },
    { text := "y", kind := .number, row := 2, col := 2 }]

/-- The spaces are taken out for the first level and made anew for the second one. -/
theorem spaced_line_keeps_its_last_level :
    ∃ first second direct, (TokenChain.ofList spacedLine).setIndent ⟨2, 0⟩ 0 = .ok first ∧
      first.chain.setIndent first.value 4 = .ok second ∧
      (TokenChain.ofList spacedLine).setIndent ⟨2, 0⟩ 4 = .ok direct ∧
      second.chain.toList = direct.chain.toList := by
  have hc : (TokenChain.ofList spacedLine).Consistent :=
    TokenChain.consistent_ofList (by decide) (by decide +kernel) (by decide +kernel)
  have hled : (TokenChain.ofList spacedLine).SpaceLedAt ⟨2, 0⟩
      { text := "  ", kind := .whitespace, beginsLine := true, features := Features.none,
        row := 1 } := by
    refine ⟨fun _ _ => ⟨2, by decide, by decide⟩, ?_⟩
    intro _ _ next n hnext hn
    cases hnext.symm.trans (by decide : (TokenChain.ofList spacedLine).next? ⟨2, 0⟩ = some ⟨3, 0⟩)
    cases hn.symm.trans (by decide : (TokenChain.ofList spacedLine).get? ⟨3, 0⟩ =
      some { text := "\x7ba\nb\x7d", kind := .comment, features := Features.none, row := 1,
             col := 2 })
    rfl
  exact the_last_level_wins _ ⟨2, 0⟩ _ 0 4 hc (by decide +kernel) (by decide +kernel) rfl hled
    (by decide) (by decide)

end LineLayout
