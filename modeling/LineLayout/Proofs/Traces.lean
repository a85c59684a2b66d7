-- What an edit leaves of a list of tokens, apart from places and marks. An edit changes
-- whitespace only: it gives it another width, takes it out, or puts it in front of a token, with
-- the switches of that token. So each token afterwards can be traced to a token before, or to
-- the one that it was put in front of.
import LineLayout.Proofs.Edits
import Mathlib.Data.List.Nodup

namespace LineLayout

/-! ## Stamps -/

/-- What a token is, apart from where it stands and how its line runs. -/
structure Stamp where
  id : TokenId
  kind : Kind
  text : String
  features : Features
  deriving DecidableEq

def stampOf (e : Entry) : Stamp := ⟨e.1, e.2.kind, e.2.text, e.2.features⟩

def stampsOf (L : List Entry) : List Stamp := L.map stampOf

/-- The stamps of everything but whitespace. -/
def codeOf (S : List Stamp) : List Stamp := S.filter fun s => s.kind != .whitespace

def TokenChain.stamps (c : TokenChain) : List Stamp := stampsOf c.entries

def TokenChain.code (c : TokenChain) : List Stamp := codeOf c.stamps

/-- A text of spaces and nothing else. -/
def onlySpaces (text : String) : Prop := ∀ ch ∈ text.toList, ch = ' '

theorem onlySpaces_blanks (level : Nat) : onlySpaces (blanks level) := by
  intro ch h
  simp only [blanks, String.toList_ofList, List.mem_replicate] at h
  exact h.2

namespace Stamp

/-- What a token keeps through every edit: its id, its kind and its switches, and its text unless
it is whitespace, which may get another width. -/
structure Keeps (s u : Stamp) : Prop where
  id : u.id = s.id
  kind : u.kind = s.kind
  features : u.features = s.features
  text : u.text = s.text ∨ s.kind = .whitespace ∧ onlySpaces u.text

/-- Whitespace as an edit puts it in: spaces, or one line break. -/
structure Fills (s : Stamp) : Prop where
  whitespace : s.kind = .whitespace
  text : onlySpaces s.text ∨ s.text = "\n"

theorem Keeps.refl (s : Stamp) : s.Keeps s := ⟨rfl, rfl, rfl, Or.inl rfl⟩

theorem Keeps.trans {s u v : Stamp} (h : s.Keeps u) (k : u.Keeps v) : s.Keeps v := by
  refine ⟨k.id.trans h.id, k.kind.trans h.kind, k.features.trans h.features, ?_⟩
  rcases k.text with htext | ⟨hw, hspaces⟩
  · rw [htext]
    exact h.text
  · exact Or.inr ⟨h.kind ▸ hw, hspaces⟩

theorem Fills.of_keeps {s u : Stamp} (h : s.Fills) (k : s.Keeps u) : u.Fills := by
  refine ⟨k.kind.trans h.whitespace, ?_⟩
  rcases k.text with htext | ⟨-, hspaces⟩
  · rw [htext]
    exact h.text
  · exact Or.inl hspaces

end Stamp

theorem mem_codeOf {S : List Stamp} {s : Stamp} :
    s ∈ codeOf S ↔ s ∈ S ∧ s.kind ≠ .whitespace := by
  simp [codeOf]

theorem codeOf_append (S T : List Stamp) : codeOf (S ++ T) = codeOf S ++ codeOf T :=
  List.filter_append ..

theorem codeOf_whitespace {s : Stamp} (S : List Stamp) (h : s.kind = .whitespace) :
    codeOf (s :: S) = codeOf S := by
  simp [codeOf, h]

theorem eq_of_id {S : List Stamp} (hnd : (S.map Stamp.id).Nodup) {s u : Stamp} (hs : s ∈ S)
    (hu : u ∈ S) (hid : u.id = s.id) : u = s :=
  List.inj_on_of_nodup_map hnd hu hs hid

/-! ## Neighbours -/

/-- Two neighbours stand on one side of an entry that is not the second of them. -/
theorem neighbours_split {α : Type} {a b x : α} {A B : List α} (h : [a, b] <:+: A ++ x :: B)
    (hb : b ≠ x) : [a, b] <:+: A ∨ [a, b] <:+: x :: B := by
  induction A with
  | nil => exact Or.inr h
  | cons y A ih =>
    rw [List.cons_append, List.infix_cons_iff] at h
    rcases h with hfront | hlater
    · left
      cases A with
      | nil => simp_all
      | cons z A =>
        have hpair : [a, b] <+: y :: z :: A := by simpa using hfront
        exact hpair.isInfix
    · exact (ih hlater).imp_left List.infix_cons

/-- Neighbours stay neighbours when another one is put in, unless it comes between them. -/
theorem neighbours_insert {α : Type} {a b x new : α} {A B : List α}
    (h : [a, b] <:+: A ++ x :: B) (hb : b ≠ x) : [a, b] <:+: A ++ new :: x :: B := by
  rcases neighbours_split h hb with hA | hB
  · exact hA.trans (List.prefix_append A _).isInfix
  · exact (List.infix_cons hB).trans (List.suffix_append A _).isInfix

/-- Neighbours stay neighbours when another one is taken out. -/
theorem neighbours_erase {α : Type} {a b x : α} {A B : List α} (h : [a, b] <:+: A ++ x :: B)
    (ha : a ≠ x) (hb : b ≠ x) : [a, b] <:+: A ++ B := by
  rcases neighbours_split h hb with hA | hB
  · exact hA.trans (List.prefix_append A B).isInfix
  · rw [List.infix_cons_iff] at hB
    rcases hB with hfront | hlater
    · rw [List.cons_prefix_cons] at hfront
      exact absurd hfront.1 ha
    · exact hlater.trans (List.suffix_append A B).isInfix

/-! ## What edits leave of a list -/

/-- The stamps `T` after some edits of `S`. The code is the same. Each token is one of before, or
it was put in: then it stands directly in front of a token that satisfies `front`, and has its
switches. -/
structure Traced (front : Stamp → Prop) (S T : List Stamp) : Prop where
  code : codeOf T = codeOf S
  origin : ∀ u ∈ T, (∃ s ∈ S, s.Keeps u) ∨
    (u.id ∉ S.map Stamp.id ∧ u.Fills ∧ ∃ n ∈ T, front n ∧
      [u.id, n.id] <:+: T.map Stamp.id ∧ u.features = n.features)

theorem Traced.refl (front : Stamp → Prop) (S : List Stamp) : Traced front S S :=
  ⟨rfl, fun u hu => Or.inl ⟨u, hu, .refl u⟩⟩

section Changes

variable {front front' : Stamp → Prop} {S A B : List Stamp} {s : Stamp}

theorem Traced.resized (h : Traced front S (A ++ s :: B)) (hw : s.kind = .whitespace)
    {text : String} (htext : onlySpaces text) (hfront : ∀ n, front n → front' n)
    (hs : ¬ front s) : Traced front' S (A ++ { s with text } :: B) := by
  have hkeeps : s.Keeps { s with text } := ⟨rfl, rfl, rfl, Or.inr ⟨hw, htext⟩⟩
  constructor
  · rw [← h.code, codeOf_append, codeOf_append, codeOf_whitespace B hw,
      codeOf_whitespace B (hkeeps.kind.trans hw)]
  · intro u hu
    have hbefore : ∃ v ∈ A ++ s :: B, v.Keeps u := by
      rcases List.mem_append.mp hu with hA | hB
      · exact ⟨u, by simp [hA], .refl u⟩
      · rcases List.mem_cons.mp hB with rfl | hB
        · exact ⟨s, by simp, hkeeps⟩
        · exact ⟨u, by simp [hB], .refl u⟩
    obtain ⟨v, hv, hvu⟩ := hbefore
    rcases h.origin v hv with ⟨o, ho, hov⟩ | ⟨hnew, hfills, n, hn, hfn, hnext, hfeatures⟩
    · exact Or.inl ⟨o, ho, hov.trans hvu⟩
    · refine Or.inr ⟨hvu.id ▸ hnew, hfills.of_keeps hvu, n, ?_, hfront n hfn, ?_, ?_⟩
      · have hne : n ≠ s := fun he => hs (he ▸ hfn)
        simp only [List.mem_append, List.mem_cons] at hn ⊢
        tauto
      · rw [hvu.id]
        simpa using hnext
      · rw [hvu.features, hfeatures]

theorem Traced.removed (h : Traced front S (A ++ s :: B))
    (hnd : ((A ++ s :: B).map Stamp.id).Nodup) (hw : s.kind = .whitespace)
    (hfront : ∀ n, front n → front' n) (hs : ¬ front s) : Traced front' S (A ++ B) := by
  constructor
  · rw [← h.code, codeOf_append, codeOf_append, codeOf_whitespace B hw]
  · have hsub : ∀ u ∈ A ++ B, u ∈ A ++ s :: B := by
      intro u hu
      simp only [List.mem_append, List.mem_cons] at hu ⊢
      tauto
    intro u hu
    rcases h.origin u (hsub u hu) with hold | ⟨hnew, hfills, n, hn, hfn, hnext, hfeatures⟩
    · exact Or.inl hold
    · have hne : n ≠ s := fun he => hs (he ▸ hfn)
      have hmem : n ∈ A ++ B := by
        simp only [List.mem_append, List.mem_cons] at hn ⊢
        tauto
      refine Or.inr ⟨hnew, hfills, n, hmem, hfront n hfn, ?_, hfeatures⟩
      have hapart : ∀ v ∈ A ++ B, v.id ≠ s.id := by
        intro v hv he
        rw [List.map_append, List.map_cons, List.nodup_middle, List.nodup_cons,
          ← List.map_append, ← he] at hnd
        exact hnd.1 (List.mem_map_of_mem hv)
      rw [List.map_append, List.map_cons] at hnext
      rw [List.map_append]
      exact neighbours_erase hnext (hapart u hu) (hapart n hmem)

theorem Traced.added (h : Traced front S (A ++ s :: B))
    (hnd : ((A ++ s :: B).map Stamp.id).Nodup) {new : Stamp} (hnew : new.id ∉ S.map Stamp.id)
    (hfills : new.Fills) (hfeatures : new.features = s.features)
    (hfront : ∀ n, front n → front' n) (hs : ¬ front s) (hs' : front' s) :
    Traced front' S (A ++ new :: s :: B) := by
  constructor
  · rw [← h.code, codeOf_append, codeOf_append, codeOf_whitespace _ hfills.whitespace]
  · have hsub : ∀ u ∈ A ++ s :: B, u ∈ A ++ new :: s :: B := by
      intro u hu
      simp only [List.mem_append, List.mem_cons] at hu ⊢
      tauto
    intro u hu
    by_cases he : u ∈ A ++ s :: B
    · rcases h.origin u he with hold | ⟨hnew, hfills, n, hn, hfn, hnext, hfeatures⟩
      · exact Or.inl hold
      · refine Or.inr ⟨hnew, hfills, n, hsub n hn, hfront n hfn, ?_, hfeatures⟩
        have hne : n.id ≠ s.id := fun hid => hs (eq_of_id hnd (by simp) hn hid ▸ hfn)
        rw [List.map_append, List.map_cons] at hnext
        rw [List.map_append, List.map_cons, List.map_cons]
        exact neighbours_insert hnext hne
    · have hu' : u = new := by
        simp only [List.mem_append, List.mem_cons] at hu he
        tauto
      subst hu'
      refine Or.inr ⟨hnew, hfills, s, by simp, hs', ⟨A.map Stamp.id, B.map Stamp.id, ?_⟩,
        hfeatures⟩
      simp

end Changes

/-! ## Edits of a list -/

theorem stampsOf_append (A B : List Entry) : stampsOf (A ++ B) = stampsOf A ++ stampsOf B :=
  List.map_append

theorem stampsOf_ids (L : List Entry) : (stampsOf L).map Stamp.id = L.map Prod.fst := by
  simp [stampsOf, stampOf, Function.comp_def]

/-- Neither places nor marks are part of a stamp. -/
theorem stampsOf_moveRow (row : Nat) (delta : Int) (L : List Entry) :
    stampsOf (moveRow row delta L) = stampsOf L :=
  moveRow_map stampOf (fun _ => rfl) row L

theorem stampsOf_shiftRow (delta : Int) (L : List Entry) :
    stampsOf (editAll (·.shiftRow delta) L) = stampsOf L :=
  editAll_map stampOf (fun _ => rfl) L

/-- Setting an indentation changes whitespace at the start of the line, or puts some in front of
what stands there. -/
theorem Reindented.traced {front front' : Stamp → Prop} {S : List Stamp} {A B L : List Entry}
    {start value : TokenId} {t : Token} {level : Nat}
    (hre : Reindented moveRow A start t B level value L)
    (h : Traced front S (stampsOf (A ++ (start, t) :: B)))
    (hnd : ((A ++ (start, t) :: B).map Prod.fst).Nodup)
    (hnew : value ∉ (A ++ (start, t) :: B).map Prod.fst → value ∉ S.map Stamp.id)
    (hfront : ∀ n, front n → front' n) (hs : ¬ front (stampOf (start, t)))
    (hs' : t.isWhitespace = false → front' (stampOf (start, t))) :
    Traced front' S (stampsOf L) := by
  have hkind : t.isWhitespace = true → (stampOf (start, t)).kind = .whitespace := by
    simp [Token.isWhitespace, stampOf]
  rw [← stampsOf_ids] at hnd
  have hsplit : ∀ e : Entry, ∀ C, stampsOf (A ++ e :: C) = stampsOf A ++ stampOf e :: stampsOf C :=
    fun e C => stampsOf_append A (e :: C)
  rw [hsplit] at h hnd
  cases hre with
  | stays _ _ =>
    rw [hsplit]
    refine ⟨h.code, fun u hu => (h.origin u hu).imp_right ?_⟩
    rintro ⟨hid, hfills, n, hn, hfn, hrest⟩
    exact ⟨hid, hfills, n, hn, hfront n hfn, hrest⟩
  | resized next n rest hB hw _ _ _ =>
    rw [hsplit, stampsOf_moveRow, ← hB]
    exact h.resized (hkind hw) (onlySpaces_blanks level) hfront hs
  | removed next n rest hB hw _ _ _ =>
    have hrest : stampsOf ((value, { n with beginsLine := true }) :: rest) = stampsOf B := by
      rw [hB]
      rfl
    rw [stampsOf_append, stampsOf_moveRow, hrest]
    exact h.removed hnd (hkind hw) hfront hs
  | inserted _ hw _ hfresh =>
    rw [hsplit, stampsOf_moveRow]
    refine h.added hnd (hnew hfresh) ⟨rfl, Or.inl (onlySpaces_blanks level)⟩ rfl hfront hs
      (hs' hw)

/-- The token that begins the line afterwards is there. No token left, unless it was whitespace
that began the line. -/
theorem Reindented.ids {A B L : List Entry} {start value : TokenId} {t : Token} {level : Nat}
    (hre : Reindented moveRow A start t B level value L) :
    value ∈ L.map Prod.fst ∧ ∀ id ∈ (A ++ (start, t) :: B).map Prod.fst,
      id ∈ L.map Prod.fst ∨ id = start ∧ t.isWhitespace = true := by
  have hmove : ∀ row delta C, (moveRow row delta C).map Prod.fst = C.map Prod.fst :=
    fun row _ C => moveRow_map Prod.fst (fun _ => rfl) row C
  cases hre with
  | stays _ _ => exact ⟨by simp, fun id hid => Or.inl hid⟩
  | resized next n rest hB _ _ _ _ =>
    subst hB
    exact ⟨by simp, fun id hid => Or.inl (by simpa [hmove] using hid)⟩
  | removed next n rest hB hw _ _ _ =>
    subst hB
    simp only [List.map_append, List.map_cons, hmove, List.mem_append, List.mem_cons]
    exact ⟨by simp, fun id hid => by tauto⟩
  | inserted _ _ _ _ =>
    simp only [List.map_append, List.map_cons, hmove, List.mem_append, List.mem_cons]
    exact ⟨by simp, fun id hid => by tauto⟩

/-- Keeping lines apart puts one line break in front of a token, or nothing. -/
theorem Separated.traced {P R L : List Entry} {last : TokenId} {tl : Token}
    {value : Option TokenId} (hsep : Separated P last tl R value L)
    (hnd : ((P ++ (last, tl) :: R).map Prod.fst).Nodup) :
    Traced (· ∈ stampsOf (P ++ (last, tl) :: R)) (stampsOf (P ++ (last, tl) :: R))
      (stampsOf L) := by
  cases hsep with
  | stays _ => exact .refl _ _
  | inserted new next n rest hR _ hfresh =>
    subst hR
    have hsplit : P ++ (last, tl) :: (next, n) :: rest =
        (P ++ [(last, tl)]) ++ (next, n) :: rest := by simp
    have hL : stampsOf (P ++ (last, tl) :: (new, n.blankLineBefore) ::
        editAll (·.shiftRow 1) ((next, n) :: rest)) =
        stampsOf (P ++ [(last, tl)]) ++ stampOf (new, n.blankLineBefore) ::
          stampOf (next, n) :: stampsOf rest := by
      have hmoved := stampsOf_shiftRow 1 ((next, n) :: rest)
      simp only [stampsOf, List.map_append, List.map_cons, List.map_nil, List.append_assoc,
        List.singleton_append] at hmoved ⊢
      rw [hmoved]
    rw [← stampsOf_ids] at hnd hfresh
    rw [hL]
    rw [hsplit, stampsOf_append] at hnd hfresh ⊢
    exact (Traced.refl (fun _ => False) _).added hnd hfresh ⟨rfl, Or.inr rfl⟩ rfl
      (fun _ => False.elim) id (by simp [stampsOf])

end LineLayout
