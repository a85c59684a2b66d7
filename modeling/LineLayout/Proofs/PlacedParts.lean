-- Classified texts in their places. Whatever the texts are, the placement puts each token where
-- the text before it stops and marks the lines that the texts begin and end, so the check of the
-- chain can find fault with one thing only: whitespace right behind whitespace on one line, which
-- is the caller's own doing.
import LineLayout.Proofs.ReportedViolations
import LineLayout.Source.Placement
import Mathlib.Data.List.Chain

namespace LineLayout

/-- What the placement is given for a token. -/
def Token.part (t : Token) : Kind × String := (t.kind, t.text)

/-- One part can stand right behind another. Whitespace comes behind whitespace only over a line
break. -/
def Apart (p q : Kind × String) : Prop :=
  p.1 = .whitespace → q.1 = .whitespace → p.2.toList.getLast? = some '\n'

theorem Token.apart_iff {before t : Token} : Apart before.part t.part ↔
    (t.isWhitespace = true → before.isWhitespace = true → before.endsWithBreak = true) := by
  simp only [Apart, part, isWhitespace, endsWithBreak, beq_iff_eq]
  exact imp.swap

/-! ## The last token ends its line -/

theorem closeLastLine_map {α : Type} (g : Token → α)
    (hg : ∀ t : Token, g { t with endsLine := true } = g t) (tokens : List Token) :
    (closeLastLine tokens).map g = tokens.map g := by
  fun_induction closeLastLine tokens with
  | case1 => rfl
  | case2 token => simp [hg]
  | case3 token rest _ ih => simp [ih]

theorem closeLastLine_cons_cons (t u : Token) (tokens : List Token) :
    closeLastLine (t :: u :: tokens) = t :: closeLastLine (u :: tokens) := rfl

theorem closeLastLine_concat (tokens : List Token) (t : Token) :
    closeLastLine (tokens ++ [t]) = tokens ++ [{ t with endsLine := true }] := by
  induction tokens with
  | nil => rfl
  | cons u tokens ih =>
    cases tokens with
    | nil => rfl
    | cons v tokens =>
      rw [List.cons_append] at ih
      rw [List.cons_append, List.cons_append, closeLastLine_cons_cons, ih]
      rfl

/-- Only the last token is changed, and only its mark. -/
theorem closeLastLine_split {tokens A B : List Token} {t : Token}
    (h : closeLastLine tokens = A ++ t :: B) :
    ∃ u C, tokens = A ++ u :: C ∧ (B ≠ [] → t = u) ∧ t.beginsLine = u.beginsLine ∧
      t.position = u.position := by
  rcases List.eq_nil_or_concat tokens with rfl | ⟨front, last, rfl⟩
  · simp [closeLastLine] at h
  rw [List.concat_eq_append, closeLastLine_concat] at h
  rcases List.eq_nil_or_concat B with rfl | ⟨middle, closed, rfl⟩
  · obtain ⟨rfl, hlast⟩ := List.append_inj' h rfl
    cases hlast
    exact ⟨last, [], by simp, by simp, rfl, rfl⟩
  · rw [List.concat_eq_append, ← List.cons_append, ← List.append_assoc] at h
    obtain ⟨rfl, -⟩ := List.append_inj' h rfl
    exact ⟨t, middle ++ [last], by simp, fun _ => rfl, rfl, rfl⟩

/-! ## Tokens in their places -/

theorem placeFrom_parts (features : Features) (p : Position) (b : Bool)
    (parts : List (Kind × String)) :
    (placeFrom features p b parts).map Token.part = parts := by
  induction parts generalizing p b with
  | nil => rfl
  | cons part rest ih => simp [placeFrom, Token.part, ih]

theorem placeFrom_features (features : Features) (p : Position) (b : Bool)
    (parts : List (Kind × String)) : ∀ t ∈ placeFrom features p b parts, t.features = features := by
  induction parts generalizing p b with
  | nil => simp [placeFrom]
  | cons part rest ih =>
    rw [placeFrom, List.forall_mem_cons]
    exact ⟨rfl, ih _ _⟩

/-- A token that is placed behind others begins where their texts stop, and begins a line when the
last of them ends with a break. -/
theorem placeFrom_split {features : Features} {b : Bool} {parts : List (Kind × String)}
    {text : List Char} {A B : List Token} {t : Token}
    (h : placeFrom features (textEnd text) b parts = A ++ t :: B) :
    t.position = textEnd (text ++ A.flatMap fun u => u.text.toList) ∧
      t.beginsLine = (A.getLast?.map Token.endsWithBreak).getD b ∧
      t.endsLine = t.endsWithBreak := by
  induction parts generalizing b text A with
  | nil => simp [placeFrom] at h
  | cons part rest ih =>
    rw [placeFrom] at h
    cases A with
    | nil =>
      cases h
      exact ⟨by simp [Token.position], rfl, rfl⟩
    | cons u A =>
      obtain ⟨rfl, hrest⟩ := List.cons.inj h
      rw [after_textEnd] at hrest
      obtain ⟨hplace, hmark, hends⟩ := ih hrest
      refine ⟨?_, ?_, hends⟩
      · rw [hplace, List.flatMap_cons, List.append_assoc]
      · rw [hmark, List.getLast?_cons]
        cases A.getLast? <;> rfl

theorem place_parts (parts : List (Kind × String)) (features : Features) :
    (place parts features).map Token.part = parts := by
  unfold place
  rw [closeLastLine_map _ fun _ => rfl, placeFrom_parts]

theorem place_features (parts : List (Kind × String)) (features : Features) :
    ∀ t ∈ place parts features, t.features = features := by
  intro t ht
  have hmem : t.features ∈ (place parts features).map Token.features := List.mem_map_of_mem ht
  unfold place at hmem
  rw [closeLastLine_map _ fun _ => rfl] at hmem
  obtain ⟨u, hu, hfeatures⟩ := List.mem_map.mp hmem
  rw [← hfeatures]
  exact placeFrom_features _ _ _ _ u hu

theorem length_place (parts : List (Kind × String)) (features : Features) :
    (place parts features).length = parts.length := by
  have h := congrArg List.length (place_parts parts features)
  rwa [List.length_map] at h

/-- Every token of a placement is in its place. Its mark for the end of the line is the one that its
text gives, the last token apart. -/
theorem place_split {parts : List (Kind × String)} {features : Features} {A B : List Token}
    {t : Token} (h : place parts features = A ++ t :: B) :
    t.position = textEnd (A.flatMap fun u => u.text.toList) ∧
      t.beginsLine = (A.getLast?.map Token.endsWithBreak).getD true ∧
      (B ≠ [] → t.endsLine = t.endsWithBreak) := by
  obtain ⟨u, C, hsplit, hsame, hmark, hposition⟩ := closeLastLine_split h
  have hfront : (⟨0, 0⟩ : Position) = textEnd [] := rfl
  rw [hfront] at hsplit
  obtain ⟨hplace, hbegins, hends⟩ := placeFrom_split hsplit
  refine ⟨hposition.trans hplace, hmark.trans hbegins, ?_⟩
  intro hB
  rw [hsame hB]
  exact hends

/-- Two neighbours of a placement agree on the line between them. -/
theorem place_marks {parts : List (Kind × String)} {features : Features} {A B : List Token}
    {before t : Token} (h : place parts features = A ++ before :: t :: B) :
    t.beginsLine = before.endsLine ∧ before.endsLine = before.endsWithBreak := by
  have hends := (place_split h).2.2 (by simp)
  have hnext : place parts features = (A ++ [before]) ++ t :: B := by simpa using h
  have hbegins := (place_split hnext).2.1
  rw [List.getLast?_concat] at hbegins
  exact ⟨hbegins.trans hends.symm, hends⟩

/-! ## What the check finds -/

theorem Rendered.apart_parts {tokens : List Token} (h : Rendered tokens) :
    (tokens.map Token.part).IsChain Apart := by
  rw [List.isChain_map, List.isChain_iff_forall_rel_of_append_cons_cons]
  intro before t A B hsplit
  exact Token.apart_iff.mpr (h.apart A before t B hsplit)

/-- A placement is rendered exactly when its parts can stand behind each other. -/
theorem rendered_place_iff {parts : List (Kind × String)} {features : Features} :
    Rendered (place parts features) ↔ parts.IsChain Apart := by
  constructor
  · intro h
    rw [← place_parts parts features]
    exact h.apart_parts
  · intro h
    rw [← place_parts parts features, List.isChain_map,
      List.isChain_iff_forall_rel_of_append_cons_cons] at h
    refine ⟨fun A t B hsplit => (place_split hsplit).1, ?_,
      fun A before t B hsplit => place_marks hsplit,
      fun A before t B hsplit => Token.apart_iff.mp (h hsplit)⟩
    intro t ht
    obtain ⟨rest, hrest⟩ := List.head?_eq_some_iff.mp ht
    exact (place_split (A := []) hrest).2.1

/-- The violation is whitespace in the second of two parts, the first two in a row that cannot stand
behind each other. -/
def Violation.FirstCrowding (parts : List (Kind × String)) (v : Violation) : Prop :=
  ∃ A p q B, parts = A ++ p :: q :: B ∧ (A ++ [p]).IsChain Apart ∧ ¬ Apart p q ∧
    v = .adjacentWhitespace (A.length + 1)

/-- A violation of a placement comes from the parts. -/
theorem Violation.FirstIn.firstCrowding {parts : List (Kind × String)} {features : Features}
    {v : Violation} (h : v.FirstIn (place parts features)) : v.FirstCrowding parts := by
  obtain ⟨front, t, rest, hsplit, hrendered, -, hv⟩ := h
  obtain ⟨hplace, hbegins, -⟩ := place_split hsplit
  have hmarks : ∀ before, front.getLast? = some before →
      t.beginsLine = before.endsLine ∧ before.endsLine = before.endsWithBreak := by
    intro before hlast
    obtain ⟨A, rfl⟩ := List.getLast?_eq_some_iff.mp hlast
    have hpair : place parts features = A ++ before :: t :: rest := by simpa using hsplit
    exact place_marks hpair
  cases v with
  | unlinked => exact hv.elim
  | miscounted => exact hv.elim
  | firstInsideLine =>
    obtain ⟨rfl, -, hfalse⟩ := hv
    rw [hbegins] at hfalse
    cases hfalse
  | lineMarks =>
    obtain ⟨-, rfl, hne, before, hlast, rfl⟩ := hv
    exact absurd (hmarks before hlast).1 hne
  | breakMark =>
    obtain ⟨-, before, hlast, rfl, hne⟩ := hv
    exact absurd (hmarks before hlast).2 hne
  | misplaced =>
    obtain ⟨-, rfl, rfl, hne⟩ := hv
    exact absurd hplace.symm hne
  | adjacentWhitespace =>
    obtain ⟨rfl, ht, before, hlast, hw, -, hno⟩ := hv
    obtain ⟨A, rfl⟩ := List.getLast?_eq_some_iff.mp hlast
    refine ⟨A.map Token.part, before.part, t.part, rest.map Token.part, ?_, ?_, ?_, by simp⟩
    · rw [← place_parts parts features, hsplit]
      simp
    · simpa using hrendered.apart_parts
    · rw [Token.apart_iff]
      intro hbreak
      rw [hbreak ht hw] at hno
      cases hno

/-! ## The chain of a placement -/

theorem slots_ofParts (parts : List (Kind × String)) (features : Features) :
    (TokenChain.ofParts parts features).slots.size = parts.length := by
  rw [TokenChain.ofParts, (TokenChain.slots_ofList _).2, length_place]

/-- The list that the chain of some parts holds. -/
theorem exists_holds_ofParts {parts : List (Kind × String)} (features : Features)
    (h : parts.length ≤ slotLimit) :
    ∃ L, (TokenChain.ofParts parts features).Holds L ∧ L.map Prod.snd = place parts features := by
  rw [← length_place parts features] at h
  exact TokenChain.holds_ofList h

/-- The chain of some parts has these parts in order, and the check finds fault with it exactly when
two whitespace parts in a row are on one line: it reports the second of the first two, and nothing
else ever. -/
theorem placed_parts_fail_only_where_crowded (parts : List (Kind × String)) (features : Features)
    (hroom : parts.length ≤ slotLimit)
    (hlen : (String.join (parts.map Prod.snd)).length < wordLimit) :
    (TokenChain.ofParts parts features).toList.map Token.part = parts ∧
    (∀ t ∈ (TokenChain.ofParts parts features).toList, t.features = features) ∧
    ∃ found, (TokenChain.ofParts parts features).check = .ok found ∧
      (found = none ↔ parts.IsChain Apart) ∧ ∀ v ∈ found, v.FirstCrowding parts := by
  obtain ⟨L, hL, htokens⟩ := exists_holds_ofParts features hroom
  have hlist : (TokenChain.ofParts parts features).toList = place parts features := by
    rw [TokenChain.toList, hL.entries_eq, htokens]
  have hrender : (TokenChain.ofParts parts features).render =
      String.join (parts.map Prod.snd) := by
    rw [TokenChain.render, hlist]
    nth_rw 2 [← place_parts parts features]
    rw [List.map_map]
    rfl
  have htext : (textOf L).length < wordLimit := hL.short_text (by rwa [hrender])
  rw [hlist]
  refine ⟨place_parts parts features, place_features parts features, ?_⟩
  obtain ⟨found, hfound⟩ := TokenChain.check_answers _ (by rwa [hL.entries_eq])
  refine ⟨found, hfound, ?_, ?_⟩
  · have hnone := hL.check_none_iff htext
    rw [htokens, rendered_place_iff, hfound] at hnone
    simpa using hnone
  · intro v hv
    rw [Option.mem_def.mp hv] at hfound
    have hfirst := hL.firstIn_of_check hfound
    rw [htokens] at hfirst
    exact hfirst.firstCrowding

/-- An empty text, a comment that ends with a line break, two line breaks in one token, and
whitespace behind an empty whitespace part, twice. -/
def crowdedParts : List (Kind × String) :=
  [(.symbol, ""), (.comment, "// a\n"), (.whitespace, "\n \n"), (.whitespace, ""),
    (.whitespace, "\t"), (.whitespace, "\n"), (.number, "1")]

theorem crowded_parts_are_reported_once :
    (TokenChain.ofParts crowdedParts Features.none).check =
      .ok (some (.adjacentWhitespace 4)) ∧
    (TokenChain.ofParts crowdedParts Features.none).toList.map Token.part = crowdedParts ∧
    ¬ crowdedParts.IsChain Apart ∧
    (Violation.adjacentWhitespace 4).FirstCrowding crowdedParts := by
  have hcheck : (TokenChain.ofParts crowdedParts Features.none).check =
      .ok (some (.adjacentWhitespace 4)) := by
    decide +kernel
  obtain ⟨hparts, -, found, hfound, hnone, hall⟩ := placed_parts_fail_only_where_crowded
    crowdedParts Features.none (by decide) (by decide +kernel)
  rw [hcheck] at hfound
  cases hfound
  refine ⟨hcheck, hparts, ?_, hall _ rfl⟩
  intro hchain
  cases hnone.mpr hchain

end LineLayout
