-- How far a lexeme looks ahead. Where a lexeme stops is told by the next character, or by the
-- next two for blanks in front of a line break. So behind a line break the text can be replaced,
-- and the lexemes before it stay the same.
import LineLayout.Source.Lexeme
import Mathlib.Data.List.TakeWhile

namespace LineLayout

/-! ## Runs of characters -/

theorem takeWhile_stop {P : Char → Bool} {a r : List Char} (h : ∀ x ∈ a, P x = true)
    (hr : ∀ x ∈ r.head?, P x = false) :
    (a ++ r).takeWhile P = a ∧ (a ++ r).dropWhile P = r := by
  rw [List.takeWhile_append_of_pos h, List.dropWhile_append_of_pos h]
  cases r with
  | nil => simp
  | cons x r =>
    have hx := hr x rfl
    simp [hx]

theorem stop_of_takeWhile {P : Char → Bool} {a r : List Char} (h : (a ++ r).takeWhile P = a) :
    (∀ x ∈ a, P x = true) ∧ ∀ x ∈ r.head?, P x = false := by
  have hrun : ∀ x ∈ a, P x = true := by
    intro x hx
    rw [← h] at hx
    exact List.mem_takeWhile_imp hx
  refine ⟨hrun, ?_⟩
  rw [List.takeWhile_append_of_pos hrun, List.append_right_eq_self] at h
  intro x hx
  obtain ⟨r, rfl⟩ := List.head?_eq_some_iff.mp hx
  rw [← Bool.not_eq_true]
  intro hP
  simp [hP] at h

/-- What is left after a run does not go on with it. -/
theorem dropWhile_stop {P : Char → Bool} {text r : List Char} {x : Char}
    (h : text.dropWhile P = x :: r) : P x = false := by
  have hsplit := List.takeWhile_append_dropWhile (l := text) (p := P)
  rw [h] at hsplit
  exact (stop_of_takeWhile (congrArg (List.takeWhile P) hsplit)).2 x rfl

/-- A run is the same when the text behind its stop is another one. -/
theorem takeWhile_replace {P : Char → Bool} {a r : List Char} {x : Char} (s : List Char)
    (h : (a ++ x :: r).takeWhile P = a) :
    (a ++ x :: s).takeWhile P = a ∧ (a ++ x :: s).dropWhile P = x :: s := by
  obtain ⟨hrun, hx⟩ := stop_of_takeWhile h
  exact takeWhile_stop hrun fun y hy => hx y hy

/-- A run with the character that stops it is found again in front of another text. -/
theorem takeWhile_closed {P : Char → Bool} {close : Char} (text s : List Char)
    (hc : P close = false) :
    (text.takeWhile P ++ [close] ++ s).takeWhile P = text.takeWhile P ∧
      (text.takeWhile P ++ [close] ++ s).dropWhile P = close :: s := by
  rw [List.append_assoc]
  apply takeWhile_stop (fun x hx => List.mem_takeWhile_imp hx)
  intro x hx
  cases hx
  exact hc

namespace Lexeme

/-! ## Whitespace -/

theorem not_isBlank_of_lineBreak? {text ending after : List Char}
    (h : lineBreak? text = some (ending, after)) :
    (ending = ['\n'] ∨ ending = ['\r', '\n']) ∧ ∀ x ∈ text.head?, isBlank x = false := by
  unfold lineBreak? at h
  split at h
  · cases h
    exact ⟨Or.inl rfl, by simp [isBlank]⟩
  · cases h
    exact ⟨Or.inr rfl, by simp [isBlank]⟩
  · cases h

theorem lineBreak?_none_iff {text : List Char} :
    lineBreak? text = none ↔ text.head? ≠ some '\n' ∧ text.take 2 ≠ ['\r', '\n'] := by
  unfold lineBreak?
  split
  · simp
  · simp
  · next hn hrn =>
    simp only [true_iff]
    constructor
    · intro hhead
      obtain ⟨rest, rfl⟩ := List.head?_eq_some_iff.mp hhead
      exact hn rest rfl
    · intro htake
      have hsplit := List.take_append_drop 2 text
      rw [htake] at hsplit
      exact hrn _ hsplit.symm

theorem whitespace?_none_iff {text : List Char} :
    whitespace? text = none ↔
      (∀ x ∈ text.head?, isBlank x = false) ∧ lineBreak? text = none := by
  have hsplit := List.takeWhile_append_dropWhile (l := text) (p := isBlank)
  constructor
  · intro h
    unfold whitespace? at h
    split at h
    · cases h
    · next hb =>
      split at h
      · next ht =>
        have hstop : ([] ++ text).takeWhile isBlank = [] := ht
        rw [ht, List.nil_append] at hsplit
        rw [hsplit] at hb
        exact ⟨(stop_of_takeWhile hstop).2, hb⟩
      · cases h
  · rintro ⟨hhead, hb⟩
    have hnil : ∀ x ∈ ([] : List Char), isBlank x = true := by simp
    obtain ⟨htake, hdrop⟩ := takeWhile_stop hnil hhead
    rw [List.nil_append] at htake hdrop
    unfold whitespace?
    rw [hdrop, htake, hb]
    simp

theorem whitespace?_broken {run ending : List Char} (hrun : ∀ x ∈ run, isBlank x = true)
    (he : ending = ['\n'] ∨ ending = ['\r', '\n']) (rest : List Char) :
    whitespace? (run ++ ending ++ rest) = some (⟨.whitespace, run ++ ending⟩, rest) := by
  have hbreak : lineBreak? (ending ++ rest) = some (ending, rest) := by
    rcases he with rfl | rfl <;> rfl
  obtain ⟨htake, hdrop⟩ := takeWhile_stop hrun (not_isBlank_of_lineBreak? hbreak).2
  rw [List.append_assoc]
  unfold whitespace?
  rw [hdrop, htake, hbreak]

theorem whitespace?_inside {run rest : List Char} (hrun : ∀ x ∈ run, isBlank x = true)
    (hne : run ≠ []) (hrest : whitespace? rest = none) :
    whitespace? (run ++ rest) = some (⟨.whitespace, run⟩, rest) := by
  obtain ⟨hhead, hb⟩ := whitespace?_none_iff.mp hrest
  obtain ⟨htake, hdrop⟩ := takeWhile_stop hrun hhead
  unfold whitespace?
  rw [hdrop, htake, hb]
  simp [hne]

/-- Whitespace is blanks with a line break, or blanks with no whitespace behind them. -/
theorem whitespace?_cases {text rest : List Char} {p : Lexeme}
    (h : whitespace? text = some (p, rest)) :
    p.kind = .whitespace ∧ ∃ run, (∀ x ∈ run, isBlank x = true) ∧
      ((∃ ending, (ending = ['\n'] ∨ ending = ['\r', '\n']) ∧ p.text = run ++ ending) ∨
        (run ≠ [] ∧ p.text = run ∧ whitespace? rest = none)) := by
  have hblank : ∀ x ∈ text.takeWhile isBlank, isBlank x = true :=
    fun x hx => List.mem_takeWhile_imp hx
  unfold whitespace? at h
  split at h
  · next ending after hb =>
    cases h
    exact ⟨rfl, _, hblank, Or.inl ⟨ending, (not_isBlank_of_lineBreak? hb).1, rfl⟩⟩
  · next hb =>
    split at h
    · cases h
    · next hne =>
      cases h
      have hsplit := List.takeWhile_append_dropWhile (l := text) (p := isBlank)
      have hstop : (text.takeWhile isBlank ++ text.dropWhile isBlank).takeWhile isBlank =
          text.takeWhile isBlank := by rw [hsplit]
      refine ⟨rfl, _, hblank, Or.inr ⟨hne, rfl, ?_⟩⟩
      exact whitespace?_none_iff.mpr ⟨(stop_of_takeWhile hstop).2, hb⟩

/-- Whether a text starts with whitespace is told by two characters. -/
theorem whitespace?_none_replace {b rest : List Char} (hb : b.getLast? = some '\n')
    (h : whitespace? (b ++ rest) = none) (rest' : List Char) : whitespace? (b ++ rest') = none := by
  rw [whitespace?_none_iff, lineBreak?_none_iff] at h ⊢
  match b, hb with
  | [x], hb =>
    cases hb
    exact absurd rfl h.2.1
  | x :: y :: b, _ => exact h

/-! ## Visible lexemes -/

section Replace

variable {c x : Char} {a rest : List Char} {kind : Kind} (rest' : List Char)

theorem braced_replace (h : braced (a ++ x :: rest) = (⟨kind, '\x7b' :: a⟩, x :: rest)) :
    braced (a ++ x :: rest') = (⟨kind, '\x7b' :: a⟩, x :: rest') := by
  have hhead : (a ++ x :: rest').head? = (a ++ x :: rest).head? := by simp
  unfold braced at h ⊢
  rw [hhead]
  split at h
  · simp at h
  · next close tail hd =>
    simp only [Prod.mk.injEq, Lexeme.mk.injEq, List.cons.injEq, true_and] at h
    obtain ⟨⟨hkind, hbody⟩, -⟩ := h
    have hclose := dropWhile_stop hd
    obtain ⟨htake, hdrop⟩ :=
      takeWhile_closed (P := (· != '\x7d')) (a ++ x :: rest) (x :: rest') hclose
    rw [hbody] at htake hdrop
    simp only [hdrop, htake, hkind, hbody]

theorem quoted_replace (h : quoted (a ++ x :: rest) = (⟨kind, '\x27' :: a⟩, x :: rest)) :
    quoted (a ++ x :: rest') = (⟨kind, '\x27' :: a⟩, x :: rest') := by
  unfold quoted at h ⊢
  split at h
  · simp only [Prod.mk.injEq, Lexeme.mk.injEq, List.cons.injEq, true_and] at h
    obtain ⟨⟨hkind, hbody⟩, -⟩ := h
    have hclose : insideQuotes '\x27' = false := by decide
    obtain ⟨htake, hdrop⟩ := takeWhile_closed (a ++ x :: rest) (x :: rest') hclose
    rw [hbody] at htake hdrop
    rw [hdrop, htake]
    simp [hkind, hbody]
  · next hd =>
    simp only [Prod.mk.injEq, Lexeme.mk.injEq, List.cons.injEq, true_and] at h
    obtain ⟨⟨hkind, hbody⟩, hrest⟩ := h
    obtain ⟨htake, hdrop⟩ := takeWhile_replace rest' hbody
    rw [hdrop, htake]
    have hx : x ≠ '\x27' := by
      rintro rfl
      exact hd rest hrest
    split
    · next heq => exact absurd (List.cons.inj heq).1 hx
    · simp [hkind]

theorem sign_replace (h : sign c (a ++ x :: rest) = (⟨kind, c :: a⟩, x :: rest)) :
    sign c (a ++ x :: rest') = (⟨kind, c :: a⟩, x :: rest') := by
  cases a with
  | nil =>
    simp only [List.nil_append, sign] at h ⊢
    split at h
    · cases h
    · next hp =>
      rw [if_neg hp]
      simpa using h
  | cons y a =>
    simp only [List.cons_append, sign] at h ⊢
    split at h
    · next hp =>
      simp only [Prod.mk.injEq, Lexeme.mk.injEq, List.cons.injEq, true_and] at h
      rw [if_pos hp]
      obtain ⟨⟨hkind, hnil⟩, -⟩ := h
      simp [hkind, ← hnil]
    · cases h

theorem run_replace {P : Char → Bool} (kindOf : List Char → Kind)
    (h : (Lexeme.mk (kindOf ((a ++ x :: rest).takeWhile P)) (c :: (a ++ x :: rest).takeWhile P),
      (a ++ x :: rest).dropWhile P) = (⟨kind, c :: a⟩, x :: rest)) :
    (Lexeme.mk (kindOf ((a ++ x :: rest').takeWhile P)) (c :: (a ++ x :: rest').takeWhile P),
      (a ++ x :: rest').dropWhile P) = (⟨kind, c :: a⟩, x :: rest') := by
  simp only [Prod.mk.injEq, Lexeme.mk.injEq, List.cons.injEq, true_and] at h
  obtain ⟨htake, hdrop⟩ := takeWhile_replace rest' h.1.2
  rw [htake, hdrop, ← h.1.1, h.1.2]

/-- A visible lexeme looks one character ahead. -/
theorem visible_replace (h : visible c (a ++ x :: rest) = (⟨kind, c :: a⟩, x :: rest)) :
    visible c (a ++ x :: rest') = (⟨kind, c :: a⟩, x :: rest') := by
  have hhead : (a ++ x :: rest').head? = (a ++ x :: rest).head? := by simp
  unfold visible at h ⊢
  rw [hhead]
  split at h
  · next hc =>
    subst hc
    rw [if_pos rfl]
    exact braced_replace rest' h
  next hbrace =>
  rw [if_neg hbrace]
  split at h
  · next hc =>
    rw [if_pos hc]
    exact run_replace rest' (fun _ => .comment) h
  next hcomment =>
  rw [if_neg hcomment]
  split at h
  · next hc =>
    rw [if_pos hc]
    exact run_replace rest' (fun run => wordKind (c :: run)) h
  next hword =>
  rw [if_neg hword]
  split at h
  · next hc =>
    rw [if_pos hc]
    exact run_replace rest' (fun _ => .number) h
  next hdigit =>
  rw [if_neg hdigit]
  split at h
  · next hc =>
    subst hc
    rw [if_pos rfl]
    exact quoted_replace rest' h
  · next hquote =>
    rw [if_neg hquote]
    exact sign_replace rest' h

end Replace

theorem wordKind_ne_whitespace (word : List Char) : wordKind word ≠ .whitespace := by
  unfold wordKind
  split <;> simp

theorem visible_kind (c : Char) (text : List Char) : (visible c text).1.kind ≠ .whitespace := by
  unfold visible
  split
  · unfold braced
    split
    · simp
    · simp only
      split <;> simp
  split
  · simp
  split
  · exact wordKind_ne_whitespace _
  split
  · simp
  split
  · unfold quoted
    split <;> simp
  · unfold sign
    split
    · split <;> simp
    · simp

theorem getLast?_run {P : Char → Bool} {c : Char} (hc : c ≠ '\n') (hP : P '\n' = false)
    (text : List Char) : (c :: text.takeWhile P).getLast? ≠ some '\n' := by
  intro h
  rcases List.mem_cons.mp (List.mem_of_getLast? h) with hn | hn
  · exact hc hn.symm
  · rw [List.mem_takeWhile_imp hn] at hP
    cases hP

theorem braced_not_break {text : List Char} (hrest : (braced text).2 ≠ []) :
    (braced text).1.text.getLast? ≠ some '\n' := by
  unfold braced at hrest ⊢
  split at hrest
  · exact absurd rfl hrest
  · next close tail hd =>
    have hclose := dropWhile_stop hd
    simp only
    rw [← List.cons_append, List.getLast?_concat]
    rintro ⟨⟩
    exact absurd hclose (by decide)

theorem quoted_not_break (text : List Char) : (quoted text).1.text.getLast? ≠ some '\n' := by
  unfold quoted
  split
  · simp only
    rw [← List.cons_append, List.getLast?_concat]
    decide
  · exact getLast?_run (by decide) (by decide) text

theorem sign_not_break {c : Char} (hc : c ≠ '\n') (text : List Char) :
    (sign c text).1.text.getLast? ≠ some '\n' := by
  unfold sign
  split
  · next y rest =>
    split
    · next hp =>
      simp only [List.getLast?_cons_cons, List.getLast?_singleton, ne_eq, Option.some.injEq]
      rintro rfl
      simp [pairs] at hp
    · simpa using hc
  · simpa using hc

/-- A visible lexeme with text behind it does not end with a line break. -/
theorem visible_not_break {c : Char} {text : List Char} (hc : c ≠ '\n')
    (hrest : (visible c text).2 ≠ []) : (visible c text).1.text.getLast? ≠ some '\n' := by
  unfold visible at hrest ⊢
  by_cases hbrace : c = '\x7b'
  · rw [if_pos hbrace] at hrest ⊢
    exact braced_not_break hrest
  rw [if_neg hbrace]
  split
  · exact getLast?_run hc (by decide) text
  split
  · exact getLast?_run hc (by decide) text
  split
  · exact getLast?_run hc (by decide) text
  split
  · exact quoted_not_break text
  · exact sign_not_break hc text

/-! ## Where a lexeme is cut off -/

/-- The lexeme is the first one of its text and the rest. -/
inductive Cuts (p : Lexeme) (rest : List Char) : Prop where
  | blank : whitespace? (p.text ++ rest) = some (p, rest) → Cuts p rest
  | visible (c : Char) (a : List Char) : p.text = c :: a → whitespace? (p.text ++ rest) = none →
      Lexeme.visible c (a ++ rest) = (p, rest) → Cuts p rest

theorem cuts_of_first {p : Lexeme} {rest text : List Char} {c : Char}
    (ht : p.text ++ rest = c :: text) (h : first c text = (p, rest)) : Cuts p rest := by
  unfold first at h
  cases hw : whitespace? (c :: text) with
  | some found =>
    rw [hw, Option.getD_some] at h
    subst h
    rw [← ht] at hw
    exact .blank hw
  | none =>
    rw [hw, Option.getD_none] at h
    have hne := visible_ne_nil c text
    rw [h] at hne
    obtain ⟨d, a, ha⟩ := List.exists_cons_of_ne_nil hne
    simp only at ha
    rw [ha, List.cons_append] at ht
    obtain ⟨rfl, rfl⟩ := List.cons.inj ht
    refine .visible d a ha ?_ h
    rw [ha, List.cons_append]
    exact hw

theorem Cuts.first {p : Lexeme} {rest : List Char} (h : Cuts p rest) :
    ∃ c text, p.text ++ rest = c :: text ∧ Lexeme.first c text = (p, rest) := by
  cases h with
  | blank hw =>
    have hne : p.text ++ rest ≠ [] := by simp [whitespace?_ne_nil hw]
    obtain ⟨c, text, ht⟩ := List.exists_cons_of_ne_nil hne
    refine ⟨c, text, ht, ?_⟩
    unfold Lexeme.first
    rw [← ht, hw, Option.getD_some]
  | visible c a ha hw hv =>
    rw [ha, List.cons_append] at hw ⊢
    refine ⟨c, a ++ rest, rfl, ?_⟩
    unfold Lexeme.first
    rw [hw, Option.getD_none, hv]

theorem Cuts.text_ne_nil {p : Lexeme} {rest : List Char} (h : Cuts p rest) : p.text ≠ [] := by
  cases h with
  | blank hw => exact whitespace?_ne_nil hw
  | visible c a ha hw hv =>
    rw [ha]
    exact List.cons_ne_nil c a

/-- Only whitespace ends with a line break and has text behind it. -/
theorem Cuts.whitespace_of_break {p : Lexeme} {rest : List Char} (h : Cuts p rest)
    (hne : rest ≠ []) (hp : p.text.getLast? = some '\n') :
    whitespace? (p.text ++ rest) = some (p, rest) := by
  cases h with
  | blank hw => exact hw
  | visible c a ha hw hv =>
    have hc : c ≠ '\n' := by
      rintro rfl
      rw [ha, List.cons_append] at hw
      exact (lineBreak?_none_iff.mp (whitespace?_none_iff.mp hw).2).1 rfl
    have hrest : (Lexeme.visible c (a ++ rest)).2 ≠ [] := by
      rw [hv]
      exact hne
    have hend := visible_not_break hc hrest
    rw [hv] at hend
    exact absurd hp hend

theorem Cuts.of_whitespace {p : Lexeme} {rest : List Char} (h : Cuts p rest)
    (hp : p.kind = .whitespace) : whitespace? (p.text ++ rest) = some (p, rest) := by
  cases h with
  | blank hw => exact hw
  | visible c a ha hw hv =>
    have hkind := visible_kind c (a ++ rest)
    rw [hv] at hkind
    exact absurd hp hkind

/-- Behind the line break that ends it, nothing matters to whitespace. -/
theorem Cuts.after_break {p : Lexeme} {rest : List Char} (h : Cuts p rest)
    (hkind : p.kind = .whitespace) (hp : p.text.getLast? = some '\n') (rest' : List Char) :
    Cuts p rest' := by
  obtain ⟨hkind, run, hrun, ⟨ending, he, htext⟩ | ⟨-, htext, -⟩⟩ :=
    whitespace?_cases (h.of_whitespace hkind)
  · have hnew := whitespace?_broken hrun he rest'
    rw [← htext, ← hkind] at hnew
    exact .blank hnew
  · rw [htext] at hp
    have hblank := hrun _ (List.mem_of_getLast? hp)
    exact absurd hblank (by decide)

/-- Up to a line break behind it, everything is the same to a lexeme. -/
theorem Cuts.before_break {p : Lexeme} {b rest : List Char} (h : Cuts p (b ++ rest))
    (hb : b.getLast? = some '\n') (rest' : List Char) : Cuts p (b ++ rest') := by
  have hbne : b ≠ [] := by
    rintro rfl
    cases hb
  cases h with
  | blank hw =>
    obtain ⟨hkind, run, hrun, ⟨ending, he, htext⟩ | ⟨hne, htext, hnone⟩⟩ := whitespace?_cases hw
    · have hnew := whitespace?_broken hrun he (b ++ rest')
      rw [← htext, ← hkind] at hnew
      exact .blank hnew
    · have hnew := whitespace?_inside hrun hne (whitespace?_none_replace hb hnone rest')
      rw [← htext, ← hkind] at hnew
      exact .blank hnew
  | visible c a ha hw hv =>
    have hlast : (p.text ++ b).getLast? = some '\n' := by
      rw [List.getLast?_append, hb]
      rfl
    rw [← List.append_assoc] at hw
    have hnone := whitespace?_none_replace hlast hw rest'
    rw [List.append_assoc] at hnone
    apply Cuts.visible c a ha hnone
    obtain ⟨x, b, rfl⟩ := List.exists_cons_of_ne_nil hbne
    obtain ⟨kind, text⟩ := p
    simp only at ha
    subst ha
    exact visible_replace _ hv

/-! ## Texts that are cut into these lexemes -/

/-- The text of the lexemes. -/
def joined (parts : List Lexeme) : List Char := parts.flatMap Lexeme.text

@[simp] theorem joined_cons (p : Lexeme) (parts : List Lexeme) :
    joined (p :: parts) = p.text ++ joined parts := rfl

theorem joined_append (A B : List Lexeme) : joined (A ++ B) = joined A ++ joined B := by
  simp [joined]

/-- These are the lexemes of their own text. -/
def Lexed (parts : List Lexeme) : Prop := ofText (joined parts) = parts

theorem lexed_cons {p : Lexeme} {parts : List Lexeme} :
    Lexed (p :: parts) ↔ Cuts p (joined parts) ∧ Lexed parts := by
  unfold Lexed
  rw [joined_cons]
  constructor
  · intro h
    rcases ht : p.text ++ joined parts with _ | ⟨c, text⟩
    · rw [ht, ofText] at h
      cases h
    · rw [ht, ofText] at h
      obtain ⟨hp, hparts⟩ := List.cons.inj h
      have happ := first_append c text
      rw [hp, ← ht] at happ
      have hrest := List.append_cancel_left happ
      rw [hrest] at hparts
      exact ⟨cuts_of_first ht (Prod.ext hp hrest), hparts⟩
  · rintro ⟨hcuts, hparts⟩
    obtain ⟨c, text, ht, hf⟩ := hcuts.first
    rw [ht, ofText, hf, hparts]

theorem lexed_ofText (text : List Char) : joined (ofText text) = text ∧ Lexed (ofText text) := by
  have hjoined : joined (ofText text) = text := by
    fun_induction ofText text with
    | case1 => rfl
    | case2 c text ih => rw [joined_cons, ih, first_append]
  refine ⟨hjoined, ?_⟩
  unfold Lexed
  rw [hjoined]

theorem Lexed.suffix {A B : List Lexeme} (h : Lexed (A ++ B)) : Lexed B := by
  induction A with
  | nil => exact h
  | cons p A ih => exact ih (lexed_cons.mp h).2

/-- Behind whitespace with a line break at its end the lexemes can be replaced by any others. -/
theorem Lexed.replace_behind {A B B' : List Lexeme} (h : Lexed (A ++ B)) (h' : Lexed B')
    (hA : ∀ p ∈ A.getLast?, p.kind = .whitespace ∧ p.text.getLast? = some '\n') :
    Lexed (A ++ B') := by
  induction A with
  | nil => exact h'
  | cons p A ih =>
    rw [List.cons_append, lexed_cons, joined_append] at h ⊢
    cases A with
    | nil =>
      obtain ⟨hkind, hbreak⟩ := hA p rfl
      exact ⟨h.1.after_break hkind hbreak _, h'⟩
    | cons q A =>
      have hlast : ∀ r ∈ (q :: A).getLast?, r.kind = .whitespace ∧ r.text.getLast? = some '\n' := by
        intro r hr
        exact hA r (by rw [List.getLast?_cons_cons]; exact hr)
      have hbreak : (joined (q :: A)).getLast? = some '\n' := by
        obtain ⟨front, r, hr⟩ := (List.eq_nil_or_concat (q :: A)).resolve_left (by simp)
        rw [List.concat_eq_append] at hr
        rw [hr, joined_append, List.getLast?_append]
        have hr' := (hlast r (by rw [hr, List.getLast?_concat]; rfl)).2
        simp [joined, hr']
      exact ⟨h.1.before_break hbreak _, ih h.2 hlast⟩

/-- Behind a line break with text behind it the lexemes can be replaced by any others. -/
theorem Lexed.replace {A B B' : List Lexeme} (h : Lexed (A ++ B)) (h' : Lexed B')
    (hB : joined B ≠ []) (hA : ∀ p ∈ A.getLast?, p.text.getLast? = some '\n') :
    Lexed (A ++ B') := by
  apply h.replace_behind h'
  intro p hp
  obtain ⟨front, rfl⟩ := List.getLast?_eq_some_iff.mp hp
  rw [List.append_assoc] at h
  have hbreak := hA p hp
  have hcuts := (lexed_cons.mp h.suffix).1
  exact ⟨(whitespace?_cases (hcuts.whitespace_of_break hB hbreak)).1, hbreak⟩

theorem Cuts.of_visible {p : Lexeme} {rest : List Char} (h : Cuts p rest)
    (hp : p.kind ≠ .whitespace) : whitespace? (p.text ++ rest) = none := by
  cases h with
  | blank hw => exact absurd (whitespace?_cases hw).1 hp
  | visible c a ha hw hv => exact hw

/-- Whitespace ends with its only line break, or it has none and something visible follows. -/
theorem Cuts.whitespace_break {p : Lexeme} {rest : List Char} (h : Cuts p rest)
    (hp : p.kind = .whitespace) :
    p.text.getLast? = some '\n' ∨ ('\n' ∉ p.text ∧ whitespace? rest = none) := by
  obtain ⟨-, run, hrun, ⟨ending, he, htext⟩ | ⟨-, htext, hnone⟩⟩ :=
    whitespace?_cases (h.of_whitespace hp)
  · left
    rw [htext, List.getLast?_append]
    rcases he with rfl | rfl <;> rfl
  · right
    refine ⟨?_, hnone⟩
    intro hn
    rw [htext] at hn
    exact absurd (hrun _ hn) (by decide)

end Lexeme

end LineLayout
