-- A listing loses nothing but the switches of the tokens. Each part of a line can be read off
-- the front of whatever follows it: a number stops at the first character that is no digit, a
-- label at a space, and a quoted text at the first quote that no backslash hides. So two
-- listings are the same exactly when their tokens agree in all that a line shows.
import LineLayout.Listing
import LineLayout.Proofs.Lexemes
import Mathlib.Data.List.Forall2

namespace LineLayout

/-! ## Parts that tell where they stop -/

/-- What is written for a value can be read off the front of any text, up to `same`. -/
def Legible {α : Type} (same : α → α → Prop) (write : α → List Char) : Prop :=
  ∀ ⦃a b : α⦄ ⦃r s : List Char⦄, write a ++ r = write b ++ s → same a b ∧ r = s

/-- A part without `stop` is legible in front of it. -/
theorem legible_stopped {α : Type} {write : α → List Char} {stop : Char}
    (hinj : Function.Injective write) (hstop : ∀ a, stop ∉ write a) :
    Legible Eq fun a => write a ++ [stop] := by
  intro a b r s h
  have hrun : ∀ a, ∀ x ∈ write a, (x != stop) = true := by
    intro a x hx
    rw [bne_iff_ne]
    rintro rfl
    exact hstop a hx
  have hend : ∀ r : List Char, ∀ x ∈ (stop :: r).head?, (x != stop) = false := by
    intro r x hx
    cases hx
    simp
  simp only [List.append_assoc, List.singleton_append] at h
  obtain ⟨hta, hda⟩ := takeWhile_stop (hrun a) (hend r)
  obtain ⟨htb, hdb⟩ := takeWhile_stop (hrun b) (hend s)
  rw [h, htb] at hta
  rw [h, hdb] at hda
  exact ⟨hinj hta.symm, (List.cons.inj hda).2.symm⟩

/-- Parts one after the other are legible in front of a character that none of them starts
with. -/
theorem Legible.flatMap {α : Type} {same : α → α → Prop} {write : α → List Char} {stop : Char}
    (hread : Legible same write) (hfirst : ∀ a, ∃ c w, write a = c :: w ∧ c ≠ stop) :
    Legible (List.Forall₂ same) fun xs => xs.flatMap write ++ [stop] := by
  intro xs ys r s h
  induction xs generalizing ys with
  | nil =>
    cases ys with
    | nil => exact ⟨.nil, by simpa using h⟩
    | cons y ys =>
      obtain ⟨c, w, hw, hc⟩ := hfirst y
      simp only [List.flatMap_nil, List.nil_append, List.flatMap_cons, hw, List.cons_append,
        List.cons.injEq] at h
      exact absurd h.1.symm hc
  | cons x xs ih =>
    cases ys with
    | nil =>
      obtain ⟨c, w, hw, hc⟩ := hfirst x
      simp only [List.flatMap_nil, List.nil_append, List.flatMap_cons, hw, List.cons_append,
        List.cons.injEq] at h
      exact absurd h.1 hc
    | cons y ys =>
      simp only [List.flatMap_cons, List.append_assoc] at h ih
      obtain ⟨hxy, hrest⟩ := hread h
      obtain ⟨hall, hrs⟩ := ih hrest
      exact ⟨.cons hxy hall, hrs⟩

/-! ## Numbers -/

theorem digitChar_inj : ∀ m < 16, ∀ n < 16, m.digitChar = n.digitChar → m = n := by decide

theorem exists_digit_of_mem {b n : Nat} (hb : 1 < b) {c : Char} (hc : c ∈ Nat.toDigits b n) :
    ∃ d < b, c = d.digitChar := by
  induction n using Nat.strongRecOn with
  | ind n ih =>
    rw [Nat.toDigits_eq_if hb] at hc
    split at hc
    · next hn => exact ⟨n, hn, List.mem_singleton.mp hc⟩
    · next hn =>
      rcases List.mem_append.mp hc with hfront | hlast
      · exact ih _ (Nat.div_lt_self (by omega) hb) hfront
      · exact ⟨n % b, Nat.mod_lt n (by omega), List.mem_singleton.mp hlast⟩

theorem toDigits_injective {b : Nat} (hb : 1 < b) (hb' : b ≤ 16) :
    Function.Injective (Nat.toDigits b) := by
  intro m
  induction m using Nat.strongRecOn with
  | ind m ih =>
    intro n h
    have hsize := congrArg List.length h
    rw [Nat.toDigits_eq_if hb, Nat.toDigits_eq_if (n := n) hb] at h hsize
    have hpos : ∀ k, 0 < (Nat.toDigits b k).length := fun k => Nat.length_toDigits_pos
    split at h <;> split at h
    · next hm hn => exact digitChar_inj m (by omega) n (by omega) (List.cons.inj h).1
    · next hm hn =>
      have := hpos (n / b)
      simp [hm, hn] at hsize
    · next hm hn =>
      have := hpos (m / b)
      simp [hm, hn] at hsize
    · next hm hn =>
      obtain ⟨hfront, hlast⟩ := List.append_inj' h rfl
      have hdiv := ih _ (Nat.div_lt_self (by omega) hb) hfront
      have hlt : ∀ k, k % b < 16 := fun k => Nat.lt_of_lt_of_le (Nat.mod_lt k (by omega)) hb'
      have hmod := digitChar_inj _ (hlt m) _ (hlt n) (List.cons.inj hlast).1
      rw [← Nat.div_add_mod m b, ← Nat.div_add_mod n b, hdiv, hmod]

/-- A number is legible in front of a character that is no digit. -/
theorem legible_toDigits {b : Nat} (hb : 1 < b) (hb' : b ≤ 16) (stop : Char)
    (hstop : ∀ d < 16, stop ≠ d.digitChar) :
    Legible Eq fun n => Nat.toDigits b n ++ [stop] := by
  apply legible_stopped (toDigits_injective hb hb')
  intro n hn
  obtain ⟨d, hd, hc⟩ := exists_digit_of_mem hb hn
  exact hstop d (by omega) hc

/-! ## Quoted texts -/

namespace Text

/-- The characters with a short form, and the mark that stands behind the backslash. -/
def shortForms : List (Char × Char) :=
  [('"', '"'), ('\\', '\\'), ('\x00', '0'), ('\t', 't'), ('\r', 'r'), ('\n', 'n')]

/-- A character is written as it is, by its short form or by its number. -/
theorem quoteChar_cases (c : Char) :
    (quoteChar c = [c] ∧ c ≠ '\\' ∧ c ≠ '"') ∨
      (∃ mark, (c, mark) ∈ shortForms ∧ quoteChar c = ['\\', mark]) ∨
      quoteChar c = byNumber c := by
  by_cases hshort : ∃ mark, (c, mark) ∈ shortForms
  · obtain ⟨mark, hmark⟩ := hshort
    refine .inr (.inl ⟨mark, hmark, ?_⟩)
    simp only [shortForms, List.mem_cons, Prod.mk.injEq, List.not_mem_nil, or_false] at hmark
    rcases hmark with ⟨rfl, rfl⟩ | ⟨rfl, rfl⟩ | ⟨rfl, rfl⟩ | ⟨rfl, rfl⟩ | ⟨rfl, rfl⟩ | ⟨rfl, rfl⟩ <;>
      rfl
  · simp only [shortForms, List.mem_cons, Prod.mk.injEq, List.not_mem_nil, or_false, exists_or,
      exists_and_left, exists_eq, and_true, not_or] at hshort
    obtain ⟨hquote, hback, hnul, htab, hreturn, hfeed⟩ := hshort
    have heither : quoteChar c = [c] ∨ quoteChar c = byNumber c := by
      rw [quoteChar, if_neg hquote, if_neg hback, if_neg hnul, if_neg htab, if_neg hreturn,
        if_neg hfeed]
      split
      · exact .inr rfl
      split
      · exact .inl rfl
      split
      · exact .inr rfl
      · exact .inl rfl
    exact heither.imp (fun h => ⟨h, hback, hquote⟩) .inr

theorem eq_of_shortForms {c d mark : Char} (hc : (c, mark) ∈ shortForms)
    (hd : (d, mark) ∈ shortForms) : c = d := by
  simp only [shortForms, List.mem_cons, Prod.mk.injEq, List.not_mem_nil, or_false] at hc hd
  rcases hc with ⟨rfl, rfl⟩ | ⟨rfl, rfl⟩ | ⟨rfl, rfl⟩ | ⟨rfl, rfl⟩ | ⟨rfl, rfl⟩ | ⟨rfl, rfl⟩ <;>
    simp_all

theorem legible_byNumber : Legible Eq byNumber := by
  intro c d r s h
  simp only [byNumber, List.cons_append, List.cons.injEq, true_and] at h
  have hread := legible_toDigits (b := 16) (by omega) (by omega) '\x7d' (by decide)
  obtain ⟨hn, hrest⟩ := hread h
  exact ⟨Char.toNat_inj.mp hn, hrest⟩

/-- Whatever the set of hidden characters is, a character can be read back. -/
theorem legible_quoteChar : Legible Eq quoteChar := by
  intro c d r s h
  have hmark : ∀ {c mark : Char}, (c, mark) ∈ shortForms → mark ≠ 'u' := by
    rintro c mark hc rfl
    simp [shortForms] at hc
  rcases quoteChar_cases c with ⟨hc, hback, -⟩ | ⟨mark, hc, hform⟩ | hc <;>
    rcases quoteChar_cases d with ⟨hd, hback', -⟩ | ⟨mark', hd, hform'⟩ | hd
  · rw [hc, hd] at h
    exact List.cons.inj h
  · rw [hc, hform'] at h
    exact absurd (List.cons.inj h).1 hback
  · rw [hc, hd] at h
    exact absurd (List.cons.inj h).1 hback
  · rw [hform, hd] at h
    exact absurd (List.cons.inj h).1.symm hback'
  · rw [hform, hform'] at h
    simp only [List.cons_append, List.cons.injEq, true_and, List.nil_append] at h
    obtain ⟨rfl, hrest⟩ := h
    exact ⟨eq_of_shortForms hc hd, hrest⟩
  · rw [hform, hd] at h
    simp only [byNumber, List.cons_append, List.cons.injEq, true_and] at h
    exact absurd h.1 (hmark hc)
  · rw [hc, hd] at h
    exact absurd (List.cons.inj h).1.symm hback'
  · rw [hc, hform'] at h
    simp only [byNumber, List.cons_append, List.cons.injEq, true_and] at h
    exact absurd h.1.symm (hmark hd)
  · rw [hc, hd] at h
    exact legible_byNumber h

theorem quoteChar_first (c : Char) : ∃ x w, quoteChar c = x :: w ∧ x ≠ '"' := by
  rcases quoteChar_cases c with ⟨hc, -, hquote⟩ | ⟨mark, -, hform⟩ | hc
  · exact ⟨c, [], hc, hquote⟩
  · exact ⟨'\\', [mark], hform, by simp⟩
  · exact ⟨'\\', _, hc, by simp⟩

/-- A text between quotes is legible, whatever stands in it and behind it. -/
theorem legible_quote : Legible Eq fun text => (quote text).toList := by
  intro a b r s h
  simp only [quote, String.toList_ofList, List.cons_append, List.cons.injEq, true_and] at h
  obtain ⟨hchars, hrest⟩ := legible_quoteChar.flatMap quoteChar_first h
  exact ⟨String.toList_inj.mp (List.forall₂_eq_eq_eq ▸ hchars), hrest⟩

end Text

/-! ## Lines of a listing -/

theorem legible_label : Legible Eq fun kind : Kind => kind.label.toList ++ [' '] := by
  apply legible_stopped
  · intro k l h
    cases k <;> cases l <;> simp_all [Kind.label]
  · intro k
    cases k <;> simp [Kind.label]

/-- Two tokens agree in all that a listing shows, which is all but their switches. -/
structure Token.LooksLike (t u : Token) : Prop where
  row : t.row = u.row
  col : t.col = u.col
  kind : t.kind = u.kind
  beginsLine : t.beginsLine = u.beginsLine
  endsLine : t.endsLine = u.endsLine
  text : t.text = u.text

theorem Token.listingLine_toList (t : Token) :
    t.listingLine.toList = (Nat.toDigits 10 t.row ++ [':']) ++ ((Nat.toDigits 10 t.col ++ [' ']) ++
      ((t.kind.label.toList ++ [' ']) ++ (t.marks.toList ++
        (' ' :: ((Text.quote t.text).toList ++ ['\n']))))) := by
  simp [Token.listingLine, Nat.toString_eq_repr, Nat.toList_repr]

theorem Token.marks_toList (t : Token) :
    t.marks.toList = [if t.beginsLine then 'B' else '-', if t.endsLine then 'E' else '-'] := by
  cases hb : t.beginsLine <;> cases he : t.endsLine <;> simp [Token.marks, hb, he]

theorem flag_of_mark {mark : Char} (hmark : mark ≠ '-') {a b : Bool}
    (h : (if a then mark else '-') = if b then mark else '-') : a = b := by
  cases a <;> cases b <;> simp_all [eq_comm]

theorem legible_listingLine : Legible Token.LooksLike fun t => t.listingLine.toList := by
  intro t u r s h
  have hnumber := legible_toDigits (b := 10) (by omega) (by omega)
  simp only [Token.listingLine_toList, List.append_assoc _ _ r, List.append_assoc _ _ s] at h
  obtain ⟨hrow, h⟩ := hnumber ':' (by decide) h
  obtain ⟨hcol, h⟩ := hnumber ' ' (by decide) h
  obtain ⟨hkind, h⟩ := legible_label h
  simp only [Token.marks_toList, List.cons_append, List.nil_append, List.cons.injEq, true_and] at h
  obtain ⟨hbegins, hends, h⟩ := h
  rw [List.append_assoc, List.append_assoc] at h
  obtain ⟨htext, h⟩ := Text.legible_quote h
  have hbegins := flag_of_mark (by decide) hbegins
  have hends := flag_of_mark (by decide) hends
  exact ⟨⟨hrow, hcol, hkind, hbegins, hends, htext⟩, List.append_cancel_left h⟩

theorem Token.LooksLike.listingLine {t u : Token} (h : t.LooksLike u) :
    t.listingLine = u.listingLine := by
  simp only [Token.listingLine, Token.marks, h.row, h.col, h.kind, h.beginsLine, h.endsLine, h.text]

/-- A line starts with a digit. -/
theorem Token.listingLine_first (t : Token) :
    ∃ c w, t.listingLine.toList = c :: w ∧ c ≠ '\n' := by
  obtain ⟨c, w, hw⟩ := List.exists_cons_of_ne_nil (Nat.toDigits_ne_nil (n := t.row) (b := 10))
  have hdigit := Nat.isDigit_of_mem_toDigits (b := 10) (n := t.row) (c := c) (by omega) (by omega)
    (by simp [hw])
  refine ⟨c, _, by rw [Token.listingLine_toList, hw, List.cons_append, List.cons_append], ?_⟩
  rintro rfl
  simp at hdigit

/-! ## Listings -/

/-- The lines of some tokens, one after the other. -/
def listingLines (tokens : List Token) : List Char :=
  tokens.flatMap fun t => t.listingLine.toList

theorem listingLines_inj {ts us : List Token} (h : listingLines ts = listingLines us) :
    List.Forall₂ Token.LooksLike ts us := by
  have hstop : listingLines ts ++ ['\n'] ++ [] = listingLines us ++ ['\n'] ++ [] := by rw [h]
  exact (legible_listingLine.flatMap Token.listingLine_first hstop).1

theorem listingLines_congr {ts us : List Token} (h : List.Forall₂ Token.LooksLike ts us) :
    listingLines ts = listingLines us := by
  unfold listingLines
  induction h with
  | nil => rfl
  | cons hhead _ ih => rw [List.flatMap_cons, List.flatMap_cons, hhead.listingLine, ih]

theorem TokenChain.listing_toList (c : TokenChain) : c.listing.toList = listingLines c.toList := by
  simp [TokenChain.listing, listingLines, List.flatMap_map]

/-- Two chains have the same listing exactly when their tokens look alike, one by one. -/
theorem listings_tell_tokens_apart (c d : TokenChain) :
    c.listing = d.listing ↔ List.Forall₂ Token.LooksLike c.toList d.toList := by
  rw [← String.toList_inj, c.listing_toList, d.listing_toList]
  exact ⟨listingLines_inj, listingLines_congr⟩

end LineLayout
