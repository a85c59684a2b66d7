-- The nesting over whole runs. A walker opens and closes levels and starts lines, in any order. What
-- the nesting says after that can be read off the moves alone: which pushes no pop has matched, and
-- how far the level went down on the line. The nesting keeps a level and a lowest level beside its
-- entries, and neither ever drifts from what the moves say.
import LineLayout.LayoutRun
import Mathlib.Data.List.Infix
import Mathlib.Order.Bounds.Basic

namespace LineLayout

/-! ## Moves -/

/-- What a walker does to the nesting. -/
inductive Move where
  | push (kind : Kind)
  | pop
  | popForNextLine
  | startLine
  deriving DecidableEq

namespace Move

def opens : Move → Bool
  | .push _ => true
  | _ => false

def closes : Move → Bool
  | .pop | .popForNextLine => true
  | _ => false

end Move

namespace Nesting

def move (n : Nesting) : Move → Nesting
  | .push kind => n.push kind
  | .pop => n.pop.2
  | .popForNextLine => n.popForNextLine.2
  | .startLine => n.startLine

/-- The nesting after these moves. -/
def run (moves : List Move) : Nesting := moves.foldl move empty

end Nesting

/-! ## What the moves say -/

/-- A level that was open before these moves is open after them: at no point have they closed more
than they opened. -/
def StaysOpen (moves : List Move) : Prop :=
  ∀ front, front <+: moves → front.countP Move.closes ≤ front.countP Move.opens

instance decidableStaysOpen (moves : List Move) : Decidable (StaysOpen moves) :=
  decidable_of_iff (∀ front ∈ moves.inits, front.countP Move.closes ≤ front.countP Move.opens)
    (by simp only [List.mem_inits]; rfl)

/-- The kinds of the pushes that no pop has matched, the earliest first. -/
def unmatched : List Move → List Kind
  | [] => []
  | .push kind :: rest => if StaysOpen rest then kind :: unmatched rest else unmatched rest
  | _ :: rest => unmatched rest

/-- How many of the unmatched pushes count: all but the parenthesised continuations. -/
def openLevel (moves : List Move) : Nat :=
  (unmatched moves).countP fun kind => kind ≠ .virtualBracket

/-- The levels that a line has seen: the one at its start, and the ones right behind each pop that
closed a level. A pop for the next line does not count. -/
def lineLevels (before line : List Move) : Set Nat :=
  {level | level = openLevel before ∨ ∃ P Q, line = P ++ .pop :: Q ∧
    unmatched (before ++ P) ≠ [] ∧ level = openLevel (before ++ P ++ [.pop])}

/-- A line can begin behind these moves: they are none, or the last one starts a line. -/
def BeforeLine (before : List Move) : Prop :=
  before = [] ∨ before.getLast? = some .startLine

/-! ## The entries -/

/-- How many levels that were open before these moves they close. -/
def closesBelow : List Move → Nat
  | [] => 0
  | .push _ :: rest => closesBelow rest - 1
  | .pop :: rest => closesBelow rest + 1
  | .popForNextLine :: rest => closesBelow rest + 1
  | .startLine :: rest => closesBelow rest

theorem closesBelow_le_iff {moves : List Move} {n : Nat} : closesBelow moves ≤ n ↔
    ∀ front, front <+: moves → front.countP Move.closes ≤ front.countP Move.opens + n := by
  induction moves generalizing n with
  | nil => simp [closesBelow]
  | cons m rest ih =>
    have hcons : (∀ front, front <+: m :: rest →
          front.countP Move.closes ≤ front.countP Move.opens + n) ↔
        ∀ front, front <+: rest →
          (m :: front).countP Move.closes ≤ (m :: front).countP Move.opens + n := by
      constructor
      · intro h front hf
        exact h _ (List.prefix_cons_iff.mpr (Or.inr ⟨front, rfl, hf⟩))
      · intro h front hf
        rcases List.prefix_cons_iff.mp hf with rfl | ⟨t, rfl, ht⟩
        · simp
        · exact h t ht
    have hclose : closesBelow rest + 1 ≤ n ↔ ∀ front, front <+: rest →
        front.countP Move.closes + 1 ≤ front.countP Move.opens + n := by
      cases n with
      | zero =>
        refine ⟨fun h => by omega, fun h => ?_⟩
        have hnone := h [] List.nil_prefix
        simp at hnone
      | succ k =>
        rw [Nat.add_le_add_iff_right, ih]
        exact forall_congr' fun front => imp_congr_right fun _ => by omega
    rw [hcons]
    cases m with
    | push kind =>
      rw [closesBelow, Nat.sub_le_iff_le_add, ih]
      simp [List.countP_cons, Move.closes, Move.opens, Nat.add_assoc, Nat.add_comm 1]
    | pop => simpa [closesBelow, List.countP_cons, Move.closes, Move.opens] using hclose
    | popForNextLine => simpa [closesBelow, List.countP_cons, Move.closes, Move.opens] using hclose
    | startLine => simpa [closesBelow, List.countP_cons, Move.closes, Move.opens] using ih

theorem staysOpen_iff {moves : List Move} : StaysOpen moves ↔ closesBelow moves = 0 := by
  rw [← Nat.le_zero, closesBelow_le_iff]
  rfl

namespace Nesting

theorem pop_fst (n : Nesting) : n.pop.1 = n.entries.head? := by
  unfold pop
  cases n.entries <;> rfl

theorem entries_pop (n : Nesting) : n.pop.2.entries = n.entries.tail := by
  unfold pop
  split
  · next h => simp [h]
  · next h => simp [h]

/-- The moves leave what was open before, less what they closed of it, below their own unmatched
pushes. -/
theorem entries_foldl (moves : List Move) (n : Nesting) : (moves.foldl move n).entries =
    (unmatched moves).reverse ++ n.entries.drop (closesBelow moves) := by
  induction moves generalizing n with
  | nil => rfl
  | cons m rest ih =>
    rw [List.foldl_cons, ih]
    cases m with
    | push kind =>
      have hentries : (n.move (.push kind)).entries = kind :: n.entries := rfl
      rw [hentries, unmatched, closesBelow]
      by_cases hopen : StaysOpen rest
      · simp [hopen, staysOpen_iff.mp hopen]
      · obtain ⟨k, hk⟩ := Nat.exists_eq_succ_of_ne_zero fun h => hopen (staysOpen_iff.mpr h)
        simp [hopen, hk]
    | pop =>
      have hentries : (n.move .pop).entries = n.entries.tail := n.entries_pop
      rw [hentries, ← List.drop_one, List.drop_drop, Nat.add_comm]
      rfl
    | popForNextLine =>
      have hentries : (n.move .popForNextLine).entries = n.entries.tail := n.entries_pop
      rw [hentries, ← List.drop_one, List.drop_drop, Nat.add_comm]
      rfl
    | startLine => rfl

theorem entries_run (moves : List Move) : (run moves).entries = (unmatched moves).reverse := by
  unfold run
  rw [entries_foldl]
  simp [empty]

theorem run_concat (moves : List Move) (m : Move) : run (moves ++ [m]) = (run moves).move m := by
  simp [run]

/-! ## The level -/

/-- The level counts the entries that weigh something. -/
def Weighed (n : Nesting) : Prop :=
  n.level = n.entries.countP fun kind => kind ≠ .virtualBracket

theorem weight_eq (kind : Kind) : kind.weight = if kind = .virtualBracket then 0 else 1 := by
  cases kind <;> rfl

/-- The innermost entry weighs no more than the level, so closing it never goes below zero. -/
theorem Weighed.cons {n : Nesting} (h : n.Weighed) {kind : Kind} {entries : List Kind}
    (he : n.entries = kind :: entries) :
    n.level = kind.weight + entries.countP fun kind => kind ≠ .virtualBracket := by
  rw [h, he, List.countP_cons, weight_eq]
  by_cases hk : kind = .virtualBracket
  · simp [hk]
  · simp [hk, Nat.add_comm]

theorem Weighed.pop {n : Nesting} (h : n.Weighed) : n.pop.2.Weighed := by
  unfold Nesting.pop
  split
  · exact h
  · next kind entries he =>
    have hlevel := h.cons he
    unfold Weighed
    simp only
    omega

theorem Weighed.move {n : Nesting} (h : n.Weighed) (m : Move) : (n.move m).Weighed := by
  cases m with
  | push kind =>
    unfold Weighed at h ⊢
    simp only [Nesting.move, Nesting.push, List.countP_cons, h, weight_eq]
    by_cases hk : kind = .virtualBracket
    · simp [hk]
    · simp [hk]
  | pop => exact h.pop
  | popForNextLine => exact h.pop
  | startLine => exact h

theorem weighed_run (moves : List Move) : (run moves).Weighed := by
  induction moves using List.reverseRecOn with
  | nil => rfl
  | append_singleton moves m ih =>
    rw [run_concat]
    exact ih.move m

theorem level_run (moves : List Move) : (run moves).level = openLevel moves := by
  rw [weighed_run moves, entries_run, List.countP_reverse]
  rfl

/-! ## The lowest level -/

theorem move_pop_of_empty {n : Nesting} (h : n.entries = []) : n.move .pop = n := by
  simp [move, pop, h]

theorem lowest_pop {n : Nesting} (h : n.entries ≠ []) :
    (n.move .pop).lowest = min n.lowest (n.move .pop).level := by
  obtain ⟨kind, entries, he⟩ := List.exists_cons_of_ne_nil h
  simp [move, pop, he]

theorem lowest_move_le (n : Nesting) {m : Move} (hm : m ≠ .startLine) :
    (n.move m).lowest ≤ n.lowest := by
  cases m with
  | push kind => exact Nat.le_refl _
  | popForNextLine => exact Nat.le_refl _
  | startLine => exact absurd rfl hm
  | pop =>
    by_cases he : n.entries = []
    · rw [move_pop_of_empty he]
    · rw [lowest_pop he]
      exact Nat.min_le_left _ _

theorem lowest_run_le {front rest : List Move} (h : .startLine ∉ rest) :
    (run (front ++ rest)).lowest ≤ (run front).lowest := by
  induction rest using List.reverseRecOn with
  | nil => simp
  | append_singleton rest m ih =>
    rw [List.mem_append, List.mem_singleton, not_or] at h
    rw [← List.append_assoc, run_concat]
    exact Nat.le_trans (lowest_move_le _ (Ne.symm h.2)) (ih h.1)

end Nesting

theorem mem_lineLevels_concat {before line : List Move} {m : Move} {level : Nat} :
    level ∈ lineLevels before (line ++ [m]) ↔ level ∈ lineLevels before line ∨
      m = .pop ∧ unmatched (before ++ line) ≠ [] ∧
        level = openLevel (before ++ line ++ [.pop]) := by
  constructor
  · rintro (hstart | ⟨P, Q, hsplit, hopen, hlevel⟩)
    · exact Or.inl (Or.inl hstart)
    · rcases List.eq_nil_or_concat Q with rfl | ⟨Q, last, rfl⟩
      · obtain ⟨rfl, hm⟩ := List.append_inj' hsplit rfl
        cases hm
        exact Or.inr ⟨rfl, hopen, hlevel⟩
      · rw [List.concat_eq_append, ← List.cons_append, ← List.append_assoc] at hsplit
        obtain ⟨rfl, -⟩ := List.append_inj' hsplit rfl
        exact Or.inl (Or.inr ⟨P, Q, rfl, hopen, hlevel⟩)
  · rintro ((hstart | ⟨P, Q, rfl, hopen, hlevel⟩) | ⟨rfl, hopen, hlevel⟩)
    · exact Or.inl hstart
    · exact Or.inr ⟨P, Q ++ [m], by simp, hopen, hlevel⟩
    · exact Or.inr ⟨line, [], rfl, hopen, hlevel⟩

namespace Nesting

theorem entries_run_eq_nil {moves : List Move} :
    (run moves).entries = [] ↔ unmatched moves = [] := by
  rw [entries_run, List.reverse_eq_nil_iff]

/-- A line begins at the level that holds there. -/
theorem lowest_run_of_beforeLine {before : List Move} (h : BeforeLine before) :
    (run before).lowest = openLevel before := by
  rw [← level_run]
  rcases h with rfl | hlast
  · rfl
  · obtain ⟨A, rfl⟩ := List.getLast?_eq_some_iff.mp hlast
    rw [run_concat]
    rfl

/-- The lowest level of a line is the least of the levels that it has seen. The induction goes along
the line: only a pop that closes a level adds one. -/
theorem isLeast_lowest_run {before line : List Move} (hb : BeforeLine before)
    (hl : .startLine ∉ line) : IsLeast (lineLevels before line) (run (before ++ line)).lowest := by
  induction line using List.reverseRecOn with
  | nil =>
    have hlevels : lineLevels before [] = {openLevel before} := by
      ext level
      simp [lineLevels]
    rw [hlevels, List.append_nil, lowest_run_of_beforeLine hb]
    exact isLeast_singleton
  | append_singleton line m ih =>
    rw [List.mem_append, List.mem_singleton, not_or] at hl
    have hleast := ih hl.1
    have hsame : ¬ (m = .pop ∧ unmatched (before ++ line) ≠ []) →
        lineLevels before (line ++ [m]) = lineLevels before line := by
      intro hno
      ext level
      rw [mem_lineLevels_concat]
      exact or_iff_left fun hadd => hno ⟨hadd.1, hadd.2.1⟩
    rw [← List.append_assoc, run_concat]
    cases m with
    | push kind =>
      rw [hsame (by simp)]
      exact hleast
    | popForNextLine =>
      rw [hsame (by simp)]
      exact hleast
    | startLine => exact absurd rfl hl.2
    | pop =>
      by_cases hopen : unmatched (before ++ line) = []
      · rw [hsame (by simp [hopen]), move_pop_of_empty (entries_run_eq_nil.mpr hopen)]
        exact hleast
      · have hlevels : lineLevels before (line ++ [.pop]) =
            insert (openLevel (before ++ line ++ [.pop])) (lineLevels before line) := by
          ext level
          rw [mem_lineLevels_concat, Set.mem_insert_iff]
          simp [hopen, or_comm]
        rw [hlevels, lowest_pop (mt entries_run_eq_nil.mp hopen), ← run_concat, level_run,
          Nat.min_comm]
        exact hleast.insert _

end Nesting

/-! ## A whole run -/

/-- What the moves of a walker say about the run after them. The open levels are the unmatched
pushes, the latest first, and closing a level gives back the latest one. The lowest level is the
least that the line has seen, and gives its column as long as that fits in a word. The run may end
exactly when every push has been matched. -/
structure LayoutRun.Tracks (r : LayoutRun) (moves : List Move) : Prop where
  entries : r.nesting.entries = (unmatched moves).reverse
  closed : r.nesting.pop.1 = (unmatched moves).getLast? ∧
    r.nesting.popForNextLine.1 = (unmatched moves).getLast?
  level : r.nesting.level = openLevel moves
  covered : ∀ kind ∈ r.nesting.top?, kind.weight ≤ r.nesting.level
  lowest : ∀ before line, moves = before ++ line → BeforeLine before → .startLine ∉ line →
    IsLeast (lineLevels before line) r.nesting.lowest
  falls : ∀ front rest, moves = front ++ rest → .startLine ∉ rest →
    r.nesting.lowest ≤ (Nesting.run front).lowest
  kept : (∀ kind, (r.nesting.push kind).lowest = r.nesting.lowest) ∧
    r.nesting.popForNextLine.2.lowest = r.nesting.lowest ∧
    (r.nesting.entries = [] → r.nesting.pop.2.lowest = r.nesting.lowest)
  column : r.nesting.lowest * r.options.indentWidth < wordLimit →
    r.lineColumn = .ok (r.nesting.lowest * r.options.indentWidth)
  finished : r.finish = .ok () ↔ unmatched moves = []
  unfinished : unmatched moves ≠ [] → r.finish = .error ⟨(unmatched moves).length⟩

theorem LayoutRun.finish_of_entries {r : LayoutRun} {moves : List Move}
    (h : r.nesting.entries = (unmatched moves).reverse) :
    r.finish = if unmatched moves = [] then .ok () else .error ⟨(unmatched moves).length⟩ := by
  unfold LayoutRun.finish Nesting.depth
  rw [h, List.length_reverse]
  simp only [List.length_eq_zero_iff]

/-- Whatever a walker does, the nesting of its run and the column and the end of the run are what
the moves say. -/
theorem nesting_tracks_the_moves (options : Options) (moves : List Move) :
    LayoutRun.Tracks ⟨options, Nesting.run moves⟩ moves := by
  have hentries := Nesting.entries_run moves
  have hfirst : (Nesting.run moves).pop.1 = (unmatched moves).getLast? := by
    rw [Nesting.pop_fst, hentries, List.head?_reverse]
  have hfinish := LayoutRun.finish_of_entries (r := ⟨options, Nesting.run moves⟩) hentries
  refine ⟨hentries, ⟨hfirst, hfirst⟩, Nesting.level_run moves, ?_, ?_, ?_, ?_, ?_, ?_, ?_⟩
  · intro kind hk
    obtain ⟨rest, hrest⟩ := List.head?_eq_some_iff.mp hk
    have hlevel := (Nesting.weighed_run moves).cons hrest
    simp only at hlevel ⊢
    omega
  · rintro before line rfl hb hl
    exact Nesting.isLeast_lowest_run hb hl
  · rintro front rest rfl hl
    exact Nesting.lowest_run_le hl
  · refine ⟨fun _ => rfl, rfl, ?_⟩
    intro he
    exact congrArg Nesting.lowest (Nesting.move_pop_of_empty he)
  · intro hfits
    exact if_pos hfits
  · rw [hfinish]
    split
    · next hnone => simp [hnone]
    · next hsome => simp [hsome]
  · intro hsome
    rw [hfinish, if_neg hsome]

/-- A level that was closed for the next line shows when the next pop comes on the same line: the
lowest level is above the level until then. -/
example :
    (Nesting.run [.push .comment, .push .virtualBracket, .push .symbol, .startLine,
      .popForNextLine]).lowest = 2 ∧
    (Nesting.run [.push .comment, .push .virtualBracket, .push .symbol, .startLine,
      .popForNextLine, .pop]).lowest = 1 := by
  decide

end LineLayout
