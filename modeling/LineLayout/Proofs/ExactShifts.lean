-- Moving coordinates is exact and can be taken back. A move changes one coordinate of one run of
-- tokens and nothing else of the chain: no other coordinate, text, kind, mark, link, id or free
-- slot. It gives what a single pass gives that changes each token as it meets it and reads on in
-- the changed chain. Two moves in a row add up, unless the first of them is clamped.
import LineLayout.Proofs.Edits

namespace LineLayout

/-! ## Clamping -/

/-- The nearest word: zero for a number below zero, the last word for one above it. -/
def clamped (x : Int) : Nat := (max 0 (min x (wordLimit - 1))).toNat

theorem shifted_eq_clamped (n : Nat) (delta : Int) : shifted n delta = clamped (n + delta) := by
  unfold shifted clamped wordLimit
  omega

theorem clamped_lt (x : Int) : clamped x < wordLimit := by
  unfold clamped wordLimit
  omega

theorem clamped_of_word {n : Nat} (h : n < wordLimit) : clamped n = n := by
  unfold clamped wordLimit at *
  omega

/-- A word stays exact, so what is added to it later is added to the number itself. -/
theorem clamped_clamped_add {x : Int} (h : 0 ≤ x ∧ x < wordLimit) (e : Int) :
    clamped (clamped x + e) = clamped (x + e) := by
  obtain ⟨n, rfl⟩ := Int.eq_ofNat_of_zero_le h.1
  rw [clamped_of_word (Int.ofNat_lt.mp h.2)]

/-! ## Tokens changed under some ids -/

/-- The slot with the token in it changed, if it holds one. -/
def Slot.changed (slot : Slot) (f : Token → Token) : Slot :=
  { slot with node := slot.node.map fun node => { node with token := f node.token } }

@[simp] theorem Slot.generation_changed (slot : Slot) (f : Token → Token) :
    (slot.changed f).generation = slot.generation := rfl

theorem Slot.changed_changed (slot : Slot) (f g : Token → Token) :
    (slot.changed f).changed g = slot.changed fun t => g (f t) := by
  simp [changed, Function.comp_def]

theorem Slot.changed_id (slot : Slot) : (slot.changed fun t => t) = slot := by
  simp [changed]

namespace TokenChain

/-- The chain with the tokens of these ids changed, and nothing else. -/
def changedAt (c : TokenChain) (ids : List TokenId) (f : Token → Token) : TokenChain :=
  { c with
    slots := c.slots.mapIdx fun i slot =>
      if ⟨i.toUInt32, slot.generation⟩ ∈ ids then slot.changed f else slot }

theorem getElem?_changedAt (c : TokenChain) (ids : List TokenId) (f : Token → Token) (i : Nat) :
    (c.changedAt ids f).slots[i]? = c.slots[i]?.map fun slot =>
      if ⟨i.toUInt32, slot.generation⟩ ∈ ids then slot.changed f else slot := by
  simp only [changedAt, Array.getElem?_mapIdx]

theorem eq_of_slots {c d : TokenChain} (hslots : ∀ i : Nat, c.slots[i]? = d.slots[i]?)
    (hfree : c.free = d.free) (hhead : c.head = d.head) (htail : c.tail = d.tail)
    (hsize : c.size = d.size) : c = d := by
  have harray := Array.ext_getElem? hslots
  cases c
  cases d
  simp_all only

theorem changedAt_id (c : TokenChain) (ids : List TokenId) : (c.changedAt ids fun t => t) = c := by
  refine eq_of_slots (fun i => ?_) rfl rfl rfl rfl
  rw [getElem?_changedAt]
  simp only [Slot.changed_id, ite_self, Option.map_id']

/-- Changes under the same ids are made one after the other. -/
theorem changedAt_changedAt (c : TokenChain) (ids : List TokenId) (f g : Token → Token) :
    (c.changedAt ids f).changedAt ids g = c.changedAt ids fun t => g (f t) := by
  refine eq_of_slots (fun i => ?_) rfl rfl rfl rfl
  simp only [getElem?_changedAt, Option.map_map]
  congr 1
  funext slot
  by_cases hm : ⟨i.toUInt32, slot.generation⟩ ∈ ids
  · simp [hm, Slot.changed_changed]
  · simp [hm]

theorem changedAt_append (c : TokenChain) {ids more : List TokenId} (h : ids.Disjoint more)
    (f : Token → Token) : (c.changedAt ids f).changedAt more f = c.changedAt (ids ++ more) f := by
  refine eq_of_slots (fun i => ?_) rfl rfl rfl rfl
  simp only [getElem?_changedAt, Option.map_map]
  congr 1
  funext slot
  by_cases hm : ⟨i.toUInt32, slot.generation⟩ ∈ ids
  · have hnot : ⟨i.toUInt32, slot.generation⟩ ∉ more := fun hmore => h hm hmore
    simp [hm, hnot]
  · simp [hm]

theorem Tidy.toNat_slot {c : TokenChain} (h : c.Tidy) {i : Nat} {slot : Slot}
    (hs : c.slots[i]? = some slot) : i.toUInt32.toNat = i :=
  toNat_slotNumber (Nat.lt_of_lt_of_le (Array.getElem?_eq_some_iff.mp hs).1 h.within)

/-- A slot is named by its number and its generation. -/
theorem Tidy.node?_slot {c : TokenChain} (h : c.Tidy) {i : Nat} {slot : Slot}
    (hs : c.slots[i]? = some slot) : c.node? ⟨i.toUInt32, slot.generation⟩ = slot.node := by
  unfold node?
  simp [h.toNat_slot hs, hs]

/-- Two changes are the same where they make the same of each token. -/
theorem Tidy.changedAt_congr {c : TokenChain} (h : c.Tidy) {ids : List TokenId}
    {f g : Token → Token}
    (hfg : ∀ id ∈ ids, ∀ token, c.get? id = some token → f token = g token) :
    c.changedAt ids f = c.changedAt ids g := by
  refine eq_of_slots (fun i => ?_) rfl rfl rfl rfl
  simp only [getElem?_changedAt]
  apply Option.map_congr
  intro slot hs
  split
  · next hm =>
    have hget : c.get? ⟨i.toUInt32, slot.generation⟩ = slot.node.map Node.token := by
      rw [get?, h.node?_slot hs]
    unfold Slot.changed
    congr 1
    apply Option.map_congr
    intro node hn
    rw [hfg _ hm node.token (by rw [hget, hn]; rfl)]
  · rfl

/-- A token changed in its place is a change under one id. -/
theorem Tidy.modify_eq {c : TokenChain} (h : c.Tidy) (id : TokenId) (f : Token → Token) :
    c.modify id f = c.changedAt [id] f := by
  refine eq_of_slots (fun i => ?_) (free_modifyNode c id _) (head_modifyNode c id _)
    (tail_modifyNode c id _) (size_modifyNode c id _)
  rw [getElem?_changedAt, modify]
  rcases hn : c.node? id with _ | node
  · rw [modifyNode_of_stale _ hn]
    rcases hs : c.slots[i]? with _ | slot
    · rfl
    · by_cases he : (⟨i.toUInt32, slot.generation⟩ : TokenId) = id
      · have hempty : slot.node = none := by rw [← h.node?_slot hs, he, hn]
        have hsame : slot.changed f = slot := by
          unfold Slot.changed
          rw [hempty, Option.map_none, ← hempty]
        simp [hsame]
      · simp [he]
  · rw [slots_modifyNode _ hn]
    by_cases hi : id.index.toNat = i
    · subst hi
      rw [Array.getElem?_setIfInBounds_self_of_lt (index_lt_of_node? hn), node?_eq_some.mp hn]
      simp [Slot.changed]
    · rw [Array.getElem?_setIfInBounds_ne hi]
      rcases hs : c.slots[i]? with _ | slot
      · rfl
      · have hne : (⟨i.toUInt32, slot.generation⟩ : TokenId) ≠ id := by
          rintro rfl
          exact hi (h.toNat_slot hs)
        simp [hne]

/-! ## A stretch changed -/

/-- Changing the tokens of a stretch one after the other is a change under their ids. -/
theorem Tidy.foldl_modify {c : TokenChain} (h : c.Tidy) {S : List Entry}
    (hS : (S.map Prod.fst).Nodup) (f : Token → Token) :
    S.foldl (fun chain entry => chain.modify entry.1 f) c = c.changedAt (S.map Prod.fst) f := by
  induction S generalizing c with
  | nil =>
    have hnone : c.changedAt [] f = c := by
      rw [h.changedAt_congr (g := fun t => t) (by simp), c.changedAt_id]
    exact hnone.symm
  | cons e rest ih =>
    rw [List.map_cons, List.nodup_cons] at hS
    have htidy : (c.modify e.1 f).Tidy := h.modifyNode e.1 _
    rw [List.foldl_cons, ih htidy hS.2, h.modify_eq, changedAt_append]
    · rfl
    · simpa using hS.1

theorem Holds.foldl_modify {c : TokenChain} {A S B : List Entry} (h : c.Holds (A ++ S ++ B))
    (f : Token → Token) :
    S.foldl (fun chain entry => chain.modify entry.1 f) c = c.changedAt (S.map Prod.fst) f := by
  have hnd := h.distinct
  rw [List.map_append, List.map_append] at hnd
  exact h.tidy.foldl_modify hnd.of_append_left.of_append_right f

theorem Holds.changedAt {c : TokenChain} {A S B : List Entry} (h : c.Holds (A ++ S ++ B))
    (f : Token → Token) : (c.changedAt (S.map Prod.fst) f).Holds (A ++ editAll f S ++ B) := by
  rw [← h.foldl_modify]
  exact (h.editStretch f).1

theorem Holds.modifyStretch_eq {c : TokenChain} {A S B : List Entry} (h : c.Holds (A ++ S ++ B))
    (f : Token → Token) : c.modifyStretch S f = .ok (c.changedAt (S.map Prod.fst) f) := by
  unfold TokenChain.modifyStretch
  rw [h.staleLinkAfter?, h.foldl_modify]

/-! ## Runs -/

/-- Where a run stands: it begins at `start`, its tokens pass the test, and the token behind it,
if there is one, does not. -/
structure RunAt (c : TokenChain) (keep : Token → Prop) (start : TokenId) (A run rest : List Entry) :
    Prop where
  holds : c.Holds (A ++ run ++ rest)
  starts : frontId run = some start
  inside : ∀ e ∈ run, keep e.2
  ends : ∀ e ∈ rest.head?, ¬ keep e.2

end TokenChain

/-- The tokens of the run pass the test, and no longer part from the front does. -/
structure LongestRun (keep : Token → Prop) (run rest : List Entry) : Prop where
  inside : ∀ e ∈ run, keep e.2
  longest : ∀ front, front <+: run ++ rest → (∀ e ∈ front, keep e.2) → front.length ≤ run.length

theorem length_le_of_keep {keep : Token → Prop} {front run rest : List Entry}
    (hends : ∀ e ∈ rest.head?, ¬ keep e.2) (hfront : front <+: run ++ rest)
    (hkeep : ∀ e ∈ front, keep e.2) : front.length ≤ run.length := by
  induction front generalizing run with
  | nil => exact Nat.zero_le _
  | cons e front ih =>
    cases run with
    | nil =>
      obtain ⟨behind, rfl⟩ := hfront
      exact absurd (hkeep e (by simp)) (hends e (by simp))
    | cons x run =>
      have htail := (List.cons_prefix_cons.mp hfront).2
      exact Nat.succ_le_succ (ih htail fun y hy => hkeep y (by simp [hy]))

namespace TokenChain

section Runs

variable {c : TokenChain} {keep : Token → Prop} {start : TokenId} {A run rest : List Entry}

theorem RunAt.longestRun (h : c.RunAt keep start A run rest) : LongestRun keep run rest :=
  ⟨h.inside, fun _ => length_le_of_keep h.ends⟩

theorem RunAt.starts_at (h : c.RunAt keep start A run rest) :
    ∃ token tail, run = (start, token) :: tail := by
  have hstarts := h.starts
  cases run with
  | nil => cases hstarts
  | cons e tail =>
    cases hstarts
    exact ⟨e.2, tail, rfl⟩

theorem RunAt.entriesFrom (h : c.RunAt keep start A run rest) :
    c.entriesFrom start = run ++ rest := by
  obtain ⟨token, tail, rfl⟩ := h.starts_at
  have hat : c.Holds (A ++ (start, token) :: (tail ++ rest)) := by simpa using h.holds
  exact hat.entriesFrom_at

theorem RunAt.changedAt (h : c.RunAt keep start A run rest) {f : Token → Token}
    (hf : ∀ t, keep t → keep (f t)) :
    (c.changedAt (run.map Prod.fst) f).RunAt keep start A (editAll f run) rest := by
  refine ⟨h.holds.changedAt f, ?_, ?_, h.ends⟩
  · obtain ⟨token, tail, rfl⟩ := h.starts_at
    rfl
  · intro e he
    obtain ⟨x, hx, rfl⟩ := List.mem_map.mp he
    exact hf x.2 (h.inside x hx)

theorem RunAt.changedAt_congr (h : c.RunAt keep start A run rest) {f g : Token → Token}
    (hfg : ∀ e ∈ run, f e.2 = g e.2) :
    c.changedAt (run.map Prod.fst) f = c.changedAt (run.map Prod.fst) g := by
  apply h.holds.tidy.changedAt_congr
  intro id hid token hget
  obtain ⟨e, he, rfl⟩ := List.mem_map.mp hid
  have hmem : e ∈ A ++ run ++ rest := by simp [he]
  cases Option.some.inj ((h.holds.get?_of_mem hmem).symm.trans hget)
  exact hfg e he

end Runs

/-! ## One pass -/

/-- A pass from an id on. Each token that passes the test is changed when the pass meets it, and
the way on is read in the changed chain. The pass ends behind the last token, or at a token that
fails the test. A pass that meets a stale id has no outcome. -/
inductive Sweeps (keep : Token → Prop) (f : Token → Token) :
    TokenChain → Option TokenId → TokenChain → Prop where
  | ended {c : TokenChain} : Sweeps keep f c none c
  | stopped {c : TokenChain} {id : TokenId} {token : Token} : c.get? id = some token →
      ¬ keep token → Sweeps keep f c (some id) c
  | changed {c d : TokenChain} {id : TokenId} {token : Token} : c.get? id = some token →
      keep token → Sweeps keep f (c.modify id f) ((c.modify id f).next? id) d →
      Sweeps keep f c (some id) d

/-- A pass has one outcome. -/
theorem Sweeps.unique {keep : Token → Prop} {f : Token → Token} {c d e : TokenChain}
    {start : Option TokenId} (hd : Sweeps keep f c start d) (he : Sweeps keep f c start e) :
    d = e := by
  induction hd with
  | ended =>
    cases he
    rfl
  | stopped hget hnot =>
    cases he with
    | stopped => rfl
    | changed hother hkeep =>
      cases Option.some.inj (hget.symm.trans hother)
      exact absurd hkeep hnot
  | changed hget hkeep _ ih =>
    cases he with
    | stopped hother hnot =>
      cases Option.some.inj (hget.symm.trans hother)
      exact absurd hkeep hnot
    | changed _ _ hrest => exact ih hrest

/-- The pass changes the run and stops behind it. -/
theorem Holds.sweeps {c : TokenChain} {keep : Token → Prop} {A run rest : List Entry}
    (h : c.Holds (A ++ run ++ rest)) (hinside : ∀ e ∈ run, keep e.2)
    (hends : ∀ e ∈ rest.head?, ¬ keep e.2) (f : Token → Token) :
    Sweeps keep f c (frontId (run ++ rest)) (c.changedAt (run.map Prod.fst) f) := by
  rw [← h.foldl_modify]
  induction run generalizing c A with
  | nil =>
    cases rest with
    | nil => exact .ended
    | cons e rest =>
      have hat : c.Holds (A ++ (e.1, e.2) :: rest) := by simpa using h
      exact .stopped hat.get?_at (hends e rfl)
  | cons e run ih =>
    have hat : c.Holds (A ++ (e.1, e.2) :: (run ++ rest)) := by simpa using h
    have hmod := hat.modify f
    have hnext : (c.modify e.1 f).Holds ((A ++ [(e.1, f e.2)]) ++ run ++ rest) := by
      simpa using hmod
    refine .changed hat.get?_at (hinside e (by simp)) ?_
    rw [hmod.next?_at]
    exact ih hnext fun x hx => hinside x (by simp [hx])

theorem RunAt.sweeps_iff {c d : TokenChain} {keep : Token → Prop} {start : TokenId}
    {A run rest : List Entry} (h : c.RunAt keep start A run rest) (f : Token → Token) :
    Sweeps keep f c (some start) d ↔ d = c.changedAt (run.map Prod.fst) f := by
  have hfront : frontId (run ++ rest) = some start := by
    rw [frontId_append, h.starts, Option.some_or]
  have hpass := h.holds.sweeps h.inside h.ends f
  rw [hfront] at hpass
  constructor
  · intro hd
    exact hd.unique hpass
  · rintro rfl
    exact hpass

end TokenChain

/-! ## The two coordinates -/

/-- A coordinate: how it is read and written, and the move along it. -/
structure Coordinate where
  read : Token → Nat
  write : Token → Nat → Token
  shift : TokenChain → Option TokenId → Int → Except Fault TokenChain

namespace Coordinate

def columns : Coordinate := ⟨Token.col, fun t col => { t with col }, TokenChain.shiftColumnsFrom⟩

def rows : Coordinate := ⟨Token.row, fun t row => { t with row }, TokenChain.shiftRowsFrom⟩

/-- The token with its coordinate moved and clamped. -/
def moved (k : Coordinate) (delta : Int) (t : Token) : Token :=
  k.write t (clamped (k.read t + delta))

/-- No token of the run is stopped at the ends of the range of words. -/
def Unclamped (k : Coordinate) (delta : Int) (run : List Entry) : Prop :=
  ∀ e ∈ run, 0 ≤ (k.read e.2 : Int) + delta ∧ (k.read e.2 : Int) + delta < wordLimit

/-- What a move of a coordinate does in a chain of the list `A ++ run ++ rest`, where the tokens
that pass the test stand in a run from `start` on. It changes the coordinate in the run and nothing
else, and a single pass comes to this end only. If the first of two moves is not clamped, the two
are one, and the move back gives the chain that was there. -/
structure MovesExactly (k : Coordinate) (keep : Token → Prop) (c : TokenChain) (start : TokenId)
    (A run rest : List Entry) : Prop where
  longest : LongestRun keep run rest
  moves : ∀ delta, k.shift c (some start) delta =
    .ok (c.changedAt (run.map Prod.fst) (k.moved delta))
  passes : ∀ delta d, TokenChain.Sweeps keep (k.moved delta) c (some start) d ↔
    d = c.changedAt (run.map Prod.fst) (k.moved delta)
  list : ∀ delta, (c.changedAt (run.map Prod.fst) (k.moved delta)).Holds
    (A ++ run.map (fun e => (e.1, k.moved delta e.2)) ++ rest)
  adds : ∀ d e, k.Unclamped d run →
    (k.shift c (some start) d).bind (k.shift · (some start) e) = k.shift c (some start) (d + e)
  returns : ∀ d, k.Unclamped d run →
    (k.shift c (some start) d).bind (k.shift · (some start) (-d)) = .ok c

/-- What the laws of moves need of a coordinate and its run. -/
structure Lawful (k : Coordinate) (keep : Token → Prop) : Prop where
  read_write : ∀ t n, k.read (k.write t n) = n
  write_write : ∀ t m n, k.write (k.write t m) n = k.write t n
  write_read : ∀ t, k.write t (k.read t) = t
  keep_write : ∀ t n, keep t → keep (k.write t n)
  shift_zero : ∀ c start, k.shift c start 0 = .ok c
  shift_run : ∀ {c start A run rest delta}, c.RunAt keep start A run rest → delta ≠ 0 →
    k.shift c (some start) delta = .ok (c.changedAt (run.map Prod.fst) (k.moved delta))

section Laws

variable {k : Coordinate} {keep : Token → Prop} {c : TokenChain} {start : TokenId}
  {A run rest : List Entry}

theorem Lawful.moved_zero (h : k.Lawful keep) {t : Token} (ht : k.read t < wordLimit) :
    k.moved 0 t = t := by
  rw [moved, Int.add_zero, clamped_of_word ht, h.write_read]

theorem Lawful.moved_moved (h : k.Lawful keep) {t : Token} {d : Int}
    (ht : 0 ≤ (k.read t : Int) + d ∧ (k.read t : Int) + d < wordLimit) (e : Int) :
    k.moved e (k.moved d t) = k.moved (d + e) t := by
  unfold moved
  rw [h.write_write, h.read_write, clamped_clamped_add ht, Int.add_assoc]

/-- A move by nothing is exact as well, because the coordinates are words. -/
theorem Lawful.shift_eq (h : k.Lawful keep) (hrun : c.RunAt keep start A run rest)
    (hwords : ∀ e ∈ run, k.read e.2 < wordLimit) (delta : Int) :
    k.shift c (some start) delta = .ok (c.changedAt (run.map Prod.fst) (k.moved delta)) := by
  by_cases hd : delta = 0
  · subst hd
    have hfixed : c.changedAt (run.map Prod.fst) (k.moved 0) = c := by
      rw [hrun.changedAt_congr (g := fun t => t) fun e he => h.moved_zero (hwords e he),
        c.changedAt_id]
    rw [h.shift_zero, hfixed]
  · exact h.shift_run hrun hd

theorem Lawful.adds (h : k.Lawful keep) (hrun : c.RunAt keep start A run rest)
    (hwords : ∀ e ∈ run, k.read e.2 < wordLimit) {d : Int} (hd : k.Unclamped d run) (e : Int) :
    (k.shift c (some start) d).bind (k.shift · (some start) e) =
      k.shift c (some start) (d + e) := by
  have hnext := hrun.changedAt (f := k.moved d) fun t => h.keep_write t _
  have hnextWords : ∀ x ∈ editAll (k.moved d) run, k.read x.2 < wordLimit := by
    intro x hx
    obtain ⟨y, -, rfl⟩ := List.mem_map.mp hx
    rw [moved, h.read_write]
    exact clamped_lt _
  have hids : (editAll (k.moved d) run).map Prod.fst = run.map Prod.fst :=
    editAll_map Prod.fst (fun _ => rfl) run
  rw [h.shift_eq hrun hwords d, h.shift_eq hrun hwords (d + e), Except.bind,
    h.shift_eq hnext hnextWords e, hids, TokenChain.changedAt_changedAt,
    hrun.changedAt_congr]
  intro x hx
  exact h.moved_moved (hd x hx) e

theorem Lawful.movesExactly (h : k.Lawful keep) (hrun : c.RunAt keep start A run rest)
    (hwords : ∀ e ∈ run, k.read e.2 < wordLimit) :
    k.MovesExactly keep c start A run rest where
  longest := hrun.longestRun
  moves := h.shift_eq hrun hwords
  passes delta d := hrun.sweeps_iff (k.moved delta)
  list delta := hrun.holds.changedAt (k.moved delta)
  adds d e hd := h.adds hrun hwords hd e
  returns d hd := by
    rw [h.adds hrun hwords hd, Int.add_right_neg, h.shift_zero]

end Laws

theorem shiftColumn_eq_moved (delta : Int) : (·.shiftColumn delta) = columns.moved delta := by
  funext t
  rw [Token.shiftColumn, shifted_eq_clamped]
  rfl

theorem shiftRow_eq_moved (delta : Int) : (·.shiftRow delta) = rows.moved delta := by
  funext t
  rw [Token.shiftRow, shifted_eq_clamped]
  rfl

/-- The stretch that a move of columns collects is the run on the row of its start. -/
theorem rowStretch_of_run {c : TokenChain} {row : Nat} {start : TokenId} {A run rest : List Entry}
    (h : c.RunAt (fun t => t.row = row) start A run rest) : c.rowStretch start = run := by
  obtain ⟨token, tail, hcons⟩ := h.starts_at
  have hmem : (start, token) ∈ run := by simp [hcons]
  have hget : c.get? start = some token :=
    h.holds.get?_of_mem (e := (start, token)) (by simp [hmem])
  have hrow : token.row = row := h.inside _ hmem
  have hrest : rest.takeWhile (fun e => e.2.row == row) = [] := by
    cases hr : rest with
    | nil => rfl
    | cons e rest =>
      have hne : e.2.row ≠ row := h.ends e (by simp [hr])
      simp [hne]
  unfold TokenChain.rowStretch
  rw [hget]
  simp only [h.entriesFrom, hrow]
  rw [List.takeWhile_append_of_pos, hrest, List.append_nil]
  intro e he
  simp [h.inside e he]

/-- Columns move up to the end of a row, and a move of columns leaves the row as it is. -/
theorem lawful_columns (row : Nat) : columns.Lawful fun t => t.row = row where
  read_write _ _ := rfl
  write_write _ _ _ := rfl
  write_read _ := rfl
  keep_write _ _ := id
  shift_zero c start := by cases start <;> rfl
  shift_run := by
    intro c start A run rest delta hrun hd
    change c.shiftColumns start delta = _
    unfold TokenChain.shiftColumns
    rw [if_neg hd, rowStretch_of_run hrun, hrun.holds.modifyStretch_eq, shiftColumn_eq_moved]

/-- Rows move up to the last token. -/
theorem lawful_rows : rows.Lawful fun _ => True where
  read_write _ _ := rfl
  write_write _ _ _ := rfl
  write_read _ := rfl
  keep_write _ _ := id
  shift_zero c start := by cases start <;> rfl
  shift_run := by
    intro c start A run rest delta hrun hd
    have hrest : rest = [] := by
      rw [← List.head?_eq_none_iff, Option.eq_none_iff_forall_not_mem]
      exact fun e he => hrun.ends e he trivial
    have hfrom := hrun.entriesFrom
    rw [hrest, List.append_nil] at hfrom
    change c.shiftRows start delta = _
    unfold TokenChain.shiftRows
    rw [if_neg hd, hfrom, hrun.holds.modifyStretch_eq, shiftRow_eq_moved]

end Coordinate

namespace TokenChain

/-! ## Where a move starts -/

/-- The tokens on the row of the start, up to the first one on another row. -/
theorem Holds.exists_rowRun {c : TokenChain} {A B : List Entry} {start : TokenId} {token : Token}
    (h : c.Holds (A ++ (start, token) :: B)) :
    ∃ run rest, run ++ rest = (start, token) :: B ∧
      c.RunAt (fun t => t.row = token.row) start A run rest := by
  have hsplit := List.takeWhile_append_dropWhile (l := (start, token) :: B)
    (p := fun e => e.2.row == token.row)
  refine ⟨_, _, hsplit, ?_, by simp, ?_, ?_⟩
  · rw [List.append_assoc, hsplit]
    exact h
  · intro e he
    have hall := List.all_takeWhile (p := fun e : Entry => e.2.row == token.row)
      (l := (start, token) :: B)
    simpa using List.all_eq_true.mp hall e he
  · intro e he
    have hnot := List.head?_dropWhile_not (fun e : Entry => e.2.row == token.row)
      ((start, token) :: B)
    rw [he] at hnot
    simpa using hnot

theorem Holds.runAt_all {c : TokenChain} {A B : List Entry} {start : TokenId} {token : Token}
    (h : c.Holds (A ++ (start, token) :: B)) :
    c.RunAt (fun _ => True) start A ((start, token) :: B) [] :=
  ⟨by simpa using h, rfl, fun _ _ => trivial, by simp⟩

/-- From a stale start nothing moves, whatever the links are. -/
theorem shift_of_stale {c : TokenChain} {start : TokenId} (h : c.contains start = false)
    (delta : Int) :
    c.shiftColumnsFrom (some start) delta = .ok c ∧ c.shiftRowsFrom (some start) delta = .ok c := by
  have hnode : c.node? start = none := by simpa [contains] using h
  have hrow : c.rowStretch start = [] := by
    unfold rowStretch get?
    rw [hnode]
    rfl
  have hfrom : c.entriesFrom start = [] := by
    unfold entriesFrom
    cases c.slots.size with
    | zero => rfl
    | succ fuel => simp [walk, hnode]
  simp only [shiftColumnsFrom, shiftRowsFrom, shiftColumns, shiftRows, hrow, hfrom]
  constructor <;> split <;> rfl

end TokenChain

/-- A move changes its coordinate on exactly one run, clamped to words, and leaves all else of the
chain as it is. The run of columns is the longest one on the row of the start, the run of rows goes
to the tail. Without a live start nothing moves. Moves that are not clamped add up and can be taken
back. -/
theorem shifts_are_exact_and_reversible (c : TokenChain) (L : List Entry) (start : TokenId)
    (h : c.Holds L) (hwords : ∀ e ∈ L, e.2.row < wordLimit ∧ e.2.col < wordLimit) :
    (c.contains start = true → ∃ A token B, L = A ++ (start, token) :: B ∧
      (∃ run rest, run ++ rest = (start, token) :: B ∧
        Coordinate.columns.MovesExactly (fun t => t.row = token.row) c start A run rest) ∧
      Coordinate.rows.MovesExactly (fun _ => True) c start A ((start, token) :: B) []) ∧
    (c.contains start = false → ∀ delta,
      c.shiftColumnsFrom (some start) delta = .ok c ∧ c.shiftRowsFrom (some start) delta = .ok c) ∧
    ∀ delta, c.shiftColumnsFrom none delta = .ok c ∧ c.shiftRowsFrom none delta = .ok c := by
  refine ⟨?_, TokenChain.shift_of_stale, fun _ => ⟨rfl, rfl⟩⟩
  intro hlive
  obtain ⟨A, token, B, rfl⟩ := h.split hlive
  have hbehind : ∀ e ∈ (start, token) :: B, e.2.row < wordLimit ∧ e.2.col < wordLimit :=
    fun e he => hwords e (List.mem_append_right A he)
  refine ⟨A, token, B, rfl, ?_, ?_⟩
  · obtain ⟨run, rest, hsplit, hrun⟩ := h.exists_rowRun
    refine ⟨run, rest, hsplit, (Coordinate.lawful_columns token.row).movesExactly hrun ?_⟩
    intro e he
    exact (hbehind e (by rw [← hsplit]; exact List.mem_append_left rest he)).2
  · exact Coordinate.lawful_rows.movesExactly h.runAt_all fun e he => (hbehind e he).1

/-- A row that other tokens cross, with a token at the edge of the range of words. -/
def crossedRow : List Token :=
  [{ text := "a", kind := .identifier, beginsLine := true, row := 4 },
    { text := "\t", kind := .whitespace, row := 4, col := 1 },
    { text := "b", kind := .number, row := 4, col := 18446744073709551610 },
    { text := "\n", kind := .whitespace, endsLine := true, row := 9 },
    { text := "c", kind := .comment, features := Features.none, row := 4, col := 7 }]

theorem crossed_row_moves_and_returns :
    (TokenChain.ofList crossedRow).contains ⟨1, 0⟩ = true ∧
    ((TokenChain.ofList crossedRow).shiftColumnsFrom (some ⟨1, 0⟩) 5).map
      (fun d => d.toList.map Token.col) = .ok [0, 6, 18446744073709551615, 0, 7] ∧
    ((TokenChain.ofList crossedRow).shiftColumnsFrom (some ⟨1, 0⟩) 5).bind
      (·.shiftColumnsFrom (some ⟨1, 0⟩) (-5)) = .ok (TokenChain.ofList crossedRow) ∧
    ((TokenChain.ofList crossedRow).shiftRowsFrom (some ⟨1, 0⟩) (-4)).bind
      (·.shiftRowsFrom (some ⟨1, 0⟩) 6) =
        (TokenChain.ofList crossedRow).shiftRowsFrom (some ⟨1, 0⟩) (-4 + 6) ∧
    (TokenChain.ofList crossedRow).shiftRowsFrom (some ⟨1, 1⟩) 5 =
      .ok (TokenChain.ofList crossedRow) := by
  obtain ⟨L, hL⟩ := TokenChain.linked_ofList (by decide : crossedRow.length ≤ slotLimit)
  have hentries := hL.entries_eq
  subst hentries
  have hexact := shifts_are_exact_and_reversible _ _ ⟨1, 0⟩ hL (by decide)
  have hstale := shifts_are_exact_and_reversible _ _ ⟨1, 1⟩ hL (by decide)
  obtain ⟨A, token, B, hsplit, ⟨run, rest, hrun, hcolumns⟩, hrows⟩ := hexact.1 (by decide)
  have hroom : ∀ e ∈ (TokenChain.ofList crossedRow).entries,
      (0 ≤ (e.2.col : Int) + 5 ∧ (e.2.col : Int) + 5 < wordLimit) ∧
      0 ≤ (e.2.row : Int) + -4 ∧ (e.2.row : Int) + -4 < wordLimit := by decide
  rw [hsplit, ← hrun] at hroom
  refine ⟨by decide, by decide, ?_, ?_, ?_⟩
  · exact hcolumns.returns 5 fun e he => (hroom e (by simp [he])).1
  · apply hrows.adds (-4) 6
    exact fun e he => (hroom e (by rw [hrun]; exact List.mem_append_right A he)).2
  · exact (hstale.2.1 (by decide) 5).2

end LineLayout
