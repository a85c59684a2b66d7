-- Edits as changes of a plan. A plan has one entry for each line of a chain: its shape, and
-- whether a blank line comes below it. An edit changes each entry by itself, and two edits change
-- an entry the same way in either order, as long as no line is indented twice. A plan says what
-- the lines look like, and the look gives the tokens.
import LineLayout.Proofs.FreshLexing
import LineLayout.Proofs.Shapes

namespace LineLayout

/-! ## Edits of lines -/

/-- An edit of one line: the line gets another indentation, or a blank line below it. -/
inductive LineEdit where
  | indent (start : TokenId) (level : Nat)
  | separate (id : TokenId)
  deriving DecidableEq

namespace LineEdit

def op : LineEdit → LayoutOp
  | indent start level => .setIndent start level
  | separate id => .blankLineAfter id

/-- The token that an indentation takes for the start of its line. -/
def start? : LineEdit → Option TokenId
  | indent start _ => some start
  | separate _ => none

/-- No line is indented twice. -/
def Once (edits : List LineEdit) : Prop := (edits.filterMap start?).Nodup

theorem Once.apart {edit : LineEdit} {edits : List LineEdit} (h : Once (edit :: edits)) :
    ∀ other ∈ edits, ∀ start, other.start? = some start → edit.start? ≠ some start := by
  intro other ho start hs he
  rw [Once, List.filterMap_cons_some he, List.nodup_cons] at h
  exact h.1 (List.mem_filterMap.mpr ⟨other, ho, hs⟩)

theorem Once.tail {edit : LineEdit} {edits : List LineEdit} (h : Once (edit :: edits)) :
    Once edits :=
  h.sublist ((List.sublist_cons_self edit edits).filterMap start?)

theorem Once.eq_of_start {edits : List LineEdit} (h : Once edits) {a b : LineEdit}
    (ha : a ∈ edits) (hb : b ∈ edits) {start : TokenId} (hs : a.start? = some start)
    (hs' : b.start? = some start) : a = b := by
  induction edits with
  | nil => cases ha
  | cons edit edits ih =>
    rcases List.mem_cons.mp ha with rfl | ha
    · rcases List.mem_cons.mp hb with rfl | hb
      · rfl
      · exact absurd hs (h.apart b hb start hs')
    · rcases List.mem_cons.mp hb with heq | hb
      · exact absurd (heq ▸ hs') (h.apart a ha start hs)
      · exact ih h.tail ha hb

end LineEdit

/-! ## Plans -/

/-- The line has content. -/
def Line.isContent {α : Type} : Line α → Bool
  | blank _ => false
  | content _ _ _ => true

theorem isContent_shapeOf (l : Line Entry) : (shapeOf l).isContent = l.isContent := by
  cases l <;> rfl

theorem Shape.isContent_refit (level : Nat) (s : Shape) :
    (s.refit level).isContent = s.isContent := by
  cases s <;> rfl

/-- What edits make of one line: the token that begins it, until the line is indented, its tokens
without the whitespace in front, and its shape. The line is `followed` when the next one has
content, and has a `gap` when a blank line comes between the two. -/
structure LinePlan where
  start : Option TokenId
  core : List TokenId
  shape : Shape
  followed : Bool
  gap : Bool

namespace LinePlan

def edit (p : LinePlan) : LineEdit → LinePlan
  | .indent start level =>
    if p.start = some start then { p with start := none, shape := p.shape.refit level } else p
  | .separate id => { p with gap := p.gap || p.followed && p.core.contains id }

@[simp] theorem core_edit (p : LinePlan) (edit : LineEdit) : (p.edit edit).core = p.core := by
  cases edit with
  | indent start level =>
    simp only [LinePlan.edit]
    split <;> rfl
  | separate id => rfl

@[simp] theorem followed_edit (p : LinePlan) (edit : LineEdit) :
    (p.edit edit).followed = p.followed := by
  cases edit with
  | indent start level =>
    simp only [LinePlan.edit]
    split <;> rfl
  | separate id => rfl

@[simp] theorem isContent_edit (p : LinePlan) (edit : LineEdit) :
    (p.edit edit).shape.isContent = p.shape.isContent := by
  cases edit with
  | indent start level =>
    simp only [LinePlan.edit]
    split
    · exact Shape.isContent_refit level p.shape
    · rfl
  | separate id => rfl

theorem start_edit {p : LinePlan} {edit : LineEdit} {start : TokenId}
    (h : p.start = some start) (he : edit.start? ≠ some start) :
    (p.edit edit).start = some start := by
  cases edit with
  | indent other level =>
    have hne : p.start ≠ some other := by
      rw [h]
      exact fun hs => he hs.symm
    rw [LinePlan.edit, if_neg hne, h]
  | separate id => exact h

/-- Two edits of a line can be made in either order, unless both indent it. -/
theorem edit_comm (p : LinePlan) {a b : LineEdit}
    (h : ∀ start, a.start? = some start → b.start? ≠ some start) :
    (p.edit a).edit b = (p.edit b).edit a := by
  match a, b with
  | .indent s m, .indent t n =>
    have hne : s ≠ t := fun he => h s rfl (congrArg some he.symm)
    by_cases hs : p.start = some s
    · simp [edit, hs, hne]
    · by_cases ht : p.start = some t
      · simp [edit, ht, Ne.symm hne]
      · simp [edit, hs, ht]
  | .indent s m, .separate id =>
    by_cases hs : p.start = some s
    · simp [edit, hs]
    · simp [edit, hs]
  | .separate id, .indent s m =>
    by_cases hs : p.start = some s
    · simp [edit, hs]
    · simp [edit, hs]
  | .separate id, .separate other => simp [edit, Bool.or_right_comm]

/-- The shapes of a line and of the blank line below it. -/
def shapes (p : LinePlan) : List Shape :=
  p.shape :: if p.gap then [.blank (.whitespace, "\n")] else []

end LinePlan

/-- The plan after an edit. -/
def editPlan (ps : List LinePlan) (edit : LineEdit) : List LinePlan := ps.map (·.edit edit)

/-- The order of edits does not matter for a plan. -/
theorem foldl_editPlan_perm {first second : List LineEdit} (h : first.Perm second)
    (honce : LineEdit.Once first) (ps : List LinePlan) :
    first.foldl editPlan ps = second.foldl editPlan ps := by
  apply h.foldl_eq'
  intro a ha b hb ps
  by_cases hab : a = b
  · rw [hab]
  · unfold editPlan
    rw [List.map_map, List.map_map]
    apply List.map_congr_left
    intro p _
    apply p.edit_comm
    intro start hs hs'
    exact hab (honce.eq_of_start ha hb hs hs')

/-- The first line of the plan has content. -/
def opensContent (ps : List LinePlan) : Bool := ps.head?.any fun p => p.shape.isContent

/-- Each line of the plan knows whether the next one has content. -/
def Followed : List LinePlan → Prop
  | [] => True
  | p :: ps => p.followed = opensContent ps ∧ Followed ps

theorem Followed.next_content {P Q : List LinePlan} {p : LinePlan} (h : Followed (P ++ p :: Q)) :
    p.followed = opensContent Q := by
  induction P with
  | nil => exact h.1
  | cons _ P ih => exact ih h.2

theorem Followed.edit {ps : List LinePlan} (h : Followed ps) (edit : LineEdit) :
    Followed (editPlan ps edit) := by
  induction ps with
  | nil => trivial
  | cons p ps ih =>
    refine ⟨?_, ih h.2⟩
    rw [LinePlan.followed_edit, h.1]
    cases ps with
    | nil => rfl
    | cons q ps => simp [opensContent]

/-! ## Lines that follow a plan -/

/-- The line looks as planned, under the planned ids. -/
structure Realizes (p : LinePlan) (l : Line Entry) : Prop where
  shape : shapeOf l = p.shape
  core : l.core.map Prod.fst = p.core
  start : ∀ id, p.start = some id → l.start.1 = id

/-- The lines follow the plan. `G` is the blank line between two of them, if one is planned. -/
inductive Drawn : List LinePlan → List (Line Entry) → Prop where
  | nil : Drawn [] []
  | cons {p : LinePlan} {ps : List LinePlan} {l : Line Entry} {G ls : List (Line Entry)} :
      Realizes p l → (l :: G).map shapeOf = p.shapes → Drawn ps ls →
      Drawn (p :: ps) (l :: (G ++ ls))

theorem Drawn.shapes {ps : List LinePlan} {ls : List (Line Entry)} (h : Drawn ps ls) :
    ls.map shapeOf = ps.flatMap LinePlan.shapes := by
  induction h with
  | nil => rfl
  | cons _ hshapes _ ih =>
    rw [List.flatMap_cons, ← hshapes, ← ih]
    simp

theorem Drawn.append {P Q : List LinePlan} {X Y : List (Line Entry)} (h : Drawn P X)
    (k : Drawn Q Y) : Drawn (P ++ Q) (X ++ Y) := by
  induction h with
  | nil => exact k
  | cons hp hshapes _ ih =>
    rw [List.cons_append, List.cons_append, List.append_assoc]
    exact .cons hp hshapes ih

/-- The lines around one line of the plan. -/
theorem Drawn.split {P Q : List LinePlan} {p : LinePlan} {ls : List (Line Entry)}
    (h : Drawn (P ++ p :: Q) ls) :
    ∃ X l G Y, ls = X ++ l :: (G ++ Y) ∧ Drawn P X ∧ Realizes p l ∧
      (l :: G).map shapeOf = p.shapes ∧ Drawn Q Y := by
  induction P generalizing ls with
  | nil =>
    cases h with
    | cons hp hshapes hrest => exact ⟨[], _, _, _, rfl, .nil, hp, hshapes, hrest⟩
  | cons q P ih =>
    cases h with
    | @cons _ _ l G _ hq hshapes hrest =>
      obtain ⟨X, l', G', Y, rfl, hX, hp, hgap, hY⟩ := ih hrest
      exact ⟨l :: (G ++ X), l', G', Y, by simp, .cons hq hshapes hX, hp, hgap, hY⟩

theorem Drawn.mem_ids {ps : List LinePlan} {ls : List (Line Entry)} (h : Drawn ps ls)
    {p : LinePlan} (hp : p ∈ ps) {id : TokenId} (hid : p.start = some id ∨ id ∈ p.core) :
    id ∈ (flat ls).map Prod.fst := by
  obtain ⟨P, Q, rfl⟩ := List.append_of_mem hp
  obtain ⟨X, l, G, Y, rfl, -, hl, -, -⟩ := h.split
  have hline : id ∈ l.items.map Prod.fst := by
    rcases hid with hstart | hcore
    · rw [← hl.start id hstart, l.items_eq]
      simp
    · rw [← hl.core] at hcore
      obtain ⟨e, he, rfl⟩ := List.mem_map.mp hcore
      exact List.mem_map_of_mem (Line.mem_items_of_core he)
  simp only [flat, List.flatMap_append, List.flatMap_cons, List.map_append, List.mem_append]
  exact Or.inr (Or.inl hline)

theorem Line.start_map {α β : Type} (f : α → β) (l : Line α) : (l.map f).start = f l.start := by
  cases l with
  | blank item => rfl
  | content lead first rest => cases lead <;> rfl

theorem Drawn.map {ps : List LinePlan} {ls : List (Line Entry)} (h : Drawn ps ls)
    {f : Entry → Entry} (hid : ∀ e, (f e).1 = e.1)
    (hlook : ∀ e, ((f e).2.kind, (f e).2.text) = (e.2.kind, e.2.text)) :
    Drawn ps (ls.map (Line.map f)) := by
  have hshape : ∀ l : Line Entry, shapeOf (l.map f) = shapeOf l := by
    intro l
    cases l <;>
      simp only [shapeOf, Line.map, Option.map_map, List.map_map, Function.comp_def, hlook]
  have hcore : ∀ l : Line Entry, (l.map f).core.map Prod.fst = l.core.map Prod.fst := by
    intro l
    rw [Line.core_map, List.map_map]
    simp only [Function.comp_def, hid]
  induction h with
  | nil => exact .nil
  | @cons p ps l G ls hp hshapes _ ih =>
    rw [List.map_cons, List.map_append]
    refine .cons ⟨(hshape l).trans hp.shape, (hcore l).trans hp.core, ?_⟩ ?_ ih
    · intro id hs
      rw [Line.start_map, hid]
      exact hp.start id hs
    · rw [← hshapes, ← List.map_cons, List.map_map]
      simp only [Function.comp_def, hshape]

/-- The plan of lines that are still as they were. -/
def planOf : List (Line Entry) → List LinePlan
  | [] => []
  | l :: ls =>
    { start := some l.start.1, core := l.core.map Prod.fst, shape := shapeOf l,
      followed := ls.head?.any Line.isContent, gap := false } :: planOf ls

theorem drawn_planOf (ls : List (Line Entry)) : Drawn (planOf ls) ls := by
  induction ls with
  | nil => exact .nil
  | cons l ls ih => exact .cons (G := []) ⟨rfl, rfl, fun _ => Option.some.inj⟩ rfl ih

theorem followed_planOf (ls : List (Line Entry)) : Followed (planOf ls) := by
  induction ls with
  | nil => trivial
  | cons l ls ih =>
    refine ⟨?_, ih⟩
    cases ls with
    | nil => rfl
    | cons m ls => simp [planOf, opensContent, isContent_shapeOf]

/-- Two sets of lines that follow one plan have the same tokens. -/
theorem Drawn.tokens_eq {ps : List LinePlan} {ls ms : List (Line Entry)} {features : Features}
    (h : Drawn ps ls) (k : Drawn ps ms) (hls : Sound (flat ls)) (hms : Sound (flat ms))
    (hf : Fresh features (flat ls)) (kf : Fresh features (flat ms)) :
    (flat ls).map Prod.snd = (flat ms).map Prod.snd := by
  have hparts : ∀ ls : List (Line Entry), (flat ls).map (fun e => (e.2.kind, e.2.text)) =
      flat (ls.map shapeOf) := fun ls => (flat_map _ ls).symm
  rw [hls.placed.tokens hf.features hf.closed, hms.placed.tokens kf.features kf.closed, hparts,
    hparts, h.shapes, k.shapes]

end LineLayout
