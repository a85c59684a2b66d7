-- What a settings library is documented to do, as far as loading relies on it. Files and values are
-- seen as data: a table gives each name at most one entry. New data is put over old data name by
-- name, so an entry hides another one only where neither of the two is a table.
import LineLayout.Settings.Loader
import Mathlib.Data.List.Forall2

namespace LineLayout

namespace Settings

/-! ## Data -/

/-- What a settings file says, or what a value holds. -/
inductive Data where
  | boolean (on : Bool)
  | integer (i : Int)
  | text (s : String)
  | list (items : List Data)
  | table (entries : String → Option Data)
  | other

namespace Data

def empty : Data := .table fun _ => none

/-- The entry of a table under a name. Other data has none. -/
def field? : Data → String → Option Data
  | .table entries, name => entries name
  | _, _ => none

/-- A table with one entry set. Other data gives way to a table. -/
def set (d : Data) (name : String) (value : Data) : Data :=
  .table fun other => if other = name then some value else d.field? other

mutual

/-- New data over old data: tables are merged name by name, all else is replaced. -/
def above : Data → Data → Data
  | .table new, .table old => .table fun name => entryAbove (new name) (old name)
  | new, _ => new
termination_by structural new => new

def entryAbove : Option Data → Option Data → Option Data
  | some new, some old => some (new.above old)
  | some new, none => some new
  | none, old => old
termination_by structural new => new

end

@[simp]
theorem field?_table (entries : String → Option Data) (name : String) :
    (table entries).field? name = entries name := rfl

@[simp]
theorem field?_empty (name : String) : empty.field? name = none := rfl

@[simp]
theorem field?_set (d : Data) (name other : String) (value : Data) :
    (d.set name value).field? other = if other = name then some value else d.field? other := rfl

theorem above_table (new old : String → Option Data) :
    (table new).above (table old) = table fun name => entryAbove (new name) (old name) := rfl

@[simp]
theorem entryAbove_none_left (old : Option Data) : entryAbove none old = old := by
  cases old <;> rfl

@[simp]
theorem entryAbove_none_right (new : Option Data) : entryAbove new none = new := by
  cases new <;> rfl

theorem above_empty (entries : String → Option Data) :
    (table entries).above empty = table entries := by
  rw [empty, above_table]
  simp

end Data

/-! ## The three settings -/

/-- What can be set. -/
inductive Key where
  | unitWidth
  | respectFeatures
  | closingKeywords
  deriving DecidableEq

namespace Key

/-- The table that the setting stands in. -/
def group : Key → String
  | unitWidth | respectFeatures => "indent"
  | closingKeywords => "comments"

def name : Key → String
  | unitWidth => "unit_width"
  | respectFeatures => "respect_feature_flags"
  | closingKeywords => "closing_keywords"

def all : List Key := [unitWidth, respectFeatures, closingKeywords]

theorem mem_all (k : Key) : k ∈ all := by
  cases k <;> simp [all]

/-- The key of an override. -/
def dotted (k : Key) : String := k.group ++ "." ++ k.name

/-- The data is of the type of the setting. -/
def Accepts : Key → Data → Prop
  | unitWidth, d => ∃ columns : Nat, columns < wordLimit ∧ d = .integer columns
  | respectFeatures, d => ∃ on : Bool, d = .boolean on
  | closingKeywords, d => ∃ words : List String, d = .list (words.map .text)

theorem eq_of_group_of_name {k l : Key} (hgroup : k.group = l.group) (hname : k.name = l.name) :
    k = l := by
  cases k <;> cases l <;> first | rfl | simp [group, name] at hgroup hname

/-- A setting is no table, so it replaces what was there. -/
theorem Accepts.above_eq {k : Key} {d : Data} (h : k.Accepts d) (old : Data) : d.above old = d := by
  cases k with
  | unitWidth =>
    obtain ⟨columns, -, rfl⟩ := h
    rfl
  | respectFeatures =>
    obtain ⟨on, rfl⟩ := h
    rfl
  | closingKeywords =>
    obtain ⟨words, rfl⟩ := h
    rfl

end Key

/-- The value of a setting. -/
def value (s : Settings) : Key → Data
  | .unitWidth => .integer s.unitWidth
  | .respectFeatures => .boolean s.respectFeatures
  | .closingKeywords => .list (s.closingKeywords.map .text)

theorem value_injective : Function.Injective value := by
  intro s t h
  have hwidth := congrFun h .unitWidth
  have hswitch := congrFun h .respectFeatures
  have hwords := congrFun h .closingKeywords
  simp only [value, Data.integer.injEq, Data.boolean.injEq, Data.list.injEq, Int.natCast_inj] at *
  have htext : Function.Injective Data.text := fun a b hab => Data.text.inj hab
  exact (Settings.mk.injEq ..).mpr ⟨hwidth, hswitch, htext.list_map hwords⟩

/-- Data for each setting makes settings with a width that fits in a word. -/
theorem exists_value_eq {f : Key → Data} (h : ∀ k : Key, k.Accepts (f k)) :
    ∃ s : Settings, s.unitWidth < wordLimit ∧ ∀ k, f k = s.value k := by
  obtain ⟨columns, hcolumns, hwidth⟩ := h .unitWidth
  obtain ⟨on, hswitch⟩ := h .respectFeatures
  obtain ⟨words, hwords⟩ := h .closingKeywords
  refine ⟨⟨columns, on, words⟩, hcolumns, ?_⟩
  intro k
  cases k <;> assumption

/-- The words of a list of texts. -/
def Data.words? : List Data → Option (List String)
  | [] => some []
  | .text word :: rest => (Data.words? rest).map (word :: ·)
  | _ => none

theorem Data.words?_eq_some {items : List Data} {words : List String} :
    Data.words? items = some words ↔ items = words.map .text := by
  fun_induction Data.words? items generalizing words with
  | case1 => rw [Option.some.injEq, eq_comm, List.nil_eq, List.map_eq_nil_iff]
  | case2 word rest ih =>
    rw [Option.map_eq_some_iff]
    constructor
    · rintro ⟨others, hothers, rfl⟩
      rw [ih.mp hothers]
      rfl
    · intro h
      obtain ⟨w, others, rfl, hw, hrest⟩ := List.map_eq_cons_iff.mp h.symm
      cases hw
      exact ⟨others, ih.mpr hrest.symm, rfl⟩
  | case3 items hne hno =>
    simp only [reduceCtorEq, false_iff]
    intro h
    cases words with
    | nil => exact hne h
    | cons word words => exact hno word _ h

/-- Settings with one of them read from data, if the data is of its type. -/
def reading? (s : Settings) : Key → Data → Option Settings
  | .unitWidth, .integer i =>
    if 0 ≤ i ∧ i < wordLimit then some { s with unitWidth := i.toNat } else none
  | .respectFeatures, .boolean on => some { s with respectFeatures := on }
  | .closingKeywords, .list items =>
    (Data.words? items).map fun words => { s with closingKeywords := words }
  | _, _ => none

theorem eq_value_of_reading? {s t : Settings} {k : Key} {d : Data} (h : s.reading? k d = some t) :
    k.Accepts d ∧ d = t.value k := by
  unfold reading? at h
  split at h
  · split at h
    · next hi =>
      cases h
      refine ⟨⟨_, ?_, (congrArg Data.integer (Int.toNat_of_nonneg hi.1)).symm⟩, ?_⟩
      · omega
      · exact congrArg Data.integer (Int.toNat_of_nonneg hi.1).symm
    · cases h
  · cases h
    exact ⟨⟨_, rfl⟩, rfl⟩
  · obtain ⟨words, hwords, rfl⟩ := Option.map_eq_some_iff.mp h
    have hitems := congrArg Data.list (Data.words?_eq_some.mp hwords)
    exact ⟨⟨words, hitems⟩, hitems⟩
  · cases h

/-- The data of each setting is its value. -/
def holds? (s : Settings) (f : Key → Option Data) : Bool :=
  Key.all.all fun k => (f k).any fun d => s.reading? k d == some s

theorem eq_value_of_holds? {s : Settings} {f : Key → Option Data} (h : s.holds? f = true)
    (k : Key) : f k = some (s.value k) := by
  simp only [holds?, List.all_eq_true, Option.any_eq_true, beq_iff_eq] at h
  obtain ⟨d, hd, hread⟩ := h k (Key.mem_all k)
  rw [hd, (eq_value_of_reading? hread).2]

namespace Data

/-- The data of a setting. -/
def at? (d : Data) (k : Key) : Option Data :=
  (d.field? k.group).bind fun group => group.field? k.name

/-- Sets the data of a setting, in its table. -/
def setAt (d : Data) (k : Key) (value : Data) : Data :=
  d.set k.group (((d.field? k.group).getD empty).set k.name value)

/-- A table that holds nothing but settings of one group, each of its type. -/
def PlainGroup (group : String) (d : Data) : Prop :=
  ∃ entries, d = .table entries ∧
    ∀ name value, entries name = some value → ∃ k : Key, k.group = group ∧ k.name = name ∧
      k.Accepts value

/-- Nothing but settings in their tables, each of its type. -/
def Plain (d : Data) : Prop :=
  ∃ groups, d = .table groups ∧
    ∀ group inner, groups group = some inner → (∃ k : Key, k.group = group) ∧
      inner.PlainGroup group

theorem plain_empty : empty.Plain := ⟨fun _ => none, rfl, by simp⟩

theorem Plain.accepts {d value : Data} {k : Key} (h : d.Plain) (hat : d.at? k = some value) :
    k.Accepts value := by
  obtain ⟨groups, rfl, hgroups⟩ := h
  obtain ⟨inner, hinner, hvalue⟩ := Option.bind_eq_some_iff.mp hat
  obtain ⟨entries, rfl, hentries⟩ := (hgroups _ _ hinner).2
  obtain ⟨l, hgroup, hname, haccepts⟩ := hentries _ _ hvalue
  rwa [Key.eq_of_group_of_name hgroup hname] at haccepts

/-- Of two tables for one group, each entry of the new one counts and the others stay. -/
theorem PlainGroup.above {group : String} {new old : String → Option Data}
    (hnew : (table new).PlainGroup group) :
    (table new).above (table old) = table fun name => (new name).or (old name) := by
  obtain ⟨entries, heq, hentries⟩ := hnew
  cases heq
  rw [above_table]
  congr 1
  funext name
  cases hname : new name with
  | none => rw [entryAbove_none_left, Option.none_or]
  | some value =>
    obtain ⟨k, -, -, haccepts⟩ := hentries name value hname
    cases old name with
    | none => rfl
    | some before => exact congrArg some (haccepts.above_eq before)

theorem PlainGroup.above_plain {group : String} {new old : Data} (hnew : new.PlainGroup group)
    (hold : old.PlainGroup group) : (new.above old).PlainGroup group := by
  obtain ⟨before, rfl, hbefore⟩ := hold
  obtain ⟨entries, rfl, hentries⟩ := id hnew
  refine ⟨_, hnew.above, ?_⟩
  intro name value hvalue
  rcases Option.or_eq_some_iff.mp hvalue with hsome | ⟨-, hsome⟩
  · exact hentries name value hsome
  · exact hbefore name value hsome

theorem Plain.above {new old : Data} (hnew : new.Plain) (hold : old.Plain) :
    (new.above old).Plain := by
  obtain ⟨groups, rfl, hgroups⟩ := hnew
  obtain ⟨before, rfl, hbefore⟩ := hold
  refine ⟨_, above_table groups before, ?_⟩
  intro group inner hinner
  cases hnewGroup : groups group with
  | none =>
    rw [hnewGroup, entryAbove_none_left] at hinner
    exact hbefore group inner hinner
  | some newInner =>
    cases holdGroup : before group with
    | none =>
      rw [holdGroup, entryAbove_none_right] at hinner
      exact hgroups group inner hinner
    | some oldInner =>
      rw [hnewGroup, holdGroup] at hinner
      cases hinner
      obtain ⟨hkey, hplain⟩ := hgroups group newInner hnewGroup
      exact ⟨hkey, hplain.above_plain (hbefore group oldInner holdGroup).2⟩

/-- Plain data over plain data: what the new one sets counts, setting by setting. -/
theorem Plain.at?_above {new old : Data} (hnew : new.Plain) (hold : old.Plain) (k : Key) :
    (new.above old).at? k = (new.at? k).or (old.at? k) := by
  obtain ⟨groups, rfl, hgroups⟩ := hnew
  obtain ⟨before, rfl, hbefore⟩ := hold
  unfold at?
  rw [above_table, field?_table, field?_table, field?_table]
  cases hnewGroup : groups k.group with
  | none => rw [entryAbove_none_left, Option.bind_none, Option.none_or]
  | some newInner =>
    cases holdGroup : before k.group with
    | none => rw [entryAbove_none_right, Option.bind_none, Option.or_none]
    | some oldInner =>
      have hplain := (hgroups _ _ hnewGroup).2
      obtain ⟨entries, rfl, -⟩ := id hplain
      obtain ⟨earlier, rfl, -⟩ := (hbefore _ _ holdGroup).2
      change ((table entries).above (table earlier)).field? k.name = _
      rw [hplain.above]
      rfl

@[simp]
theorem at?_setAt (d : Data) (k l : Key) (value : Data) :
    (d.setAt k value).at? l = if l = k then some value else d.at? l := by
  unfold at? setAt
  by_cases hgroup : l.group = k.group
  · rw [field?_set, if_pos hgroup, Option.bind_some, field?_set, ← hgroup]
    by_cases hname : l.name = k.name
    · rw [if_pos hname, if_pos (Key.eq_of_group_of_name hgroup hname)]
    · rw [if_neg hname, if_neg (fun h => hname (congrArg Key.name h))]
      cases d.field? l.group <;> rfl
  · rw [field?_set, if_neg hgroup, if_neg (fun h => hgroup (congrArg Key.group h))]

theorem setAt_setAt_same (d : Data) (k : Key) (first second : Data) :
    (d.setAt k first).setAt k second = d.setAt k second := by
  unfold setAt set
  congr 1
  funext group
  by_cases hgroup : group = k.group
  · rw [if_pos hgroup, if_pos hgroup]
    congr 2
    funext name
    by_cases hname : name = k.name <;> simp [hname]
  · simp [hgroup]

theorem setAt_comm (d : Data) {k l : Key} (hne : k ≠ l) (first second : Data) :
    (d.setAt k first).setAt l second = (d.setAt l second).setAt k first := by
  unfold setAt set
  congr 1
  funext group
  by_cases hgroups : k.group = l.group
  · have hnames : k.name ≠ l.name := fun h => hne (Key.eq_of_group_of_name hgroups h)
    rw [hgroups]
    by_cases hgroup : group = l.group
    · simp only [hgroup, field?_table, ↓reduceIte, Option.getD_some, Option.some.injEq,
        table.injEq]
      funext name
      by_cases hk : name = k.name
      · simp [hk, hnames]
      · simp [hk]
    · simp [hgroup]
  · by_cases hk : group = k.group
    · simp [hk, hgroups]
    · by_cases hl : group = l.group <;> simp [hk, hl, Ne.symm hgroups]

end Data

/-! ## What is documented -/

/-- How a library sees the files and its own values: the text of the file that a path finds, the
data that a text says if it is well formed, and the data that a value holds. -/
structure World (lib : Library) where
  open? : String → Option String
  reads? : String → Option Data
  data : lib.Value → Data

/-- The data that a source gives. A file that may be missing and is gives none. -/
inductive World.Gives {lib : Library} (w : World lib) : Source → Data → Prop
  | text {content : String} {d : Data} (hread : w.reads? content = some d) :
      Gives w (.text content) d
  | file {path content : String} {required : Bool} {d : Data}
      (hopen : w.open? path = some content) (hread : w.reads? content = some d) :
      Gives w (.file path required) d
  | missing {path : String} (hopen : w.open? path = none) : Gives w (.file path false) .empty

/-- The builders that a library makes, with the sources and overrides that went into them. -/
inductive Library.Made (lib : Library) :
    lib.Builder → List Source → List (String × lib.Value) → Prop
  | builder : Made lib lib.builder [] []
  | addSource {b : lib.Builder} {sources : List Source} {overrides : List (String × lib.Value)}
      (h : Made lib b sources overrides) (source : Source) :
      Made lib (lib.addSource b source) (sources ++ [source]) overrides
  | setOverride {b b' : lib.Builder} {sources : List Source}
      {overrides : List (String × lib.Value)} (h : Made lib b sources overrides) {key : String}
      {value : lib.Value} (hset : lib.setOverride b key value = .ok b') :
      Made lib b' sources (overrides ++ [(key, value)])

/-- A value for one of the settings. -/
abbrev Override (lib : Library) : Type := Key × lib.Value

/-- The override as the library is given it. -/
def Override.dotted {lib : Library} (o : Override lib) : String × lib.Value := (o.1.dotted, o.2)

/-- The settings that the built-in text is for. -/
def defaults : Settings := ⟨4, true, ["end", "until"]⟩

/-- What is documented of a settings library, for settings that are well formed. Sources are merged
in the order in which they were added, and overrides are set in the merged data. -/
structure Library.Documented (lib : Library) (w : World lib) : Prop where
  setOverride_ok : ∀ (b : lib.Builder) (k : Key) (value : lib.Value),
    ∃ b', lib.setOverride b k.dotted value = .ok b'
  build_ok : ∀ {b : lib.Builder} {sources : List Source} {overrides : List (Override lib)}
    {gives : List Data}, lib.Made b sources (overrides.map Override.dotted) →
    List.Forall₂ w.Gives sources gives → (∀ d ∈ gives, d.Plain) →
    (∀ o ∈ overrides, o.1.Accepts (w.data o.2)) →
    ∃ value, lib.build b = .ok value ∧ w.data value =
      overrides.foldl (fun d o => d.setAt o.1 (w.data o.2))
        (gives.foldl (fun old new => new.above old) .empty)
  build_missing : ∀ {b : lib.Builder} {sources : List Source}
    {overrides : List (String × lib.Value)} {path : String}, lib.Made b sources overrides →
    .file path true ∈ sources → w.open? path = none → ∃ problem, lib.build b = .error problem
  deserialize_ok : ∀ (value : lib.Value) (s : Settings), s.unitWidth < wordLimit →
    (∀ k, (w.data value).at? k = some (s.value k)) → lib.deserialize value = .ok s
  reads_default : ∃ d, w.reads? defaultText = some d ∧ d.Plain ∧
    ∀ k, d.at? k = some (defaults.value k)

end Settings

end LineLayout
