-- The library for a folder of TOML files does what is documented of a settings library. Its values
-- are lists of entries; as data they are maps. Putting the entries of a text into the merged table
-- one after the other is putting its data over that of the table, as long as no name stands twice.
import LineLayout.Proofs.SettingsLibrary
import LineLayout.TomlFolder.Library
import Mathlib.Data.List.Induction

namespace LineLayout

/-! ## Names in lower case -/

theorem Text.lowerBehind_of_plain {before text : List Char}
    (h : ∀ c ∈ text, c.toNat < 0x80 ∧ c.toLower = c) : Text.lowerBehind before text = text := by
  induction text generalizing before with
  | nil => rfl
  | cons c text ih =>
    rw [List.forall_mem_cons] at h
    obtain ⟨⟨hlow, hsame⟩, hrest⟩ := h
    have hsigma : c.toNat ≠ 0x3a3 := by omega
    rw [Text.lowerBehind, if_neg hsigma, Text.lowerChar, if_pos hlow, ih hrest, hsame]
    rfl

/-- A name of small ASCII letters and signs is in lower case. -/
theorem Text.lowercase_of_plain {text : String}
    (h : (text.toList.all fun c => c.toNat < 0x80 && c.toLower == c) = true) :
    Text.lowercase text = text := by
  simp only [List.all_eq_true, Bool.and_eq_true, decide_eq_true_eq, beq_iff_eq] at h
  rw [Text.lowercase, Text.lowerBehind_of_plain h, String.ofList_toList]

/-! ## Named entries -/

namespace Fields

variable {α : Type}

theorem mem_of_find? {name : String} {value : α} {fields : List (String × α)}
    (h : find? name fields = some value) : (name, value) ∈ fields := by
  induction fields with
  | nil => cases h
  | cons entry rest ih =>
    obtain ⟨key, first⟩ := entry
    unfold find? at h
    split at h
    · next hkey =>
      cases h
      exact hkey ▸ List.mem_cons_self
    · exact List.mem_cons_of_mem _ (ih h)

theorem find?_of_mem {name : String} {value : α} {fields : List (String × α)}
    (hdistinct : (fields.map Prod.fst).Nodup) (h : (name, value) ∈ fields) :
    find? name fields = some value := by
  induction fields with
  | nil => cases h
  | cons entry rest ih =>
    rw [List.map_cons, List.nodup_cons] at hdistinct
    rcases List.mem_cons.mp h with rfl | hrest
    · exact if_pos rfl
    · have hkey : entry.1 ≠ name := by
        rintro rfl
        exact hdistinct.1 (List.mem_map.mpr ⟨_, hrest, rfl⟩)
      rw [find?, if_neg hkey, ih hdistinct.2 hrest]

theorem find?_of_not_mem {name : String} {fields : List (String × α)}
    (h : name ∉ fields.map Prod.fst) : find? name fields = none := by
  by_contra hsome
  obtain ⟨value, hvalue⟩ := Option.ne_none_iff_exists'.mp hsome
  exact h (List.mem_map_of_mem (mem_of_find? hvalue))

theorem mem_set {name : String} {value : α} {fields : List (String × α)} {entry : String × α}
    (h : entry ∈ set name value fields) : entry = (name, value) ∨ entry ∈ fields := by
  induction fields with
  | nil => exact .inl (List.mem_singleton.mp h)
  | cons first rest ih =>
    unfold set at h
    split at h
    · exact (List.mem_cons.mp h).imp_right (List.mem_cons_of_mem first)
    · rcases List.mem_cons.mp h with rfl | hrest
      · exact .inr List.mem_cons_self
      · exact (ih hrest).imp_right (List.mem_cons_of_mem first)

/-- Setting an entry keeps the names apart. -/
theorem distinct_set (name : String) (value : α) {fields : List (String × α)}
    (h : (fields.map Prod.fst).Nodup) : ((set name value fields).map Prod.fst).Nodup := by
  induction fields with
  | nil => simp [set]
  | cons first rest ih =>
    rw [List.map_cons, List.nodup_cons] at h
    unfold set
    split
    · next hkey =>
      rw [List.map_cons, List.nodup_cons, ← hkey]
      exact h
    · next hkey =>
      rw [List.map_cons, List.nodup_cons]
      refine ⟨?_, ih h.2⟩
      intro hin
      obtain ⟨entry, hentry, hfst⟩ := List.mem_map.mp hin
      rcases mem_set hentry with rfl | hold
      · exact hkey hfst.symm
      · exact h.1 (List.mem_map.mpr ⟨entry, hold, hfst⟩)

end Fields

/-! ## The data of values -/

namespace TomlFolder

open Settings (Data Key)

def Scalar.data : Scalar → Data
  | .boolean on => .boolean on
  | .integer i => .integer i
  | .text s => .text s
  | .nil | .float _ => .other

mutual

/-- What a value holds, without the file that it comes from. -/
def Value.data : Value → Data
  | .scalar _ value => value.data
  | .list _ items => .list (Value.itemsData items)
  | .table _ fields => .table (Value.fieldsData fields)

def Value.itemsData : List Value → List Data
  | [] => []
  | value :: rest => value.data :: Value.itemsData rest

def Value.fieldsData : List (String × Value) → String → Option Data
  | [], _ => none
  | (key, value) :: rest, name => if key = name then some value.data else Value.fieldsData rest name

end

namespace Value

theorem fieldsData_eq (fields : List (String × Value)) (name : String) :
    fieldsData fields name = (Fields.find? name fields).map data := by
  induction fields with
  | nil => rfl
  | cons entry rest ih =>
    unfold fieldsData Fields.find?
    split
    · rfl
    · exact ih

theorem fieldsData_set (name : String) (value : Value) (fields : List (String × Value))
    (other : String) : fieldsData (Fields.set name value fields) other =
      if other = name then some value.data else fieldsData fields other := by
  rw [fieldsData_eq, Fields.find?_set, fieldsData_eq]
  by_cases hname : name = other
  · rw [if_pos hname, if_pos hname.symm, Option.map_some]
  · rw [if_neg hname, if_neg (Ne.symm hname)]

/-- A value whose data is a setting is no table. -/
theorem put_of_accepts {k : Key} {value : Value} (h : k.Accepts value.data) (target : Value)
    (name : String) : target.put name value = target.setField name value := by
  cases value with
  | scalar origin value => rfl
  | list origin items => rfl
  | table origin fields => cases k <;> simp [Key.Accepts, data] at h

end Value

/-! ## Tables of settings -/

/-- The entries of a table that holds nothing but settings of one group. -/
structure GroupFields (group : String) (fields : List (String × Value)) : Prop where
  distinct : (fields.map Prod.fst).Nodup
  settings : ∀ entry ∈ fields, ∃ k : Key, k.group = group ∧ k.name = entry.1 ∧
    k.Accepts entry.2.data

/-- The entries of a merged table: settings in the tables of their groups. -/
structure RootFields (fields : List (String × Value)) : Prop where
  distinct : (fields.map Prod.fst).Nodup
  groups : ∀ entry ∈ fields, ∃ k : Key, k.group = entry.1 ∧
    ∃ origin inner, entry.2 = .table origin inner ∧ GroupFields entry.1 inner

theorem lowercase_group (k : Key) : Text.lowercase k.group = k.group := by
  apply Text.lowercase_of_plain
  cases k <;> rfl

theorem lowercase_name (k : Key) : Text.lowercase k.name = k.name := by
  apply Text.lowercase_of_plain
  cases k <;> rfl

namespace GroupFields

variable {group : String} {new old : List (String × Value)}

theorem nil (group : String) : GroupFields group [] := ⟨List.nodup_nil, by simp⟩

theorem plain (h : GroupFields group new) :
    (Data.table (Value.fieldsData new)).PlainGroup group := by
  refine ⟨_, rfl, ?_⟩
  intro name d hd
  rw [Value.fieldsData_eq, Option.map_eq_some_iff] at hd
  obtain ⟨value, hfind, rfl⟩ := hd
  exact h.settings _ (Fields.mem_of_find? hfind)

theorem set (h : GroupFields group old) {k : Key} (hgroup : k.group = group) {value : Value}
    (haccepts : k.Accepts value.data) : GroupFields group (Fields.set k.name value old) where
  distinct := Fields.distinct_set _ _ h.distinct
  settings := by
    intro entry hentry
    rcases Fields.mem_set hentry with rfl | hold
    · exact ⟨k, hgroup, rfl, haccepts⟩
    · exact h.settings entry hold

/-- Merging settings into a table of the same group puts their data over that of the table. -/
theorem merge (hnew : GroupFields group new) (hold : GroupFields group old)
    (origin : Option String) :
    ∃ inner, Value.merge (.table origin old) new = .table origin inner ∧ GroupFields group inner ∧
      Data.table (Value.fieldsData inner) =
        (Data.table (Value.fieldsData new)).above (.table (Value.fieldsData old)) := by
  rw [hnew.plain.above]
  obtain ⟨hdistinct, hsettings⟩ := hnew
  induction new generalizing old with
  | nil => exact ⟨old, rfl, hold, rfl⟩
  | cons entry new ih =>
    obtain ⟨name, value⟩ := entry
    rw [List.map_cons, List.nodup_cons] at hdistinct
    rw [List.forall_mem_cons] at hsettings
    obtain ⟨⟨k, hgroup, rfl, haccepts⟩, hrest⟩ := hsettings
    obtain ⟨inner, hmerge, hinner, hdata⟩ := ih (hold.set hgroup haccepts) hdistinct.2 hrest
    refine ⟨inner, ?_, hinner, ?_⟩
    · rw [Value.merge, Value.put_of_accepts haccepts, Value.setField, lowercase_name]
      exact hmerge
    · rw [hdata]
      congr 1
      funext other
      rw [Value.fieldsData_set]
      by_cases hother : other = k.name
      · subst hother
        rw [if_pos rfl, Value.fieldsData_eq, Fields.find?_of_not_mem hdistinct.1, Value.fieldsData,
          if_pos rfl]
        rfl
      · rw [if_neg hother, Value.fieldsData, if_neg (Ne.symm hother)]

end GroupFields

namespace RootFields

variable {new old : List (String × Value)}

theorem nil : RootFields [] := ⟨List.nodup_nil, by simp⟩

theorem plain (h : RootFields old) : (Data.table (Value.fieldsData old)).Plain := by
  refine ⟨_, rfl, ?_⟩
  intro group d hd
  rw [Value.fieldsData_eq, Option.map_eq_some_iff] at hd
  obtain ⟨value, hfind, rfl⟩ := hd
  obtain ⟨k, hgroup, origin, inner, hinner, hfields⟩ := h.groups _ (Fields.mem_of_find? hfind)
  rw [show value = .table origin inner from hinner]
  exact ⟨⟨k, hgroup⟩, hfields.plain⟩

theorem set (h : RootFields old) (k : Key) {origin : Option String}
    {inner : List (String × Value)} (hinner : GroupFields k.group inner) :
    RootFields (Fields.set k.group (.table origin inner) old) where
  distinct := Fields.distinct_set _ _ h.distinct
  groups := by
    intro entry hentry
    rcases Fields.mem_set hentry with rfl | hold
    · exact ⟨k, rfl, origin, inner, rfl, hinner⟩
    · exact h.groups entry hold

/-- The table of a group in a merged table. It may be missing. -/
theorem group (h : RootFields old) (k : Key) (origin : Option String) :
    ∃ origin' inner, (((Value.table origin old).field? k.group).getD Value.emptyTable) =
        .table origin' inner ∧ GroupFields k.group inner ∧
      (Value.fieldsData old k.group).getD .empty = .table (Value.fieldsData inner) := by
  rw [Value.field?, lowercase_group, Value.fieldsData_eq]
  cases hfind : Fields.find? k.group old with
  | none => exact ⟨none, [], rfl, .nil _, rfl⟩
  | some value =>
    obtain ⟨-, -, origin', inner, hinner, hfields⟩ := h.groups _ (Fields.mem_of_find? hfind)
    refine ⟨origin', inner, hinner, hfields, ?_⟩
    rw [show value = .table origin' inner from hinner]
    rfl

/-- Putting the table of a group puts its data over that of the table that is there. -/
theorem put (h : RootFields old) {k : Key} {inner : List (String × Value)}
    (hinner : GroupFields k.group inner) (origin origin' : Option String) :
    ∃ fields, (Value.table origin old).put k.group (.table origin' inner) = .table origin fields ∧
      RootFields fields ∧ ∀ name, Value.fieldsData fields name =
        if name = k.group then
          Data.entryAbove (some (.table (Value.fieldsData inner))) (Value.fieldsData old k.group)
        else Value.fieldsData old name := by
  obtain ⟨origin'', before, hbefore, hfields, hdata⟩ := h.group k origin
  obtain ⟨merged, hmerge, hmerged, hover⟩ := hinner.merge hfields origin''
  refine ⟨Fields.set k.group (.table origin'' merged) old, ?_, h.set k hmerged, ?_⟩
  · rw [Value.put, hbefore, hmerge, Value.setField, lowercase_group]
  · intro name
    rw [Value.fieldsData_set]
    congr 1
    rw [Value.data, hover, ← hdata]
    cases Value.fieldsData old k.group with
    | none => rw [Option.getD_none, Data.above_empty, Data.entryAbove_none_right]
    | some d => rfl

theorem overlayEntry_group (root value : Value) (k : Key) :
    overlayEntry root k.group value = .ok (root.put k.group value) := by
  have hparse : KeyPath.parse k.group = .ok ⟨k.group, []⟩ := by
    cases k <;> rfl
  unfold overlayEntry
  rw [hparse]
  rfl

/-- Putting the entries of a text one after the other puts its data over that of the merged
table. -/
theorem overlay (hnew : RootFields new) (hold : RootFields old) (origin : Option String) :
    ∃ fields, TomlFolder.overlay new (.table origin old) = .ok (.table origin fields) ∧
      RootFields fields ∧ Data.table (Value.fieldsData fields) =
        (Data.table (Value.fieldsData new)).above (.table (Value.fieldsData old)) := by
  rw [Data.above_table]
  obtain ⟨hdistinct, hgroups⟩ := hnew
  induction new generalizing old with
  | nil => exact ⟨old, rfl, hold, by simp [Value.fieldsData]⟩
  | cons entry new ih =>
    obtain ⟨name, value⟩ := entry
    rw [List.map_cons, List.nodup_cons] at hdistinct
    rw [List.forall_mem_cons] at hgroups
    obtain ⟨⟨k, rfl, origin', inner, rfl, hinner⟩, hrest⟩ := hgroups
    obtain ⟨first, hput, hfirst, hfirstData⟩ := hold.put hinner origin origin'
    obtain ⟨fields, hoverlay, hfields, hdata⟩ := ih hfirst hdistinct.2 hrest
    refine ⟨fields, ?_, hfields, ?_⟩
    · rw [TomlFolder.overlay, overlayEntry_group, hput]
      exact hoverlay
    · rw [hdata]
      congr 1
      funext name
      rw [hfirstData]
      by_cases hname : name = k.group
      · subst hname
        rw [if_pos rfl, Value.fieldsData_eq, Fields.find?_of_not_mem hdistinct.1, Value.fieldsData,
          if_pos rfl]
        exact Data.entryAbove_none_left _
      · rw [if_neg hname, Value.fieldsData, if_neg (Ne.symm hname)]

end RootFields

/-! ## Texts -/

mutual

/-- The data of a node does not depend on the file that it stands in. -/
theorem data_ofNode (origin : Option String) : ∀ node : Toml.Node,
    (Value.ofNode origin node).data = (Value.ofNode none node).data
  | .scalar _ => rfl
  | .array items | .tables items => congrArg Data.list (itemsData_ofNodes origin items)
  | .closed fields | .table _ fields => congrArg Data.table (fieldsData_ofFields origin fields)

theorem itemsData_ofNodes (origin : Option String) : ∀ items : List Toml.Node,
    Value.itemsData (Value.ofNodes origin items) = Value.itemsData (Value.ofNodes none items)
  | [] => rfl
  | node :: rest => congrArg₂ List.cons (data_ofNode origin node) (itemsData_ofNodes origin rest)

theorem fieldsData_ofFields (origin : Option String) : ∀ fields : List (String × Toml.Node),
    Value.fieldsData (Value.ofFields origin fields) =
      Value.fieldsData (Value.ofFields none fields)
  | [] => rfl
  | (key, node) :: rest => by
    funext name
    simp only [Value.ofFields, Value.fieldsData, data_ofNode origin node,
      fieldsData_ofFields origin rest]

end

theorem map_fst_ofFields (origin : Option String) (nodes : List (String × Toml.Node)) :
    (Value.ofFields origin nodes).map Prod.fst = nodes.map Prod.fst := by
  induction nodes with
  | nil => rfl
  | cons entry nodes ih => rw [Value.ofFields, List.map_cons, ih, List.map_cons]

theorem mem_ofFields {origin : Option String} {nodes : List (String × Toml.Node)}
    {entry : String × Value} (h : entry ∈ Value.ofFields origin nodes) :
    ∃ node, (entry.1, node) ∈ nodes ∧ entry.2 = Value.ofNode origin node := by
  induction nodes with
  | nil => cases h
  | cons first nodes ih =>
    rcases List.mem_cons.mp h with rfl | hrest
    · exact ⟨first.2, List.mem_cons_self, rfl⟩
    · obtain ⟨node, hnode, hentry⟩ := ih hrest
      exact ⟨node, List.mem_cons_of_mem _ hnode, hentry⟩

/-- No name stands twice in a text, nor in a table of it. -/
def NamedOnce (nodes : List (String × Toml.Node)) : Prop :=
  (nodes.map Prod.fst).Nodup ∧
    ∀ entry ∈ nodes, ((Value.ofNode none entry.2).fields.map Prod.fst).Nodup

instance (nodes : List (String × Toml.Node)) : Decidable (NamedOnce nodes) :=
  inferInstanceAs (Decidable ((nodes.map Prod.fst).Nodup ∧ ∀ entry ∈ nodes, _))

theorem map_fst_fields (origin : Option String) (node : Toml.Node) :
    (Value.ofNode origin node).fields.map Prod.fst =
      (Value.ofNode none node).fields.map Prod.fst := by
  cases node with
  | scalar value => rfl
  | array items => rfl
  | tables items => rfl
  | closed fields => simp only [Value.ofNode, Value.fields, map_fst_ofFields]
  | table origin' fields => simp only [Value.ofNode, Value.fields, map_fst_ofFields]

theorem exists_table_of_data {value : Value} {entries : String → Option Data}
    (h : value.data = .table entries) :
    ∃ origin fields, value = .table origin fields ∧ entries = Value.fieldsData fields := by
  cases value with
  | scalar origin value => cases value <;> cases h
  | list origin items => cases h
  | table origin fields =>
    cases h
    exact ⟨origin, fields, rfl, rfl⟩

theorem rootFields_ofFields {nodes : List (String × Toml.Node)} (honce : NamedOnce nodes)
    (hplain : (Data.table (Value.fieldsData (Value.ofFields none nodes))).Plain)
    (origin : Option String) : RootFields (Value.ofFields origin nodes) := by
  rw [← fieldsData_ofFields origin] at hplain
  obtain ⟨groups, hgroups, hall⟩ := hplain
  cases hgroups
  have hdistinct : ((Value.ofFields origin nodes).map Prod.fst).Nodup := by
    rw [map_fst_ofFields]
    exact honce.1
  refine ⟨hdistinct, ?_⟩
  intro entry hentry
  obtain ⟨name, value⟩ := entry
  obtain ⟨node, hnode, rfl⟩ := mem_ofFields hentry
  have hinner := honce.2 _ hnode
  rw [← map_fst_fields origin] at hinner
  have hfind := Fields.find?_of_mem hdistinct hentry
  obtain ⟨⟨k, hgroup⟩, entries, hdata, hsettings⟩ :=
    hall name (Value.ofNode origin node).data (by rw [Value.fieldsData_eq, hfind]; rfl)
  obtain ⟨origin', fields, htable, rfl⟩ := exists_table_of_data hdata
  rw [htable] at hinner ⊢
  rw [Value.fields] at hinner
  refine ⟨k, hgroup, origin', fields, rfl, hinner, ?_⟩
  intro setting hsetting
  exact hsettings _ _
    (by rw [Value.fieldsData_eq, Fields.find?_of_mem hinner hsetting]; rfl)

/-! ## The folder as a world -/

/-- How the library sees a folder. A text is read as data where no name stands twice. -/
def world (files : List (String × String)) : Settings.World (library files) where
  open? path := (locate? files path).map Prod.snd
  reads? content := (Toml.parse? content).bind fun nodes =>
    if NamedOnce nodes then some (.table (Value.fieldsData (Value.ofFields none nodes))) else none
  data := Value.data

section World

variable {files : List (String × String)}

theorem overlayText_plain {content : String} {d : Data}
    (hread : (world files).reads? content = some d) (hplain : d.Plain)
    {old : List (String × Value)} (hold : RootFields old) (origin origin' : Option String) :
    ∃ fields, overlayText origin' content (.table origin old) = .ok (.table origin fields) ∧
      RootFields fields ∧
      Data.table (Value.fieldsData fields) = d.above (.table (Value.fieldsData old)) := by
  obtain ⟨nodes, hparse, hnodes⟩ := Option.bind_eq_some_iff.mp hread
  split at hnodes
  · next honce =>
    cases hnodes
    have hnew := rootFields_ofFields honce hplain origin'
    obtain ⟨fields, hoverlay, hfields, hdata⟩ := hnew.overlay hold origin
    refine ⟨fields, ?_, hfields, ?_⟩
    · simp only [overlayText, hparse, hoverlay]
    · rw [hdata, fieldsData_ofFields]
  · cases hnodes

theorem overlaySource_plain {source : Settings.Source} {d : Data}
    (hgives : (world files).Gives source d) (hplain : d.Plain) {old : List (String × Value)}
    (hold : RootFields old) (origin : Option String) :
    ∃ fields, overlaySource files (.table origin old) source = .ok (.table origin fields) ∧
      RootFields fields ∧
      Data.table (Value.fieldsData fields) = d.above (.table (Value.fieldsData old)) := by
  cases hgives with
  | text hread => exact overlayText_plain hread hplain hold origin none
  | file hopen hread =>
    obtain ⟨found, hfound, rfl⟩ := Option.map_eq_some_iff.mp hopen
    simp only [overlaySource, hfound]
    exact overlayText_plain hread hplain hold origin (some found.1)
  | missing hopen =>
    refine ⟨old, ?_, hold, ?_⟩
    · simp [overlaySource, Option.map_eq_none_iff.mp hopen]
    · simp [Data.empty, Data.above_table]

theorem foldlM_overlaySource {sources : List Settings.Source} {gives : List Data}
    (hgives : List.Forall₂ (world files).Gives sources gives) (hplain : ∀ d ∈ gives, d.Plain)
    {old : List (String × Value)} (hold : RootFields old) (origin : Option String) :
    ∃ fields, sources.foldlM (overlaySource files) (.table origin old) =
        .ok (.table origin fields) ∧ RootFields fields ∧
      Data.table (Value.fieldsData fields) =
        gives.foldl (fun old new => new.above old) (.table (Value.fieldsData old)) := by
  induction hgives generalizing old with
  | nil => exact ⟨old, rfl, hold, rfl⟩
  | cons hfirst _ ih =>
    rw [List.forall_mem_cons] at hplain
    obtain ⟨first, hoverlay, hfields, hdata⟩ := overlaySource_plain hfirst hplain.1 hold origin
    obtain ⟨fields, hrest, hall, hover⟩ := ih hplain.2 hfields
    refine ⟨fields, ?_, hall, ?_⟩
    · rw [List.foldlM_cons, hoverlay]
      exact hrest
    · rw [hover, hdata, List.foldl_cons]

theorem merged_plain {b : Builder} {gives : List Data}
    (hgives : List.Forall₂ (world files).Gives b.sources gives) (hplain : ∀ d ∈ gives, d.Plain) :
    ∃ fields, b.merged files = .ok (.table none fields) ∧ RootFields fields ∧
      Data.table (Value.fieldsData fields) =
        gives.foldl (fun old new => new.above old) .empty := by
  obtain ⟨first, hfold, hfirst, hdata⟩ := foldlM_overlaySource hgives hplain .nil none
  obtain ⟨fields, hoverlay, hfields, hover⟩ := hfirst.overlay .nil none
  refine ⟨fields, ?_, hfields, ?_⟩
  · have hstart : b.sources.foldlM (overlaySource files) Value.emptyTable =
        .ok (.table none first) := hfold
    simp only [Builder.merged, hstart]
    exact hoverlay
  · rw [hover]
    exact (Data.above_empty _).trans hdata

theorem foldlM_overlaySource_missing {sources : List Settings.Source} {path : String}
    (hin : .file path true ∈ sources) (hopen : (world files).open? path = none) (root : Value) :
    ∃ problem, sources.foldlM (overlaySource files) root = .error problem := by
  have hmissing : ∀ root,
      overlaySource files root (.file path true) = .error (.missingFile path) := by
    intro root
    simp [overlaySource, Option.map_eq_none_iff.mp hopen]
  induction sources generalizing root with
  | nil => cases hin
  | cons source sources ih =>
    rw [List.foldlM_cons]
    cases hfirst : overlaySource files root source with
    | error problem => exact ⟨problem, rfl⟩
    | ok changed =>
      rcases List.mem_cons.mp hin with rfl | hrest
      · rw [hmissing] at hfirst
        cases hfirst
      · exact ih hrest changed

theorem merged_missing {b : Builder} {path : String} (hin : .file path true ∈ b.sources)
    (hopen : (world files).open? path = none) :
    ∃ problem, b.merged files = .error problem := by
  obtain ⟨problem, hproblem⟩ := foldlM_overlaySource_missing hin hopen Value.emptyTable
  exact ⟨problem, by rw [Builder.merged, hproblem]; rfl⟩

end World

/-! ## Overrides -/

/-- The path of a setting. -/
def pathOf (k : Key) : KeyPath := ⟨k.group, [.field k.name]⟩

theorem parse_dotted (k : Key) : KeyPath.parse k.dotted = .ok (pathOf k) := by
  cases k <;> rfl

theorem pathOf_injective : Function.Injective pathOf := by
  intro k l h
  simp only [pathOf, KeyPath.mk.injEq, List.cons.injEq, PathStep.field.injEq, and_true] at h
  exact Key.eq_of_group_of_name h.1 h.2

/-- Setting a setting at its path sets its data. -/
theorem RootFields.setAt {old : List (String × Value)} (h : RootFields old) {k : Key}
    {value : Value} (haccepts : k.Accepts value.data) (origin : Option String) :
    ∃ fields, (Value.table origin old).setAt (pathOf k) value = .ok (.table origin fields) ∧
      RootFields fields ∧ Data.table (Value.fieldsData fields) =
        (Data.table (Value.fieldsData old)).setAt k value.data := by
  obtain ⟨origin', inner, hgroup, hinner, hdata⟩ := h.group k origin
  have hput : (((Value.table origin old).field? k.group).getD Value.nil).put k.name value =
      .table origin' (Fields.set k.name value inner) := by
    have hstart : (((Value.table origin old).field? k.group).getD Value.nil).put k.name value =
        (((Value.table origin old).field? k.group).getD Value.emptyTable).put k.name value := by
      rw [Value.put_of_accepts haccepts, Value.put_of_accepts haccepts]
      cases (Value.table origin old).field? k.group <;> rfl
    rw [hstart, hgroup, Value.put_of_accepts haccepts, Value.setField, lowercase_name]
  refine ⟨Fields.set k.group (.table origin' (Fields.set k.name value inner)) old, ?_,
    h.set k (hinner.set rfl haccepts), ?_⟩
  · simp only [Value.setAt, pathOf, Value.assign, hput]
    simp only [bind, Except.bind, pure, Except.pure, Value.setField, lowercase_group]
  · unfold Data.setAt Data.set
    congr 1
    funext group
    rw [Value.fieldsData_set, Data.field?_table, hdata]
    congr 2
    rw [Value.data]
    congr 1
    funext name
    exact Value.fieldsData_set _ _ _ _

/-- An override with its key as a path. -/
def entryOf (o : Key × Value) : KeyPath × Value := (pathOf o.1, o.2)

/-- The data after an override. -/
def setStep (d : Data) (o : Key × Value) : Data := d.setAt o.1 o.2.data

theorem foldl_setStep_comm {k : Key} {value : Data} {others : List (Key × Value)}
    (h : ∀ o ∈ others, o.1 ≠ k) (d : Data) :
    (others.foldl setStep d).setAt k value = others.foldl setStep (d.setAt k value) := by
  induction others generalizing d with
  | nil => rfl
  | cons o others ih =>
    rw [List.forall_mem_cons] at h
    rw [List.foldl_cons, List.foldl_cons, ih h.2, setStep, setStep, Data.setAt_comm _ h.1]

/-- Of two overrides for one setting the later counts, in the place of the earlier. -/
theorem override_entryOf (o : Key × Value) {found : List (Key × Value)}
    (hdistinct : (found.map Prod.fst).Nodup) :
    ∃ found' : List (Key × Value),
      override (pathOf o.1) o.2 (found.map entryOf) = found'.map entryOf ∧
      (found'.map Prod.fst).Nodup ∧ (∀ p ∈ found', p ∈ found ∨ p = o) ∧
      ∀ d, found'.foldl setStep d = setStep (found.foldl setStep d) o := by
  induction found with
  | nil => exact ⟨[o], rfl, by simp, by simp, fun d => rfl⟩
  | cons first found ih =>
    rw [List.map_cons, List.nodup_cons] at hdistinct
    obtain ⟨hfirst, hrest⟩ := hdistinct
    by_cases hkey : first.1 = o.1
    · have hothers : ∀ p ∈ found, p.1 ≠ o.1 := by
        intro p hp hsame
        exact hfirst (List.mem_map.mpr ⟨p, hp, hsame.trans hkey.symm⟩)
      refine ⟨o :: found, ?_, ?_, ?_, ?_⟩
      · have hpath : (entryOf first).1 = pathOf o.1 := congrArg pathOf hkey
        rw [List.map_cons, override, if_pos hpath]
        rfl
      · rw [List.map_cons, List.nodup_cons, ← hkey]
        exact ⟨hfirst, hrest⟩
      · intro p hp
        rcases List.mem_cons.mp hp with rfl | hin
        · exact .inr rfl
        · exact .inl (List.mem_cons_of_mem first hin)
      · intro d
        rw [List.foldl_cons, List.foldl_cons, setStep, setStep, setStep, foldl_setStep_comm hothers,
          hkey, Data.setAt_setAt_same]
    · obtain ⟨found', hset, hdistinct', hmem, hfold⟩ := ih hrest
      refine ⟨first :: found', ?_, ?_, ?_, ?_⟩
      · have hpath : (entryOf first).1 ≠ pathOf o.1 := fun h => hkey (pathOf_injective h)
        rw [List.map_cons, override, if_neg hpath, hset]
        rfl
      · rw [List.map_cons, List.nodup_cons]
        refine ⟨?_, hdistinct'⟩
        intro hin
        obtain ⟨p, hp, hsame⟩ := List.mem_map.mp hin
        rcases hmem p hp with hold | rfl
        · exact hfirst (List.mem_map.mpr ⟨p, hold, hsame⟩)
        · exact hkey hsame.symm
      · intro p hp
        rcases List.mem_cons.mp hp with rfl | hin
        · exact .inl List.mem_cons_self
        · exact (hmem p hin).imp_left (List.mem_cons_of_mem first)
      · intro d
        rw [List.foldl_cons, List.foldl_cons, hfold]

theorem foldlM_setAt {found : List (Key × Value)} (haccepts : ∀ o ∈ found, o.1.Accepts o.2.data)
    {old : List (String × Value)} (hold : RootFields old) (origin : Option String) :
    ∃ fields, (found.map entryOf).foldlM (fun root o => orFault (Value.setAt root o.1 o.2))
        (.table origin old) = .ok (.table origin fields) ∧
      Data.table (Value.fieldsData fields) =
        found.foldl setStep (.table (Value.fieldsData old)) := by
  induction found generalizing old with
  | nil => exact ⟨old, rfl, rfl⟩
  | cons o found ih =>
    rw [List.forall_mem_cons] at haccepts
    obtain ⟨first, hset, hfirst, hdata⟩ := hold.setAt haccepts.1 origin
    obtain ⟨fields, hrest, hall⟩ := ih haccepts.2 hfirst
    refine ⟨fields, ?_, ?_⟩
    · rw [List.map_cons, List.foldlM_cons, entryOf, hset]
      exact hrest
    · rw [hall, hdata, List.foldl_cons, setStep]

/-! ## Builders -/

section Builders

variable {files : List (String × String)} {b : (library files).Builder}
  {sources : List Settings.Source}

theorem sources_of_made {overrides : List (String × (library files).Value)}
    (h : (library files).Made b sources overrides) : b.sources = sources := by
  induction h with
  | builder => rfl
  | addSource _ source ih => exact congrArg (· ++ [source]) ih
  | setOverride _ hset ih =>
    simp only [Builder.setOverride] at hset
    split at hset
    · cases hset
      exact ih
    · cases hset

/-- The overrides of a builder are those that went into it, each setting once. -/
theorem overrides_of_made {overrides : List (Settings.Override (library files))}
    (h : (library files).Made b sources (overrides.map Settings.Override.dotted)) :
    ∃ found : List (Key × Value), b.overrides = found.map entryOf ∧ (found.map Prod.fst).Nodup ∧
      (∀ o ∈ found, o ∈ overrides) ∧
      ∀ d, found.foldl setStep d = overrides.foldl setStep d := by
  generalize hdotted : overrides.map Settings.Override.dotted = dotted at h
  induction h generalizing overrides with
  | builder =>
    rw [List.map_eq_nil_iff.mp hdotted]
    exact ⟨[], rfl, List.nodup_nil, by simp, fun d => rfl⟩
  | addSource _ source ih => exact ih hdotted
  | @setOverride b b' sources before _ key value hset ih =>
    obtain ⟨first, last, rfl, hfirst, hlast⟩ := List.map_eq_append_iff.mp hdotted
    obtain ⟨o, rfl, ho⟩ := List.map_eq_singleton_iff.mp hlast
    cases ho
    obtain ⟨found, hfound, hdistinct, hmem, hfold⟩ := ih hfirst
    obtain ⟨found', hset', hdistinct', hmem', hfold'⟩ := override_entryOf o hdistinct
    refine ⟨found', ?_, hdistinct', ?_, ?_⟩
    · simp only [Builder.setOverride, parse_dotted] at hset
      cases hset
      rw [← hset', hfound]
    · intro p hp
      rw [List.mem_append, List.mem_singleton]
      exact (hmem' p hp).imp_left (hmem p)
    · intro d
      rw [hfold', hfold, List.foldl_append, List.foldl_cons, List.foldl_nil]

end Builders

/-! ## Reading -/

theorem field?_data (value : Value) {name : String} (hname : Text.lowercase name = name) :
    value.data.field? name = (value.field? name).map Value.data := by
  cases value with
  | scalar origin value => cases value <;> rfl
  | list origin items => rfl
  | table origin fields =>
    rw [Value.field?, hname]
    exact Value.fieldsData_eq fields name

/-- Where data has a setting, the value has it in the table of its group. -/
theorem exists_of_at? {root : Value} {k : Key} {d : Data} (h : root.data.at? k = some d) :
    ∃ origin fields value, root.field? k.group = some (.table origin fields) ∧
      Fields.find? k.name fields = some value ∧ value.data = d := by
  obtain ⟨group, hgroup, hd⟩ := Option.bind_eq_some_iff.mp h
  rw [field?_data root (lowercase_group k), Option.map_eq_some_iff] at hgroup
  obtain ⟨table, htable, rfl⟩ := hgroup
  rw [field?_data table (lowercase_name k), Option.map_eq_some_iff] at hd
  obtain ⟨value, hvalue, hdata⟩ := hd
  cases table with
  | scalar origin value => cases hvalue
  | list origin items => cases hvalue
  | table origin fields =>
    rw [Value.field?, lowercase_name] at hvalue
    exact ⟨origin, fields, value, htable, hvalue, hdata⟩

theorem readWidth_eq {value : Value} {columns : Nat} (h : value.data = .integer columns)
    (hcolumns : columns < wordLimit) (key : String) : readWidth key value = .ok columns := by
  cases value with
  | list origin items => cases h
  | table origin fields => cases h
  | scalar origin value =>
    cases value <;> cases h
    rw [readWidth, if_neg (by omega)]
    rfl

theorem readSwitch_eq {value : Value} {on : Bool} (h : value.data = .boolean on) (key : String) :
    readSwitch key value = .ok on := by
  cases value with
  | list origin items => cases h
  | table origin fields => cases h
  | scalar origin value =>
    cases value <;> cases h
    rfl

theorem readWordsFrom_eq {items : List Value} {words : List String}
    (h : Value.itemsData items = words.map .text) (key : String) (place : Nat) :
    readWordsFrom key place items = .ok words := by
  induction items generalizing words place with
  | nil =>
    rw [List.map_eq_nil_iff.mp h.symm]
    rfl
  | cons value items ih =>
    obtain ⟨word, rest, rfl, hword, hrest⟩ := List.map_eq_cons_iff.mp h.symm
    cases value with
    | list origin items => cases hword
    | table origin fields => cases hword
    | scalar origin value =>
      cases value <;> cases hword
      rw [readWordsFrom, ih hrest.symm]
      rfl

theorem readWords_eq {value : Value} {words : List String}
    (h : value.data = .list (words.map .text)) (key : String) :
    readWords key value = .ok words := by
  cases value with
  | scalar origin value => cases value <;> cases h
  | table origin fields => cases h
  | list origin items => exact readWordsFrom_eq (Data.list.inj h) key 0

theorem readSettings_eq {root : Value} {s : Settings} (hwidth : s.unitWidth < wordLimit)
    (h : ∀ k, root.data.at? k = some (s.value k)) : readSettings root = .ok s := by
  obtain ⟨origin, indent, width, hindent, hfindWidth, hdataWidth⟩ := exists_of_at? (h .unitWidth)
  obtain ⟨_, _, switch, hsame, hfindSwitch, hdataSwitch⟩ := exists_of_at? (h .respectFeatures)
  obtain ⟨_, comments, words, hcomments, hfindWords, hdataWords⟩ :=
    exists_of_at? (h .closingKeywords)
  cases hindent.symm.trans hsame
  simp only [Key.group, Key.name] at hindent hcomments hfindWidth hfindSwitch hfindWords
  have hreadWidth := readWidth_eq hdataWidth hwidth
  have hreadSwitch := readSwitch_eq hdataSwitch
  have hreadWords := readWords_eq hdataWords
  simp [readSettings, readIndent, readComments, readField?, needField, bind, Except.bind,
    Except.map, pure, Except.pure, hindent, hcomments, hfindWidth, hfindSwitch, hfindWords,
    hreadWidth, hreadSwitch, hreadWords]

/-! ## Plain texts -/

/-- Entries that are settings in the tables of their groups, each of its type. -/
def settingsOnly (fields : List (String × Value)) : Bool :=
  fields.all fun entry =>
    match entry.2 with
    | .table _ inner =>
      Key.all.any (fun k => k.group == entry.1) && inner.all fun setting =>
        Key.all.any fun k => k.group == entry.1 && k.name == setting.1 &&
          (Settings.defaults.reading? k setting.2.data).isSome
    | _ => false

theorem plain_of_settingsOnly {fields : List (String × Value)} (h : settingsOnly fields = true) :
    (Data.table (Value.fieldsData fields)).Plain := by
  unfold settingsOnly at h
  rw [List.all_eq_true] at h
  refine ⟨_, rfl, ?_⟩
  intro group d hd
  rw [Value.fieldsData_eq, Option.map_eq_some_iff] at hd
  obtain ⟨value, hfind, rfl⟩ := hd
  have hentry := h _ (Fields.mem_of_find? hfind)
  split at hentry
  · next origin inner htable =>
    simp only at htable
    simp only [Bool.and_eq_true, List.any_eq_true, List.all_eq_true, beq_iff_eq] at hentry
    obtain ⟨⟨k, -, hgroup⟩, hsettings⟩ := hentry
    refine ⟨⟨k, hgroup⟩, _, congrArg Value.data htable, ?_⟩
    intro name d hd
    rw [Value.fieldsData_eq, Option.map_eq_some_iff] at hd
    obtain ⟨setting, hsetting, rfl⟩ := hd
    obtain ⟨l, -, ⟨hgroup', hname⟩, hread⟩ := hsettings _ (Fields.mem_of_find? hsetting)
    obtain ⟨s, hs⟩ := Option.isSome_iff_exists.mp hread
    exact ⟨l, hgroup', hname, (Settings.eq_value_of_reading? hs).1⟩
  · cases hentry

/-- A text that holds nothing but settings. -/
def plainText (content : String) : Bool :=
  (Toml.parse? content).any fun nodes =>
    NamedOnce nodes && settingsOnly (Value.ofFields none nodes)

theorem reads_of_plainText (files : List (String × String)) {content : String}
    (h : plainText content = true) :
    ∃ d, (world files).reads? content = some d ∧ d.Plain := by
  unfold plainText at h
  rw [Option.any_eq_true] at h
  obtain ⟨nodes, hparse, hnodes⟩ := h
  simp only [Bool.and_eq_true, decide_eq_true_eq] at hnodes
  refine ⟨_, ?_, plain_of_settingsOnly hnodes.2⟩
  simp only [world, hparse, Option.bind_some, if_pos hnodes.1]

/-- The entries of a text give the built-in settings. -/
def givesDefaults (nodes : List (String × Toml.Node)) : Bool :=
  NamedOnce nodes && settingsOnly (Value.ofFields none nodes) &&
    Settings.defaults.holds? (Value.table none (Value.ofFields none nodes)).data.at?

theorem defaultText_givesDefaults :
    (Toml.parse? Settings.defaultText).any givesDefaults = true := by
  unfold Toml.parse? Settings.defaultText
  repeat rw [String.toList_append]
  decide +kernel

theorem reads_defaultText (files : List (String × String)) :
    ∃ d, (world files).reads? Settings.defaultText = some d ∧ d.Plain ∧
      ∀ k, d.at? k = some (Settings.defaults.value k) := by
  obtain ⟨nodes, hparse, hnodes⟩ := Option.any_eq_true _ _ |>.mp defaultText_givesDefaults
  simp only [givesDefaults, Bool.and_eq_true, decide_eq_true_eq] at hnodes
  obtain ⟨⟨honce, hsettings⟩, hvalues⟩ := hnodes
  refine ⟨_, ?_, plain_of_settingsOnly hsettings, Settings.eq_value_of_holds? hvalues⟩
  simp only [world, hparse, Option.bind_some, if_pos honce]

/-- The library for a folder does what is documented, whatever the files are. -/
theorem library_documented (files : List (String × String)) :
    (library files).Documented (world files) where
  setOverride_ok b k value :=
    ⟨{ b with overrides := override (pathOf k) value b.overrides },
      by simp only [Builder.setOverride, parse_dotted]⟩
  build_ok {b sources overrides gives} hmade hgives hplain haccepts := by
    obtain ⟨found, hfound, -, hmem, hfold⟩ := overrides_of_made hmade
    rw [← sources_of_made hmade] at hgives
    obtain ⟨root, hmerged, hroot, hdata⟩ := merged_plain hgives hplain
    obtain ⟨fields, hset, hfields⟩ :=
      foldlM_setAt (fun o ho => haccepts o (hmem o ho)) hroot none
    refine ⟨.table none fields, ?_, ?_⟩
    · simp only [Builder.build, hmerged, hfound]
      exact hset
    · rw [hdata] at hfields
      exact hfields.trans (hfold _)
  build_missing {b sources overrides path} hmade hin hopen := by
    rw [← sources_of_made hmade] at hin
    obtain ⟨problem, hproblem⟩ := merged_missing hin hopen
    exact ⟨problem, by simp only [Builder.build, hproblem]; rfl⟩
  deserialize_ok _ _ hwidth hvalues := readSettings_eq hwidth hvalues
  reads_default := reads_defaultText files

end TomlFolder

end LineLayout
