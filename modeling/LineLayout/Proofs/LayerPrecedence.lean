-- Which layer decides a setting. Merging puts every layer over what is there, table by table, so a
-- layer hides no setting that it does not hold. So each setting has the value of the last override
-- of it, else of the last file that sets it, else of the built-in text, whatever the others are.
import LineLayout.Proofs.TomlFolderLibrary

namespace LineLayout

namespace Settings

variable {lib : Library} {w : World lib}

/-! ## The builder of a loader -/

/-- The file of a layer as a source. -/
def Layer.source (layer : Layer) : Source := .file layer.path layer.required

theorem Loader.builder_withLayer (loader : Loader lib) (layer : Layer) :
    (loader.withLayer layer).builder = lib.addSource loader.builder layer.source := by
  unfold Loader.withLayer Layer.source
  cases layer.required <;> rfl

theorem Library.Made.withLayers {loader : Loader lib} {sources : List Source}
    {overrides : List (String × lib.Value)} (h : lib.Made loader.builder sources overrides)
    (layers : List Layer) :
    lib.Made (layers.foldl Loader.withLayer loader).builder (sources ++ layers.map Layer.source)
      overrides := by
  induction layers generalizing loader sources with
  | nil => simpa using h
  | cons layer layers ih =>
    have hlayer := h.addSource layer.source
    rw [← loader.builder_withLayer] at hlayer
    have hlayers := ih hlayer
    rwa [List.append_assoc] at hlayers

theorem Library.Documented.setOverrides (hdoc : lib.Documented w) {loader : Loader lib}
    {sources : List Source} {before : List (String × lib.Value)}
    (h : lib.Made loader.builder sources before) (overrides : List (Override lib)) :
    ∃ loader', (overrides.map Override.dotted).foldlM
        (fun loader o => Loader.setOverride loader o.1 o.2) loader = .ok loader' ∧
      lib.Made loader'.builder sources (before ++ overrides.map Override.dotted) := by
  induction overrides generalizing loader before with
  | nil => exact ⟨loader, rfl, by simpa using h⟩
  | cons o overrides ih =>
    obtain ⟨b, hset⟩ := hdoc.setOverride_ok loader.builder o.1 o.2
    have hnext : lib.Made (Loader.mk b).builder sources (before ++ [o.dotted]) := h.setOverride hset
    obtain ⟨loader', hrest, hmade⟩ := ih hnext
    refine ⟨loader', ?_, ?_⟩
    · have hfirst : loader.setOverride o.dotted.1 o.dotted.2 = .ok ⟨b⟩ := by
        unfold Loader.setOverride
        rw [Override.dotted, hset]
        rfl
      rw [List.map_cons, List.foldlM_cons, hfirst]
      exact hrest
    · rwa [List.append_assoc] at hmade

theorem Library.Documented.load_eq (hdoc : lib.Documented w) (layers : List Layer)
    (overrides : List (Override lib)) :
    ∃ loader : Loader lib, load lib layers (overrides.map Override.dotted) = loader.build ∧
      lib.Made loader.builder (.text defaultText :: layers.map Layer.source)
        (overrides.map Override.dotted) := by
  have hnew : lib.Made (Loader.new lib).builder [.text defaultText] [] :=
    Library.Made.builder.addSource (.text defaultText)
  obtain ⟨loader, hset, hmade⟩ := hdoc.setOverrides (hnew.withLayers layers) overrides
  refine ⟨loader, ?_, hmade⟩
  unfold load
  simp only [hset]
  rfl

/-! ## Layers -/

namespace Layer

/-- A file that has to be there is missing. -/
def LacksFile (w : World lib) (layer : Layer) : Prop :=
  layer.required = true ∧ w.open? layer.path = none

/-- A file that is there holds nothing but settings, each with a value of its type. -/
def Plain (w : World lib) (layer : Layer) : Prop :=
  ∀ content, w.open? layer.path = some content → ∃ d, w.reads? content = some d ∧ d.Plain

/-- What the file of a layer says, if it is there. -/
def data? (w : World lib) (layer : Layer) : Option Data :=
  (w.open? layer.path).bind w.reads?

/-- The value that a layer has for a setting. -/
def sets? (w : World lib) (k : Key) (layer : Layer) : Option Data :=
  (layer.data? w).bind fun d => d.at? k

theorem Plain.gives {layer : Layer} (h : layer.Plain w) (hthere : ¬ layer.LacksFile w) :
    w.Gives layer.source ((layer.data? w).getD .empty) ∧
      ((layer.data? w).getD .empty).Plain := by
  unfold source data?
  cases hopen : w.open? layer.path with
  | none =>
    have hoptional : layer.required = false := by
      rw [← Bool.not_eq_true]
      exact fun hrequired => hthere ⟨hrequired, hopen⟩
    rw [hoptional]
    exact ⟨.missing hopen, Data.plain_empty⟩
  | some content =>
    obtain ⟨d, hread, hplain⟩ := h content hopen
    rw [Option.bind_some, hread, Option.getD_some]
    exact ⟨.file hopen hread, hplain⟩

theorem at?_data (w : World lib) (layer : Layer) (k : Key) :
    ((layer.data? w).getD .empty).at? k = layer.sets? w k := by
  unfold sets?
  cases layer.data? w <;> rfl

end Layer

instance (layer : Layer) : Decidable (layer.LacksFile w) :=
  inferInstanceAs (Decidable (layer.required = true ∧ w.open? layer.path = none))

/-! ## The value that wins -/

/-- What plain data sets last stays, setting by setting. -/
theorem Data.at?_foldl_above {gives : List Data} (hgives : ∀ d ∈ gives, d.Plain) {old : Data}
    (hold : old.Plain) (k : Key) :
    (gives.foldl (fun old new => new.above old) old).Plain ∧
      (gives.foldl (fun old new => new.above old) old).at? k =
        (gives.filterMap fun d => d.at? k).getLast?.or (old.at? k) := by
  induction gives generalizing old with
  | nil => exact ⟨hold, rfl⟩
  | cons d gives ih =>
    rw [List.forall_mem_cons] at hgives
    obtain ⟨hplain, hat⟩ := ih hgives.2 (hgives.1.above hold)
    refine ⟨hplain, ?_⟩
    rw [List.foldl_cons, hat, hgives.1.at?_above hold, List.filterMap_cons]
    cases d.at? k with
    | none => rfl
    | some value => rw [List.getLast?_cons]; cases (gives.filterMap _).getLast? <;> rfl

/-- The last value that is set for a setting stays. -/
theorem Data.at?_foldl_setAt {β : Type} (key : β → Key) (value : β → Data) (steps : List β)
    (d : Data) (k : Key) :
    (steps.foldl (fun d b => d.setAt (key b) (value b)) d).at? k =
      (steps.filterMap fun b => if key b = k then some (value b) else none).getLast?.or
        (d.at? k) := by
  induction steps generalizing d with
  | nil => rfl
  | cons b steps ih =>
    rw [List.foldl_cons, ih, Data.at?_setAt, List.filterMap_cons]
    by_cases hkey : key b = k
    · rw [if_pos hkey.symm, if_pos hkey, List.getLast?_cons]
      cases (steps.filterMap _).getLast? <;> rfl
    · rw [if_neg (Ne.symm hkey), if_neg hkey]

section Winning

variable (w) (layers : List Layer) (overrides : List (Override lib))

/-- The value of a setting: of its last override, else of the last layer that sets it, else of the
built-in text. -/
def decided (k : Key) : Option Data :=
  (overrides.filterMap fun o => if o.1 = k then some (w.data o.2) else none).getLast?.or
    ((layers.filterMap (Layer.sets? w k)).getLast?.or
      ((w.reads? defaultText).bind fun d => d.at? k))

/-- Loading follows the order of the layers, setting by setting. It fails only for a file that has
to be there and is missing, or a width of zero that wins, and a layer that may be missing and is
can be left out wherever it stands. -/
structure FollowsPrecedence : Prop where
  gives : ∀ s, load lib layers (overrides.map Override.dotted) = .ok s →
    ∀ k, decided w layers overrides k = some (s.value k)
  fails : (∃ problem, load lib layers (overrides.map Override.dotted) = .error problem) ↔
    (∃ layer ∈ layers, layer.LacksFile w) ∨
      decided w layers overrides .unitWidth = some (.integer 0)
  skips : ∀ (P : List Layer) (layer : Layer) (Q : List Layer), layers = P ++ layer :: Q →
    layer.required = false → w.open? layer.path = none →
    (load lib layers (overrides.map Override.dotted)).toOption =
      (load lib (P ++ Q) (overrides.map Override.dotted)).toOption

variable {w} {layers} {overrides}

/-- With all files, the values that win are what is loaded, if the width is one that can be
used. -/
theorem FollowsPrecedence.load_eq (h : FollowsPrecedence w layers overrides)
    (hthere : ∀ layer ∈ layers, ¬ layer.LacksFile w) {s : Settings}
    (hs : ∀ k, decided w layers overrides k = some (s.value k)) (hwidth : s.unitWidth ≠ 0) :
    load lib layers (overrides.map Override.dotted) = .ok s := by
  cases hload : load lib layers (overrides.map Override.dotted) with
  | error problem =>
    rcases h.fails.mp ⟨problem, hload⟩ with ⟨layer, hin, hlacks⟩ | hzero
    · exact absurd hlacks (hthere layer hin)
    · rw [hs, Option.some.injEq, value, Data.integer.injEq] at hzero
      omega
  | ok t =>
    have hvalue : t.value = s.value := by
      funext k
      have hk := h.gives t hload k
      rw [hs, Option.some.injEq] at hk
      exact hk.symm
    rw [value_injective hvalue]

end Winning

section Loading

variable {layers : List Layer} {overrides : List (Override lib)}

theorem Library.Documented.load_lacks (hdoc : lib.Documented w)
    (hlacks : ∃ layer ∈ layers, layer.LacksFile w) (overrides : List (Override lib)) :
    ∃ problem, load lib layers (overrides.map Override.dotted) = .error problem := by
  obtain ⟨loader, hload, hmade⟩ := hdoc.load_eq layers overrides
  obtain ⟨layer, hin, hrequired, hopen⟩ := hlacks
  have hsource : Source.file layer.path true ∈ .text defaultText :: layers.map Layer.source := by
    rw [← hrequired]
    exact List.mem_cons_of_mem _ (List.mem_map_of_mem hin)
  obtain ⟨problem, hbuild⟩ := hdoc.build_missing hmade hsource hopen
  refine ⟨problem, ?_⟩
  rw [hload, Loader.build, hbuild]
  rfl

theorem Library.Documented.exists_decided (hdoc : lib.Documented w)
    (hplain : ∀ layer ∈ layers, layer.Plain w)
    (haccepts : ∀ o ∈ overrides, o.1.Accepts (w.data o.2)) (k : Key) :
    ∃ d, decided w layers overrides k = some d ∧ k.Accepts d := by
  obtain ⟨base, hread, hbase, hdefault⟩ := hdoc.reads_default
  have hsome : (decided w layers overrides k).isSome := by
    unfold decided
    rw [hread, Option.bind_some, hdefault]
    simp
  obtain ⟨d, hd⟩ := Option.isSome_iff_exists.mp hsome
  refine ⟨d, hd, ?_⟩
  unfold decided at hd
  rcases Option.or_eq_some_iff.mp hd with hover | ⟨-, hd⟩
  · obtain ⟨o, ho, hpick⟩ := List.mem_filterMap.mp (List.mem_of_getLast? hover)
    split at hpick
    · next hkey =>
      cases hpick
      exact hkey ▸ haccepts o ho
    · cases hpick
  rcases Option.or_eq_some_iff.mp hd with hlayer | ⟨-, hd⟩
  · obtain ⟨layer, hin, hsets⟩ := List.mem_filterMap.mp (List.mem_of_getLast? hlayer)
    obtain ⟨said, hsaid, hat⟩ := Option.bind_eq_some_iff.mp hsets
    obtain ⟨content, hopen, hsays⟩ := Option.bind_eq_some_iff.mp hsaid
    obtain ⟨d', hsays', hfile⟩ := hplain layer hin content hopen
    cases hsays.symm.trans hsays'
    exact hfile.accepts hat
  · rw [hread, Option.bind_some] at hd
    exact hbase.accepts hd

theorem Library.Documented.build_decided (hdoc : lib.Documented w)
    (hplain : ∀ layer ∈ layers, layer.Plain w) (hthere : ∀ layer ∈ layers, ¬ layer.LacksFile w)
    (haccepts : ∀ o ∈ overrides, o.1.Accepts (w.data o.2)) {b : lib.Builder}
    (hmade : lib.Made b (.text defaultText :: layers.map Layer.source)
      (overrides.map Override.dotted)) :
    ∃ value, lib.build b = .ok value ∧
      ∀ k, (w.data value).at? k = decided w layers overrides k := by
  obtain ⟨base, hread, hbase, -⟩ := hdoc.reads_default
  have hgiven := fun layer hin => (hplain layer hin).gives (hthere layer hin)
  have hgives : List.Forall₂ w.Gives (.text defaultText :: layers.map Layer.source)
      (base :: layers.map fun layer => (layer.data? w).getD .empty) := by
    refine .cons (.text hread) ?_
    rw [List.forall₂_map_left_iff, List.forall₂_map_right_iff, List.forall₂_same]
    exact fun layer hin => (hgiven layer hin).1
  have hall : ∀ d ∈ layers.map fun layer => (layer.data? w).getD .empty, d.Plain := by
    rw [List.forall_mem_map]
    exact fun layer hin => (hgiven layer hin).2
  obtain ⟨value, hbuild, hdata⟩ :=
    hdoc.build_ok hmade hgives (List.forall_mem_cons.mpr ⟨hbase, hall⟩) haccepts
  refine ⟨value, hbuild, ?_⟩
  intro k
  have hmerged := (Data.at?_foldl_above hall (hbase.above Data.plain_empty) k).2
  rw [hbase.at?_above Data.plain_empty, List.filterMap_map] at hmerged
  rw [hdata, Data.at?_foldl_setAt Prod.fst (fun o => w.data o.2), List.foldl_cons, hmerged]
  simp only [Function.comp_def, Layer.at?_data, decided, hread, Option.bind_some]
  congr 2
  exact Option.or_none

/-- With all its files, loading reads the values that win and checks the settings that they
make. -/
theorem Library.Documented.load_plain (hdoc : lib.Documented w)
    (hplain : ∀ layer ∈ layers, layer.Plain w) (hthere : ∀ layer ∈ layers, ¬ layer.LacksFile w)
    (haccepts : ∀ o ∈ overrides, o.1.Accepts (w.data o.2)) :
    ∃ s : Settings, (∀ k, decided w layers overrides k = some (s.value k)) ∧
      load lib layers (overrides.map Override.dotted) = Loader.validate s := by
  choose f hdecided hfits using hdoc.exists_decided hplain haccepts
  obtain ⟨s, hwidth, hs⟩ := exists_value_eq hfits
  obtain ⟨loader, hload, hmade⟩ := hdoc.load_eq layers overrides
  obtain ⟨value, hbuild, hat⟩ := hdoc.build_decided hplain hthere haccepts hmade
  have hvalue : ∀ k, decided w layers overrides k = some (s.value k) := by
    intro k
    rw [hdecided, hs]
  have hread := hdoc.deserialize_ok value s hwidth fun k => (hat k).trans (hvalue k)
  refine ⟨s, hvalue, ?_⟩
  rw [hload]
  simp only [Loader.build, bind, Except.bind, hbuild, hread]

/-- Without layers and overrides the settings are the built-in ones. -/
theorem Library.Documented.loadDefaults_eq (hdoc : lib.Documented w) :
    loadDefaults lib = .ok defaults := by
  have hplain : ∀ layer ∈ ([] : List Layer), layer.Plain w := by simp
  have hthere : ∀ layer ∈ ([] : List Layer), ¬ layer.LacksFile w := by simp
  have haccepts : ∀ o ∈ ([] : List (Override lib)), o.1.Accepts (w.data o.2) := by simp
  obtain ⟨s, hs, hload⟩ := hdoc.load_plain hplain hthere haccepts
  obtain ⟨base, hread, -, hdefault⟩ := hdoc.reads_default
  have hsame : s = defaults := by
    apply value_injective
    funext k
    have hk := hs k
    simp only [decided, List.filterMap_nil, List.getLast?_nil, Option.none_or, hread,
      Option.bind_some, hdefault, Option.some.injEq] at hk
    exact hk.symm
  rw [hsame] at hload
  exact hload

theorem decided_skip (P Q : List Layer) {layer : Layer} (hopen : w.open? layer.path = none)
    (overrides : List (Override lib)) (k : Key) :
    decided w (P ++ layer :: Q) overrides k = decided w (P ++ Q) overrides k := by
  have hsets : layer.sets? w k = none := by
    unfold Layer.sets? Layer.data?
    rw [hopen]
    rfl
  unfold decided
  rw [List.filterMap_append, List.filterMap_cons_none hsets, List.filterMap_append]

theorem Library.Documented.load_skip (hdoc : lib.Documented w) {P Q : List Layer} {layer : Layer}
    (hplain : ∀ l ∈ P ++ layer :: Q, l.Plain w)
    (haccepts : ∀ o ∈ overrides, o.1.Accepts (w.data o.2)) (hoptional : layer.required = false)
    (hopen : w.open? layer.path = none) :
    (load lib (P ++ layer :: Q) (overrides.map Override.dotted)).toOption =
      (load lib (P ++ Q) (overrides.map Override.dotted)).toOption := by
  have hlayer : ¬ layer.LacksFile w := by
    rintro ⟨hrequired, -⟩
    rw [hoptional] at hrequired
    cases hrequired
  have hiff : (∃ l ∈ P ++ layer :: Q, l.LacksFile w) ↔ ∃ l ∈ P ++ Q, l.LacksFile w := by
    simp [or_and_right, exists_or, hlayer]
  have hrest : ∀ l ∈ P ++ Q, l.Plain w := by
    intro l hl
    apply hplain
    rw [List.mem_append] at hl ⊢
    exact hl.imp_right (List.mem_cons_of_mem _)
  by_cases hlacks : ∃ l ∈ P ++ Q, l.LacksFile w
  · obtain ⟨problem, hproblem⟩ := hdoc.load_lacks (hiff.mpr hlacks) overrides
    obtain ⟨problem', hproblem'⟩ := hdoc.load_lacks hlacks overrides
    rw [hproblem, hproblem']
    rfl
  · have hboth := mt hiff.mp hlacks
    push Not at hlacks hboth
    obtain ⟨s, hs, hload⟩ := hdoc.load_plain hplain hboth haccepts
    obtain ⟨s', hs', hload'⟩ := hdoc.load_plain hrest hlacks haccepts
    have hsame : s = s' := by
      apply value_injective
      funext k
      have hk := decided_skip P Q hopen overrides k
      rw [hs, hs', Option.some.injEq] at hk
      exact hk
    rw [hload, hload', hsame]

end Loading

/-- Where the files hold nothing but settings, each setting has the value that its last override or
else the last layer with it gives, and only the width that wins has to be one that can be used. -/
theorem layers_follow_precedence (lib : Library) (w : World lib) (hdoc : lib.Documented w)
    (layers : List Layer) (overrides : List (Override lib))
    (hplain : ∀ layer ∈ layers, layer.Plain w)
    (haccepts : ∀ o ∈ overrides, o.1.Accepts (w.data o.2)) :
    FollowsPrecedence w layers overrides := by
  have hskips : ∀ (P : List Layer) (layer : Layer) (Q : List Layer), layers = P ++ layer :: Q →
      layer.required = false → w.open? layer.path = none →
      (load lib layers (overrides.map Override.dotted)).toOption =
        (load lib (P ++ Q) (overrides.map Override.dotted)).toOption := by
    rintro P layer Q rfl hoptional hopen
    exact hdoc.load_skip hplain haccepts hoptional hopen
  by_cases hlacks : ∃ layer ∈ layers, layer.LacksFile w
  · obtain ⟨problem, hproblem⟩ := hdoc.load_lacks hlacks overrides
    refine ⟨?_, ?_, hskips⟩
    · intro s hs
      rw [hproblem] at hs
      cases hs
    · exact ⟨fun _ => Or.inl hlacks, fun _ => ⟨problem, hproblem⟩⟩
  · have hthere : ∀ layer ∈ layers, ¬ layer.LacksFile w :=
      fun layer hin hlayer => hlacks ⟨layer, hin, hlayer⟩
    obtain ⟨s, hs, hload⟩ := hdoc.load_plain hplain hthere haccepts
    rw [Loader.validate] at hload
    refine ⟨?_, ?_, hskips⟩
    · intro t ht
      rw [hload] at ht
      split at ht
      · cases ht
      · cases ht
        exact hs
    · rw [hload, hs, Option.some.injEq]
      split
      · next hzero => exact ⟨fun _ => Or.inr (by rw [value, hzero]; rfl), fun _ => ⟨_, rfl⟩⟩
      · next hwidth => simp [hlacks, value, hwidth]

/-! ## Files of a project -/

/-- One file has a width that nothing can use, one a table in braces, and one lies elsewhere. -/
def projectFiles : List (String × String) :=
  [("base.toml", "[indent]\nunit_width = 0\n\n[comments]\nclosing_keywords = [\"fi\"]\n"),
    ("team.toml", "comments = \x7b closing_keywords = [\"end\", \"wend\"] \x7d\n"),
    ("/home/me.toml", "[indent]\nrespect_feature_flags = true\nunit_width = 3\n")]

def projectLayers : List Layer :=
  [⟨"base.toml", true⟩, ⟨"gone.toml", false⟩, ⟨"team", true⟩, ⟨"/home/me.toml", true⟩]

def projectOverrides : List (Override (TomlFolder.library projectFiles)) :=
  [(.respectFeatures, .scalar none (.boolean true)),
    (.respectFeatures, .scalar none (.boolean false))]

theorem plain_of_plainText {files : List (String × String)} {layers : List Layer}
    (h : layers.all (fun layer =>
      (TomlFolder.locate? files layer.path).all fun found => TomlFolder.plainText found.2) = true) :
    ∀ layer ∈ layers, layer.Plain (TomlFolder.world files) := by
  intro layer hin content hopen
  obtain ⟨found, hfound, rfl⟩ := Option.map_eq_some_iff.mp hopen
  have hlayer := List.all_eq_true.mp h layer hin
  rw [hfound, Option.all_some] at hlayer
  exact TomlFolder.reads_of_plainText files hlayer

theorem project_files_follow_precedence :
    FollowsPrecedence (TomlFolder.world projectFiles) projectLayers projectOverrides ∧
      load (TomlFolder.library projectFiles) projectLayers
        (projectOverrides.map Override.dotted) = .ok ⟨3, false, ["end", "wend"]⟩ := by
  have hplain : ∀ layer ∈ projectLayers, layer.Plain (TomlFolder.world projectFiles) :=
    plain_of_plainText (by decide +kernel)
  have haccepts : ∀ o ∈ projectOverrides,
      o.1.Accepts ((TomlFolder.world projectFiles).data o.2) := by
    simp only [projectOverrides, List.forall_mem_cons, List.not_mem_nil, false_implies,
      implies_true, and_true]
    exact ⟨⟨true, rfl⟩, ⟨false, rfl⟩⟩
  have hfollows := layers_follow_precedence _ _ (TomlFolder.library_documented projectFiles)
    projectLayers projectOverrides hplain haccepts
  have hvalues : holds? ⟨3, false, ["end", "wend"]⟩
      (decided (TomlFolder.world projectFiles) projectLayers projectOverrides) = true := by
    decide +kernel
  exact ⟨hfollows, hfollows.load_eq (by decide +kernel) (eq_value_of_holds? hvalues) (by decide)⟩

end Settings

end LineLayout
