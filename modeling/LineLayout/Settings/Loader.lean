-- Loading the settings of a run. A settings library finds the files, reads their texts, merges
-- what they say and turns it into settings; here it is a parameter. The loader decides what it
-- is asked: the built-in text first, then files, then single settings above all files. Of the
-- settings that come back it refuses those that no run can use.
import LineLayout.LayoutRun

namespace LineLayout

/-- The settings of a layout run. -/
structure Settings where
  unitWidth : Nat
  respectFeatures : Bool
  closingKeywords : List String
  deriving DecidableEq

namespace Settings

/-- The choices for a run that the settings make. -/
def toOptions (s : Settings) : Options where
  indentWidth := s.unitWidth
  closingKeywords := s.closingKeywords
  respectFeatures := s.respectFeatures

/-! ## The settings library -/

/-- What a library reads settings from: a text, or a file. One that is not required may be
missing. -/
inductive Source where
  | text (content : String)
  | file (path : String) (required : Bool)
  deriving DecidableEq

/-- The functions of a settings library. A builder collects sources and overrides, and building
it gives one merged value. -/
structure Library where
  Builder : Type
  Value : Type
  Error : Type
  builder : Builder
  addSource : Builder → Source → Builder
  setOverride : Builder → String → Value → Except Error Builder
  build : Builder → Except Error Value
  deserialize : Value → Except Error Settings
  message : String → Error

/-! ## The loader -/

/-- The built-in settings. -/
def defaultText : String :=
  "# Built-in defaults for the reindent layout engine.\n" ++
  "# User files layered on top only need the keys they change.\n" ++
  "\n" ++
  "[indent]\n" ++
  "# Columns per indentation level.\n" ++
  "unit_width = 4\n" ++
  "# Leave tokens alone when their lexer-assigned indent / blank-lines switch is off.\n" ++
  "respect_feature_flags = true\n" ++
  "\n" ++
  "[comments]\n" ++
  "# Reserved words that close a block. A standalone comment directly above one of\n" ++
  "# these keeps its indentation.\n" ++
  "closing_keywords = [\"end\", \"until\"]\n"

/-- Settings that come later win, and the built-in ones are at the bottom. -/
structure Loader (lib : Library) where
  builder : lib.Builder

namespace Loader

variable {lib : Library}

def new (lib : Library) : Loader lib := ⟨lib.addSource lib.builder (.text defaultText)⟩

/-- Adds a file. -/
def layer (loader : Loader lib) (path : String) (required : Bool) : Loader lib :=
  ⟨lib.addSource loader.builder (.file path required)⟩

/-- Adds a file that has to be there. -/
def withFile (loader : Loader lib) (path : String) : Loader lib := loader.layer path true

/-- Adds a file that may be missing. -/
def withOptionalFile (loader : Loader lib) (path : String) : Loader lib := loader.layer path false

/-- Sets one setting, by a dotted key, above every file. -/
def setOverride (loader : Loader lib) (key : String) (value : lib.Value) :
    Except lib.Error (Loader lib) :=
  (lib.setOverride loader.builder key value).map Loader.mk

/-- A step of indentation has to have a width. -/
def validate (s : Settings) : Except lib.Error Settings :=
  if s.unitWidth = 0 then .error (lib.message "indent.unit_width must be at least 1") else .ok s

/-- Merges everything and reads the settings. -/
def build (loader : Loader lib) : Except lib.Error Settings := do
  let value ← lib.build loader.builder
  let settings ← lib.deserialize value
  validate settings

end Loader

/-- The built-in settings alone. -/
def loadDefaults (lib : Library) : Except lib.Error Settings := (Loader.new lib).build

/-- A file to load. -/
structure Layer where
  path : String
  required : Bool
  deriving DecidableEq

/-- Adds the file of a layer. -/
def Loader.withLayer {lib : Library} (loader : Loader lib) (layer : Layer) : Loader lib :=
  if layer.required then loader.withFile layer.path else loader.withOptionalFile layer.path

/-- The settings of some files and overrides over the built-in ones. -/
def load (lib : Library) (layers : List Layer) (overrides : List (String × lib.Value)) :
    Except lib.Error Settings := do
  let loader := layers.foldl Loader.withLayer (Loader.new lib)
  let loader ← overrides.foldlM (fun loader o => loader.setOverride o.1 o.2) loader
  loader.build

end Settings

end LineLayout
