-- The settings library that reads TOML files of a folder: one file over the other in their order,
-- overrides of single settings over all files. What comes later wins.
import LineLayout.TomlFolder.Files
import LineLayout.TomlFolder.Reading
import LineLayout.TomlFolder.Toml.Document

namespace LineLayout

namespace TomlFolder

def orFault {α : Type} : Except Fault α → Except Problem α
  | .ok value => .ok value
  | .error cause => .error (.fault cause)

/-! ## Sources -/

/-- Puts one entry of a text over what is there. Its key is a path where it reads as one. -/
def overlayEntry (root : Value) (key : String) (value : Value) : Except Problem Value :=
  match KeyPath.parse key with
  | .ok path => orFault (root.setAt path value)
  | .error _ => .ok (root.put key value)

/-- Puts the entries of a text over what is there. -/
def overlay : List (String × Value) → Value → Except Problem Value
  | [], root => .ok root
  | (key, value) :: rest, root => do
    let changed ← overlayEntry root key value
    overlay rest changed

/-- Puts one text over what is there. -/
def overlayText (origin : Option String) (content : String) (root : Value) :
    Except Problem Value :=
  match Toml.parse? content with
  | none => .error (.malformed origin)
  | some fields => overlay (Value.ofFields origin fields) root

/-- Puts one source over what is there. -/
def overlaySource (files : List (String × String)) (root : Value) :
    Settings.Source → Except Problem Value
  | .text content => overlayText none content root
  | .file path required =>
    match locate? files path with
    | none => if required then .error (.missingFile path) else .ok root
    | some (name, content) => overlayText (some name) content root

/-! ## Builders -/

structure Builder where
  sources : List Settings.Source := []
  overrides : List (KeyPath × Value) := []

/-- Sets an override. Of two for one path the later counts. -/
def override (path : KeyPath) (value : Value) : List (KeyPath × Value) → List (KeyPath × Value)
  | [] => [(path, value)]
  | (other, old) :: rest =>
    if other = path then (path, value) :: rest else (other, old) :: override path value rest

namespace Builder

def addSource (b : Builder) (source : Settings.Source) : Builder :=
  { b with sources := b.sources ++ [source] }

/-- Sets an override whose key is read as a path. -/
def setOverride (b : Builder) (key : String) (value : Value) : Except Problem Builder :=
  match KeyPath.parse key with
  | .ok path => .ok { b with overrides := override path value b.overrides }
  | .error cause => .error (.badKey cause)

/-- All sources one over the other. At the end each entry is put once more, under the key that it
has by then: a key that reads as a path only in lower case takes effect here. -/
def merged (files : List (String × String)) (b : Builder) : Except Problem Value := do
  let root ← b.sources.foldlM (overlaySource files) Value.emptyTable
  overlay root.fields Value.emptyTable

/-- The merged sources with the overrides set in them. -/
def build (files : List (String × String)) (b : Builder) : Except Problem Value := do
  let root ← b.merged files
  b.overrides.foldlM (fun root o => orFault (root.setAt o.1 o.2)) root

end Builder

/-- The library for a folder that holds these files. -/
@[reducible]
def library (files : List (String × String)) : Settings.Library where
  Builder := Builder
  Value := Value
  Error := Problem
  builder := {}
  addSource := Builder.addSource
  setOverride := Builder.setOverride
  build := Builder.build files
  deserialize := readSettings
  message := .refused

end TomlFolder

end LineLayout
