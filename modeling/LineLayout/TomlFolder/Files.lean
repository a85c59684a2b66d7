-- Files of a folder by their paths. A path starts at the folder or at the root, and names of
-- folders lead to a file.

namespace LineLayout

namespace TomlFolder

/-- The names of a path, which slashes divide. -/
def pathNames : List Char → List (List Char)
  | [] => [[]]
  | c :: rest =>
    match c, pathNames rest with
    | '/', names => [] :: names
    | _, name :: names => (c :: name) :: names
    | _, [] => [[c]]

/-- The names that a path goes through, without those that stay in place. -/
def pathSteps (path : List Char) : List (List Char) :=
  (pathNames path).filter fun name => name != [] && name != ['.']

/-- The name that leads up. -/
def upward : List Char := ['.', '.']

/-- Where a path leads: names from the root on, or from the folder of the files on. -/
structure Place where
  absolute : Bool
  names : List (List Char)
  deriving DecidableEq

namespace Place

/-- The place that a path starts from. -/
def start (path : List Char) : Place := ⟨path.head? == some '/', []⟩

/-- One step further. Nothing is above the root. -/
def step (p : Place) (name : List Char) : Place :=
  if name != upward then { p with names := p.names ++ [name] }
  else if p.names.all (· == upward) then
    if p.absolute then p else { p with names := p.names ++ [upward] }
  else { p with names := p.names.dropLast }

/-- The place of a file with this name. -/
def ofName (name : String) : Place :=
  (pathSteps name.toList).foldl step (start name.toList)

/-- The place is a folder: a file is inside it, or it lies on the way to the folder of the
files. -/
def isFolder (files : List (String × String)) (p : Place) : Bool :=
  p.names.all (· == upward) || files.any fun file =>
    (ofName file.1).absolute == p.absolute && p.names.isPrefixOf (ofName file.1).names &&
      (ofName file.1).names != p.names

/-- Where some steps lead. Only out of a folder there is a step up. -/
def follow (files : List (String × String)) (p : Place) (steps : List (List Char)) :
    Option Place :=
  steps.foldlM
    (fun p name => if name == upward && !p.isFolder files then none else some (p.step name)) p

end Place

/-- The path ends with a slash or a dot behind its last step, as only that of a folder may. -/
def namesFolder (path : List Char) : Bool :=
  (pathNames path).getLast? != (pathSteps path).getLast?

/-- The steps of a path with the ending of settings files behind the last one. -/
def withEnding? (steps : List (List Char)) : Option (List (List Char)) :=
  match steps.getLast? with
  | none => none
  | some last =>
    if last == upward then none else some (steps.dropLast ++ [last ++ ".toml".toList])

/-- The file that a path names: the exact one, or the one with the ending of settings files. -/
def locate? (files : List (String × String)) (path : String) : Option (String × String) :=
  let fileAt? (steps : List (List Char)) : Option (String × String) :=
    ((Place.start path.toList).follow files steps).bind fun place =>
      files.find? fun file => Place.ofName file.1 = place
  let steps := pathSteps path.toList
  let exact := if namesFolder path.toList then none else fileAt? steps
  exact.or ((withEnding? steps).bind fileAt?)

end TomlFolder

end LineLayout
