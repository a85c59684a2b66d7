-- The tree of a settings file while its lines are read. A table remembers how it came to be,
-- because that decides what may still be added to it: no table is declared twice, a dotted
-- key opens no table that has a header, and a table between braces is closed.
import LineLayout.TomlFolder.Binary64.Basic
import LineLayout.Fault
import LineLayout.TomlFolder.Fields

namespace LineLayout

namespace Toml

/-- A single value. A date, a time or both is a moment, by the text of it. -/
inductive Scalar where
  | text (s : String)
  | moment (s : String)
  | integer (i : Int)
  | float (x : Binary64)
  | boolean (b : Bool)
  deriving DecidableEq

/-- How a table came to be: by a header of its own, by the header of a table inside it, or by a
dotted key. -/
inductive TableOrigin where
  | declared
  | implied
  | dotted
  deriving DecidableEq

/-- A closed table stands between braces. Tables under one name have a header each. -/
inductive Node where
  | scalar (value : Scalar)
  | array (items : List Node)
  | closed (fields : List (String × Node))
  | table (origin : TableOrigin) (fields : List (String × Node))
  | tables (items : List Node)

/-! ## Growing a table -/

/-- Changes the table that a path of names leads to. Tables that are missing on the way are
made. A name of several tables leads to the last one. With `dotted` the path is part of a
key, and it enters no table that was declared. -/
def inside (dotted : Bool)
    (f : TableOrigin → List (String × Node) → Option (List (String × Node))) :
    List String → TableOrigin → List (String × Node) → Option (List (String × Node))
  | [], origin, fields => f origin fields
  | name :: path, _, fields =>
    match Fields.find? name fields with
    | none =>
      let origin := if dotted then TableOrigin.dotted else TableOrigin.implied
      (inside dotted f path origin []).map fun inner =>
        Fields.set name (.table origin inner) fields
    | some (.table origin inner) =>
      if dotted && origin == .declared then none
      else
        (inside dotted f path origin inner).map fun changed =>
          Fields.set name (.table origin changed) fields
    | some (.tables items) =>
      match items.getLast? with
      | some (.table origin inner) =>
        (inside dotted f path origin inner).map fun changed =>
          Fields.set name (.tables (items.dropLast ++ [.table origin changed])) fields
      | _ => none
    | some _ => none

/-- Adds an entry under a new name. The table that a dotted key leads to has to come from
dotted keys itself, and that of a plain key not. -/
def addEntry (plain : Bool) (name : String) (node : Node) (origin : TableOrigin)
    (fields : List (String × Node)) : Option (List (String × Node)) :=
  if (origin == .dotted) == plain then none
  else if (Fields.find? name fields).isSome then none
  else some (Fields.set name node fields)

/-- Adds an entry under a key with dots: the last name is that of the entry. -/
def addPair (key : List String) (node : Node) (origin : TableOrigin)
    (fields : List (String × Node)) : Option (List (String × Node)) :=
  match key.getLast? with
  | none => none
  | some name =>
    inside true (addEntry key.dropLast.isEmpty name node) key.dropLast origin fields

/-- Declares the table of a header. It must be new, or implied so far, and then it moves behind
the tables that came since. -/
def declare (name : String) (_ : TableOrigin) (fields : List (String × Node)) :
    Option (List (String × Node)) :=
  match Fields.find? name fields with
  | none => some (Fields.set name (.table .declared []) fields)
  | some (.table .implied inner) =>
    some (Fields.erase name fields ++ [(name, .table .declared inner)])
  | some _ => none

/-- Adds one more table under a name that holds several. -/
def declareNext (name : String) (_ : TableOrigin) (fields : List (String × Node)) :
    Option (List (String × Node)) :=
  match Fields.find? name fields with
  | none => some (Fields.set name (.tables [.table .declared []]) fields)
  | some (.tables items) =>
    some (Fields.set name (.tables (items ++ [.table .declared []])) fields)
  | some _ => none

end Toml

end LineLayout
