-- The values of a folder's settings files. Each one remembers the file that it comes from, so that
-- a complaint can name it. Tables merge entry by entry, and the names of entries do not depend on
-- case.
import LineLayout.TomlFolder.Fields
import LineLayout.TomlFolder.Lowercase
import LineLayout.TomlFolder.Toml.Node

namespace LineLayout

namespace TomlFolder

inductive Scalar where
  | nil
  | boolean (b : Bool)
  | integer (i : Int)
  | float (x : Binary64)
  | text (s : String)
  deriving DecidableEq

inductive Value where
  | scalar (origin : Option String) (value : Scalar)
  | list (origin : Option String) (items : List Value)
  | table (origin : Option String) (fields : List (String × Value))

namespace Value

def nil : Value := .scalar none .nil

def emptyTable : Value := .table none []

def origin : Value → Option String
  | .scalar origin _ | .list origin _ | .table origin _ => origin

/-- The items of a list. Other values have none. -/
def items : Value → List Value
  | .list _ items => items
  | _ => []

/-- The entries of a table. Other values have none. -/
def fields : Value → List (String × Value)
  | .table _ fields => fields
  | _ => []

/-! ## Values of a file -/

def ofScalar : Toml.Scalar → Scalar
  | .text s | .moment s => .text s
  | .integer i => .integer i
  | .float x => .float x
  | .boolean b => .boolean b

mutual

/-- The value of a node, with the file that it stands in as its origin. -/
def ofNode (origin : Option String) : Toml.Node → Value
  | .scalar value => .scalar origin (ofScalar value)
  | .array items | .tables items => .list origin (ofNodes origin items)
  | .closed fields | .table _ fields => .table origin (ofFields origin fields)

def ofNodes (origin : Option String) : List Toml.Node → List Value
  | [] => []
  | node :: rest => ofNode origin node :: ofNodes origin rest

def ofFields (origin : Option String) : List (String × Toml.Node) → List (String × Value)
  | [] => []
  | (name, node) :: rest => (name, ofNode origin node) :: ofFields origin rest

end

/-! ## Entries of a table -/

/-- The entry of a table under a name in any case. -/
def field? (target : Value) (name : String) : Option Value :=
  match target with
  | .table _ fields => Fields.find? (Text.lowercase name) fields
  | _ => none

/-- Sets an entry. A value that is no table becomes one. -/
def setField (target : Value) (name : String) (value : Value) : Value :=
  match target with
  | .table origin fields => .table origin (Fields.set (Text.lowercase name) value fields)
  | _ => .table none [(Text.lowercase name, value)]

mutual

/-- Puts a value under a name. A table is merged into what is there, all else replaces it. -/
def put (target : Value) (name : String) : Value → Value
  | .table _ incoming =>
    target.setField name (merge ((target.field? name).getD emptyTable) incoming)
  | .scalar origin value => target.setField name (.scalar origin value)
  | .list origin items => target.setField name (.list origin items)

/-- Puts entries into a value one after the other. -/
def merge (target : Value) : List (String × Value) → Value
  | [] => target
  | (name, value) :: rest => merge (put target name value) rest

end

/-- Replaces the items of a list. A value that is no list becomes one. -/
def setItems (target : Value) (items : List Value) : Value :=
  match target with
  | .list origin _ => .list origin items
  | _ => .list none items

end Value

end TomlFolder

end LineLayout
