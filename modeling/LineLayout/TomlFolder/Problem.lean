-- What can be wrong with the settings of a folder.
import LineLayout.TomlFolder.KeyPath
import LineLayout.Text.Quoted
import LineLayout.TomlFolder.Binary64.Shortest

namespace LineLayout

namespace TomlFolder

/-- What a single setting has to be. -/
inductive Wanted where
  | integer
  | unsigned
  | boolean
  | string
  deriving DecidableEq

def Wanted.words : Wanted → String
  | .integer => "an integer"
  | .unsigned => "an unsigned 64 bit or less integer"
  | .boolean => "a boolean"
  | .string => "a string"

/-- What a group of settings has to be. -/
inductive Shape where
  | indent
  | comments
  | sequence
  deriving DecidableEq

def Shape.words : Shape → String
  | .indent => "struct IndentConfig"
  | .comments => "struct CommentsConfig"
  | .sequence => "a sequence"

/-- The shape as a list of settings in order. -/
def Shape.lengthWords : Shape → String
  | .indent => "struct IndentConfig with 2 elements"
  | .comments => "struct CommentsConfig with 1 element"
  | .sequence => "a sequence"

/-- A single setting in a complaint. -/
def Scalar.shown : Scalar → String
  | .nil => "unit value"
  | .boolean b => "boolean `" ++ toString b ++ "`"
  | .integer i => "64-bit integer `" ++ toString i ++ "`"
  | .float x => "floating point `" ++ x.text ++ "`"
  | .text s => "string " ++ Text.quote s

/-- A single setting in a complaint about a group. -/
def Scalar.shownAsShape : Scalar → String
  | .integer i => "integer `" ++ toString i ++ "`"
  | .float x => "floating point `" ++ x.pointedText ++ "`"
  | other => other.shown

/-- A value in a complaint about a single setting. -/
def Value.shown : Value → String
  | .scalar _ value => value.shown
  | .list .. => "sequence"
  | .table .. => "map"

/-- A value in a complaint about a group. -/
def Value.shownAsShape : Value → String
  | .scalar _ value => value.shownAsShape
  | other => other.shown

inductive Problem where
  | malformed (file : Option String)
  | missingFile (path : String)
  | badKey (cause : KeyProblem)
  | wrongType (found : String) (wanted : Wanted) (key : String) (origin : Option String)
  | wrongShape (found : String) (wanted : Shape)
  | tooShort (length : Nat) (wanted : Shape)
  | missingField (name : String)
  | refused (message : String)
  | fault (cause : Fault)

def Problem.message : Problem → String
  | .malformed file => "malformed " ++ file.getD "text"
  | .missingFile path => "configuration file \"" ++ path ++ "\" not found"
  | .badKey cause => cause.message
  | .wrongType found wanted key origin =>
    "invalid type: " ++ found ++ ", expected " ++ wanted.words ++ " for key `" ++ key ++ "`" ++
      origin.elim "" (" in " ++ ·)
  | .wrongShape found wanted => "invalid type: " ++ found ++ ", expected " ++ wanted.words
  | .tooShort length wanted =>
    "invalid length " ++ toString length ++ ", expected " ++ wanted.lengthWords
  | .missingField name => "missing field `" ++ name ++ "`"
  | .refused message => message
  | .fault cause => cause.message

end TomlFolder

end LineLayout
