import FeatureTables.Number.Integer
import FeatureTables.Schema.Component
import FeatureTables.Table.Value
import FeatureTables.Text.Blank

/-!
The types of columns, and how the text of a document is read as a value of one. A text that does not
read stays text.
-/

namespace FeatureTables

open Number Schema Text

inductive SqlType where
  | text
  | int
  | real
  | boolean
  /-- Items between blanks, kept as text. -/
  | list (item : SqlType)
deriving DecidableEq, Inhabited

namespace SqlType

/-! ### From the builtin types -/

def wholeTypes : List String :=
  ["integer", "nonPositiveInteger", "negativeInteger", "long", "int", "short", "byte",
   "nonNegativeInteger", "unsignedLong", "unsignedInt", "unsignedShort", "unsignedByte",
   "positiveInteger"]

def realTypes : List String := ["decimal", "float", "double"]

/-- The type for values of a builtin type. -/
def ofBuiltin (name : String) : SqlType :=
  if wholeTypes.contains name then int
  else if realTypes.contains name then real
  else if name = "boolean" then boolean
  else text

def ofKind : SimpleKind → SqlType
  | .atomic name => ofBuiltin name
  | .list item => list (ofBuiltin item)
  | .union => text

/-! ### Names -/

/-- The name in a table definition. -/
def sqlName : SqlType → String
  | text | list _ => "TEXT"
  | int => "INTEGER"
  | real => "REAL"
  | boolean => "BOOLEAN"

def toText : SqlType → String
  | list item => "LIST OF " ++ item.toText
  | t => t.sqlName

/-! ### Values -/

/-- The type of a column that was found with two types. -/
def join (a b : SqlType) : SqlType := if a = b then a else text

/-- The value that a text stands for, blanks at its ends aside, if it is one of the type. -/
def read? (t : SqlType) (s : String) : Option Value :=
  let word := trim s
  match t with
  | int => (readInt? 64 word).map .int
  | real => (Binary64.read? word).map .real
  | boolean =>
    if word = "true" ∨ word = "1" then some (.bool true)
    else if word = "false" ∨ word = "0" then some (.bool false)
    else none
  | text | list _ => none

/-- The value of a text, or the text as it is. -/
def read (t : SqlType) (s : String) : Value := (t.read? s).getD (.text s)

end SqlType
end FeatureTables
