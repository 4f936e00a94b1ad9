import FeatureTables.Occurs
import FeatureTables.Table.Key
import FeatureTables.Table.SqlType

/-!
Fields of tables: columns with a value of the document, links to rows for children, links back to
the rows of parents, and geometries. A field that is found again is joined with what is known of it.
-/

namespace FeatureTables

/-! ### The kinds of fields -/

structure Column where
  key : String
  type : SqlType
  /-- Rows may lack it. -/
  optional : Bool
  /-- It numbers the rows of its table. -/
  autoIncrement : Bool := false
deriving DecidableEq, Inhabited

/-- From a row to the rows of children. -/
structure Link where
  key : String
  /-- The table of the children. -/
  table : String
  optional : Bool
  occurs : Occurs
  /-- The type of the identifiers of the table. -/
  type : SqlType
  /-- The head for which the child substitutes. -/
  group? : Option String
deriving DecidableEq, Inhabited

/-- From the row of a child to that of its parent. -/
structure BackLink where
  /-- The table of the parent. -/
  table : String
  type : SqlType
deriving DecidableEq, Inhabited

structure GeometryColumn where
  key : String
  /-- The type name in well-known text. -/
  type : String
  dimension : Nat
  srid : Int
  optional : Bool
deriving DecidableEq, Inhabited

inductive Field where
  | column (c : Column)
  | link (l : Link)
  | backLink (b : BackLink)
  | geometry (g : GeometryColumn)
deriving DecidableEq, Inhabited

/-- The child may occur more than once, so that the link has no column. -/
def Link.isMany (l : Link) : Bool := l.occurs.max.isMany

/-- The key of the back-link to a table, which is no path. -/
def BackLink.keyFor (table : String) : String := "backlink(" ++ table ++ ")"

namespace Field

def key : Field → String
  | column c => c.key
  | link l => l.key
  | backLink b => BackLink.keyFor b.table
  | geometry g => g.key

/-- The name that the key suggests for the column of the field, if it has one. -/
def columnName? : Field → Option String
  | column c => some (Key.columnName c.key)
  | link l => if l.isMany then none else some (Key.columnName l.key ++ "_id")
  | backLink b => some (b.table ++ "_id")
  | geometry g => some (Key.columnName g.key)

def isOptional : Field → Bool
  | column c => c.optional
  | link l => l.optional
  | backLink _ => true
  | geometry g => g.optional

/-! ### Changes -/

/-- The field as it is seen from one step above. -/
def under (step : String) (optional : Bool) : Field → Field
  | column c => column { c with key := Key.under step c.key, optional := c.optional || optional }
  | link l => link { l with key := Key.under step l.key, optional := l.optional || optional }
  | backLink b => backLink b
  | geometry g =>
    geometry { g with key := Key.under step g.key, optional := g.optional || optional }

/-- The field without the claim that rows have it. -/
def relaxed : Field → Field
  | column c => column { c with optional := true }
  | link l => link { l with optional := true }
  | backLink b => backLink b
  | geometry g => geometry { g with optional := true }

/-- What is known of a field after it was found again: the wider bounds and types, and the target,
the reference system and the group of the first time. A field of another kind changes nothing. -/
def join : Field → Field → Field
  | column a, column b =>
    column { a with type := a.type.join b.type, optional := a.optional || b.optional }
  | link a, link b =>
    link { a with
      optional := a.optional || b.optional
      occurs := ⟨min a.occurs.min b.occurs.min, a.occurs.max.join b.occurs.max⟩
      group? := a.group?.or b.group? }
  | geometry a, geometry b =>
    geometry { a with
      type := if a.type = b.type then a.type else "GEOMETRY"
      dimension := max a.dimension b.dimension
      optional := a.optional || b.optional }
  | a, _ => a

theorem key_join (a b : Field) : (a.join b).key = a.key := by
  cases a <;> cases b <;> rfl

theorem key_relaxed (f : Field) : f.relaxed.key = f.key := by
  cases f <;> rfl

end Field
end FeatureTables
