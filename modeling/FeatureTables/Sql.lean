import FeatureTables.Model

/-!
The script that makes a model in a database: a definition for each table, then the rows, all in one
transaction. References are checked at its end, so that rows may name rows that come later.
-/

namespace FeatureTables.Sql

open Text

/-! ### Quoting -/

/-- A text between `mark`s, with every mark inside doubled. -/
def quoted (mark : Char) (s : String) : String :=
  let inside := s.toList.flatMap fun c => if c = mark then [c, c] else [c]
  String.ofList (mark :: inside ++ [mark])

def quotedName (s : String) : String := quoted '\x22' s

def quotedText (s : String) : String := quoted '\x27' s

/-- A value in a statement; a number that is not finite is written as a text. -/
def literal : Value → String
  | .int n => toString n
  | .real x => if x.isFinite then x.plain else quotedText x.plain
  | .bool b => if b then "1" else "0"
  | .text s => quotedText s
  | .geometry wkt srid => "GeomFromText(" ++ quotedText wkt ++ ", " ++ toString srid ++ ")"

/-! ### Tables -/

/-- The type and the conditions of the column of a field. -/
def definition (t : Table) (key : String) (f : Field) : String :=
  if key = t.uid then
    if t.hasNaturalId then "TEXT PRIMARY KEY NOT NULL" else "INTEGER PRIMARY KEY AUTOINCREMENT"
  else
    let type := match f with
      | .column c => c.type.sqlName
      | .link l => l.type.sqlName
      | .backLink b => b.type.sqlName
      | .geometry g => g.type
    if f.isOptional then type else type ++ " NOT NULL"

/-- The table that the column of a field refers to. -/
def target? : Field → Option String
  | .link l => some l.table
  | .backLink b => some b.table
  | _ => none

/-- The fields of a table that have a column, with its name. -/
def columns (t : Table) : List (String × String × Field) :=
  t.fields.entries.filterMap fun (key, f) => (t.columnName? key).map fun name => (name, key, f)

def foreignKey (m : Model) (column target : String) : String :=
  let uid := ((m.table? target).map Table.uidName).getD "id"
  "FOREIGN KEY (" ++ quotedName column ++ ") REFERENCES " ++ quotedName target ++ " ("
    ++ quotedName uid ++ ") DEFERRABLE INITIALLY DEFERRED"

/-- The columns of the members of a substitution group. -/
structure Group where
  name : String
  columns : List String
  /-- One of them has to be there. -/
  required : Bool

/-- Adds a column to its group. -/
def addMember (groups : List Group) (name column : String) (required : Bool) : List Group :=
  if groups.any (·.name == name) then
    groups.map fun g =>
      if g.name = name then ⟨name, g.columns ++ [column], g.required || required⟩ else g
  else groups ++ [⟨name, [column], required⟩]

/-- The groups of a table, in the order of their names. -/
def groups (t : Table) : List Group :=
  let members := (columns t).foldl (fun groups (column, key, f) =>
    match f with
    | .link l =>
      match l.group? with
      | some name =>
        if key = t.uid then groups else addMember groups name column (0 < l.occurs.min)
      | none => groups
    | _ => groups) []
  members.mergeSort fun a b => a.name ≤ b.name

/-- At most one member of a group is there, or just one. -/
def exclusion (t : Table) (g : Group) : String :=
  let sum := String.intercalate " + " (g.columns.map fun c => "(" ++ quotedName c ++ " IS NOT NULL)")
  "CONSTRAINT " ++ quotedName (t.name ++ "_" ++ g.name ++ "_xor") ++ " CHECK (" ++ sum
    ++ (if g.required then " = " else " <= ") ++ "1)"

def createTable (m : Model) (t : Table) : String :=
  let definitions := (columns t).map fun (name, key, f) =>
    quotedName name ++ " " ++ definition t key f
  let references := (columns t).filterMap fun (name, key, f) =>
    if key = t.uid then none else (target? f).map (foreignKey m name)
  let lines := definitions ++ references ++ (groups t).map (exclusion t)
  "CREATE TABLE " ++ quotedName t.name ++ " (\n"
    ++ String.intercalate ",\n" (lines.map ("    " ++ ·)) ++ "\n);"

/-! ### Rows and the script -/

def insert (table : String) (r : Row) : String :=
  let names := r.cells.map fun (column, _) => quotedName column
  let values := r.cells.map fun (_, v) => literal v
  "INSERT INTO " ++ quotedName table ++ " (" ++ String.intercalate ", " names ++ ") VALUES ("
    ++ String.intercalate ", " values ++ ");"

def script (m : Model) : String :=
  let tables := m.tables.values.map fun t => createTable m t ++ "\n\n"
  let rows := m.rows.entries.flatMap fun (name, rows) => rows.map fun r => insert name r ++ "\n"
  "BEGIN;\n\n" ++ String.join tables ++ String.join rows ++ "COMMIT;\n"

end FeatureTables.Sql
