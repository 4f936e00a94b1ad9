import FeatureTables.Table

/-!
Models: tables, their rows and the table of the root element. Every link to many rows of a table has
a link back in that table.
-/

namespace FeatureTables

/-- Cells by the names of their columns. -/
structure Row where
  cells : List (String × Value) := []
deriving DecidableEq, Inhabited

def Row.get? (r : Row) (column : String) : Option Value := r.cells.lookup column

structure Model where
  tables : OrderedMap String Table := {}
  rows : OrderedMap String (List Row) := {}
  /-- The table of the root of the first document. -/
  rootTable? : Option String := none
deriving DecidableEq, Inhabited

namespace Model

def table? (m : Model) (name : String) : Option Table := m.tables.get? name

def rowsOf (m : Model) (name : String) : List Row := (m.rows.get? name).getD []

def rowCount (m : Model) : Nat := m.rows.values.foldl (fun n rows => n + rows.length) 0

/-- The tables alone. -/
def withoutRows (m : Model) : Model := { m with rows := {} }

/-- Adds a table, or joins it with the one of its name. -/
def addTable (m : Model) (t : Table) : Model :=
  match m.table? t.name with
  | some known => { m with tables := m.tables.put t.name (known.join t) }
  | none => { m with tables := m.tables.put t.name t }

def addRows (m : Model) (name : String) (rows : List Row) : Model :=
  { m with rows := m.rows.put name (m.rowsOf name ++ rows) }

/-! ### Links back -/

/-- A link back that has to be in the table `target`. -/
structure Owed where
  target : String
  source : String
  type : SqlType

/-- The links back that the links of the model call for. -/
def owed (m : Model) : List Owed :=
  m.tables.values.flatMap fun t =>
    (t.links.filter Link.isMany).map fun l => ⟨l.table, t.name, t.uidType⟩

/-- Puts a link back into its table, unless it is there. -/
def settle (m : Model) (o : Owed) : Model :=
  { m with tables := m.tables.modify o.target fun t =>
      if t.hasBackLink o.source then t else t.addField (.backLink ⟨o.source, o.type⟩) }

def addBackLinks (m : Model) : Model := m.owed.foldl settle m

/-! ### Union -/

/-- Both models in one: tables are joined, and rows follow rows. -/
def join (m n : Model) : Model :=
  let tables := n.tables.values.foldl addTable m
  let all := n.rows.entries.foldl (fun m (name, rows) => m.addRows name rows) tables
  addBackLinks { all with rootTable? := m.rootTable?.or n.rootTable? }

end Model
end FeatureTables
