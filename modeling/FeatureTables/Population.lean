import FeatureTables.Error
import FeatureTables.Geometry
import FeatureTables.Layout.Selection
import FeatureTables.Model

/-!
The rows of a document in the tables that were built for it. Rows that the document identifies are
there once for each identifier; all others get the next number of their table.
-/

namespace FeatureTables

open FeatureTables.Geometry Xml

/-- The rows of a document that are not yet part of the model, and how far the numbers of the tables
went. -/
structure Population where
  rows : OrderedMap String (List Row) := {}
  lastIds : OrderedMap String Int := {}
deriving Inhabited

namespace Population

def rowCount (p : Population) : Nat := p.rows.values.foldl (fun n rows => n + rows.length) 0

/-- Makes the rows part of a model. -/
def commit (p : Population) (m : Model) : Model :=
  let counted := p.lastIds.entries.foldl (fun m (name, n) =>
    { m with tables := m.tables.modify name fun t => { t with lastId := max t.lastId n } }) m
  p.rows.entries.foldl (fun m (name, rows) => m.addRows name rows) counted

/-! ### What populating keeps -/

/-- The row that populates a child. -/
structure Parent where
  table : String
  id : Value
deriving DecidableEq

/-- The rows so far, and the identifiers that rows of the document or of the model have. -/
structure Progress extends Population where
  emitted : OrderedMap String (List String) := {}
deriving Inhabited

/-- What holds while one document is populated. -/
structure Setting where
  model : Model
  layout : Layout
  codec : Codec

/-- Populating may fail, and what was done until then is kept. -/
abbrev PopulateM := ExceptT Error (StateM Progress)

/-- The identifiers of the rows of a table. -/
def knownIds (m : Model) (t : Table) : List String :=
  (m.rowsOf t.name).filterMap fun r => (r.get? t.uidName).map Value.toText

def Setting.start (s : Setting) : Progress where
  lastIds := OrderedMap.ofList (s.model.tables.values.map fun t => (t.name, t.lastId))
  emitted := OrderedMap.ofList
    ((s.model.tables.values.filter Table.hasNaturalId).map fun t => (t.name, knownIds s.model t))

/-! ### Identifiers -/

/-- Numbers are 64-bit words with a sign. -/
def succ (n : Int) : Int := Int.bmod (n + 1) (Nat.pow 2 64)

/-- The next number of a table. -/
def nextId (t : Table) : PopulateM Int := do
  let n := succ (((← get).lastIds.get? t.name).getD t.lastId)
  modify fun p => { p with lastIds := p.lastIds.put t.name n }
  return n

/-- Notes an identifier of a table; says whether it is new. -/
def note (t : Table) (id : String) : PopulateM Bool := do
  let known := ((← get).emitted.get? t.name).getD []
  if known.contains id then return false
  modify fun p => { p with emitted := p.emitted.put t.name (id :: known) }
  return true

/-- The identifier of the row of an element, and whether the row is new. -/
def identify (t : Table) (e : Element) : PopulateM (Value × Bool) := do
  if t.hasNaturalId then
    let id ← match e.attribute? "id" with
      | some id => pure id
      | none =>
        let n ← nextId t
        pure (t.name ++ "_" ++ toString n)
    return (.text id, ← note t id)
  else return (.int (← nextId t), true)

/-! ### Rows -/

/-- Makes room for a row behind those of its table, and returns where it is. -/
def reserve (table : String) : PopulateM Nat := do
  let rows := ((← get).rows.get? table).getD []
  modify fun p => { p with rows := p.rows.put table (rows ++ [{}]) }
  return rows.length

def fill (table : String) (slot : Nat) (r : Row) : PopulateM Unit :=
  modify fun p => { p with rows := p.rows.modify table (·.set slot r) }

def violation {α : Type} (e : Element) (t : Table) (key : String) (cause : Violation) :
    PopulateM α :=
  throw (.cardinality cause
    { tag? := some e.name.toText, table? := some t.name, xpath? := some key })

/-- The cell of a column, if there are both a column and a value for it. -/
def cell (column? : Option String) (value? : Option Value) : List (String × Value) :=
  match column?, value? with
  | some column, some value => [(column, value)]
  | _, _ => []

/-- The table of the row of a child: where the child was placed, else the target of the link. -/
def targetOf (s : Setting) (l : Link) (child : Element) : String :=
  match s.layout.get? child.id with
  | some (.table name) => name
  | _ => l.table

/-- The number of children that a link leads to is within its bounds. -/
def checkCount (e : Element) (t : Table) (l : Link) (count : Nat) : PopulateM Unit :=
  if count = 0 ∧ ¬ l.optional then violation e t l.key .childMissing
  else if l.occurs.max.allows count then return ()
  else violation e t l.key (.tooMany count l.occurs.max)

/-- The cells of a field in the row of an element; `populate` makes the rows of children. -/
def cells (s : Setting) (populate : Element → String → Option Parent → PopulateM Value)
    (e : Element) (t : Table) (id : Value) (parent? : Option Parent) (key : String) :
    Field → PopulateM (List (String × Value))
  | .column c =>
    match s.layout.selectText? c.key e with
    | some text => return cell (t.columnName? key) (some (c.type.read text))
    | none => if c.optional then return [] else violation e t c.key .valueMissing
  | .link l => do
    let children := s.layout.selectNodes l.key e
    checkCount e t l children.length
    let ids ← children.mapM fun child => populate child (targetOf s l child) (some ⟨t.name, id⟩)
    return if l.isMany then [] else cell (t.columnName? key) ids.getLast?
  | .backLink b =>
    return cell (t.columnName? key) ((parent?.filter (·.table == b.table)).map (·.id))
  | .geometry g =>
    match s.layout.selectShape? g.key e with
    | some shape =>
      return cell (t.columnName? key) ((s.codec shape).map fun (wkt, srid) => .geometry wkt srid)
    | none => if g.optional then return [] else violation e t g.key .geometryMissing

/-- Makes the row of an element with an identifier; `populate` makes the rows of children. -/
def addRow (s : Setting) (populate : Element → String → Option Parent → PopulateM Value)
    (e : Element) (t : Table) (id : Value) (parent? : Option Parent) : PopulateM Unit := do
  let slot ← reserve t.name
  let found ← (t.fields.entries.filter (·.1 ≠ t.uid)).mapM fun (key, f) =>
    cells s populate e t id parent? key f
  fill t.name slot ⟨(t.uidName, id) :: found.flatten⟩

/-- Makes the row of an element in a table, unless it is there, and the rows of the children; returns
the identifier of the row. Rows nest at most `n` deep. -/
def populate (s : Setting) : Nat → Element → String → Option Parent → PopulateM Value
  | 0, e, table, _ =>
    throw (.schemaResolution .endless { tag? := some e.name.toText, table? := some table })
  | n + 1, e, table, parent? =>
    match s.model.table? table with
    | none =>
      throw (.schemaResolution .noTable { tag? := some e.name.toText, table? := some table })
    | some t => do
      let (id, isNew) ← identify t e
      if isNew then addRow s (populate s n) e t id parent?
      return id

/-- How deep rows may nest: each link leads further down the document, or to another table. -/
def depthOf (s : Setting) (root : Element) : Nat := (root.size + 1) * (s.model.tables.size + 1)

/-- The rows of a document with its root in this table. -/
def ofRoot (s : Setting) (root : Element) (table : String) : Except Error Population :=
  match (populate s (depthOf s root) root table none).run.run s.start with
  | (.ok _, p) => .ok p.toPopulation
  | (.error e, _) => .error e

end Population
end FeatureTables
