import FeatureTables.OrderedMap
import FeatureTables.Table.Field

/-!
Tables: named fields, one of which identifies the rows. Fields are known by their keys and keep the
order in which they were found; a column whose suggested name is taken gets a free one.
-/

namespace FeatureTables

structure Table where
  name : String
  fields : OrderedMap String Field
  /-- The key of the field that identifies rows. -/
  uid : String
  /-- Rows are not identified by the document. -/
  mergeable : Bool
  /-- The last number that was given to a row. -/
  lastId : Int
  /-- The names of columns, by key, that differ from the suggested ones. -/
  renamed : OrderedMap String String := {}
deriving DecidableEq, Inhabited

namespace Table

/-- The column that identifies rows: by the `id` attribute if `natural`, else by a number. -/
def uidFor (natural : Bool) : Column :=
  if natural then ⟨Key.naturalUid, .text, false, false⟩ else ⟨Key.syntheticUid, .int, false, true⟩

/-- A table with no field but its identifier. -/
def create (name : String) (natural : Bool) : Table where
  name
  fields := OrderedMap.empty.put (uidFor natural).key (.column (uidFor natural))
  uid := (uidFor natural).key
  mergeable := !natural
  lastId := 0

/-! ### What a table says -/

/-- Rows are identified by the document. -/
def hasNaturalId (t : Table) : Bool := t.uid == Key.naturalUid

def uidName (t : Table) : String := Key.columnName t.uid

def uidType (t : Table) : SqlType :=
  match t.fields.get? t.uid with
  | some (.column c) => c.type
  | _ => .int

/-- The name of the column of a field, if the field has one. -/
def columnName? (t : Table) (key : String) : Option String :=
  (t.renamed.get? key).or ((t.fields.get? key).bind Field.columnName?)

def columnNames (t : Table) : List String := t.fields.keys.filterMap t.columnName?

def links (t : Table) : List Link :=
  t.fields.values.filterMap fun
    | .link l => some l
    | _ => none

/-- The table has a link back to `source`. -/
def hasBackLink (t : Table) (source : String) : Bool :=
  t.fields.values.any fun
    | .backLink b => b.table == source
    | _ => false

/-! ### Adding fields -/

/-- The first of `name_2`, `name_3`, … that is not taken; one more than there are names taken are
enough to find it. -/
def freeName (taken : List String) (name : String) : String :=
  let candidates := (List.range (taken.length + 1)).map fun i => name ++ "_" ++ toString (i + 2)
  (candidates.find? (!taken.contains ·)).getD name

/-- Adds a field, or joins it with the one of its key. The identifier stays as it is. -/
def addField (t : Table) (f : Field) : Table :=
  if f.key = t.uid then t
  else
    match t.fields.get? f.key with
    | some known => { t with fields := t.fields.put f.key (known.join f) }
    | none =>
      let clash? := f.columnName?.filter t.columnNames.contains
      let renamed := match clash? with
        | some name => t.renamed.put f.key (freeName t.columnNames name)
        | none => t.renamed
      { t with fields := t.fields.put f.key f, renamed }

/-- What is known of a table after it was found again. -/
def join (t u : Table) : Table :=
  u.fields.values.foldl addField
    { t with mergeable := t.mergeable && u.mergeable, lastId := max t.lastId u.lastId }

end Table
end FeatureTables
