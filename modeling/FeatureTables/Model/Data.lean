import FeatureTables.Json.Decode
import FeatureTables.Model

/-!
Models as JSON values: a member for each field of a record, and sums by the name of their case; the
kind of a field stands among its members.
-/

namespace FeatureTables

open Number

/-! ### Writing -/

namespace SqlType

def toJson : SqlType → Json
  | text => .string "Text"
  | int => .string "Int"
  | real => .string "Real"
  | boolean => .string "Boolean"
  | list item => .object [("List", item.toJson)]

end SqlType

def MaxOccurs.toJson : MaxOccurs → Json
  | .bounded n => .object [("Bounded", .nat n)]
  | .unbounded => .string "Unbounded"

def Field.toJson : Field → Json
  | .column c => .object [("kind", .string "Column"), ("xpath", .string c.key),
      ("sql_type", c.type.toJson), ("optional", .bool c.optional),
      ("auto_increment", .bool c.autoIncrement)]
  | .link l => .object [("kind", .string "Link"), ("xpath", .string l.key),
      ("table", .string l.table), ("optional", .bool l.optional), ("min_occurs", .nat l.occurs.min),
      ("max_occurs", l.occurs.max.toJson), ("sql_type", l.type.toJson),
      ("substitution_group", Json.option .string l.group?)]
  | .backLink b => .object [("kind", .string "BackLink"), ("table", .string b.table),
      ("sql_type", b.type.toJson)]
  | .geometry g => .object [("kind", .string "Geometry"), ("xpath", .string g.key),
      ("geometry_type", .string g.type), ("dimension", .nat g.dimension), ("srid", .int g.srid),
      ("optional", .bool g.optional)]

/-- A map as an object. -/
def OrderedMap.toJson {α : Type} (f : α → Json) (m : OrderedMap String α) : Json :=
  .object (m.entries.map fun (k, v) => (k, f v))

/-- The new names are left out when there are none. -/
def Table.toJson (t : Table) : Json :=
  .object ([("name", .string t.name), ("fields", t.fields.toJson Field.toJson),
      ("uid", .string t.uid), ("mergeable", .bool t.mergeable), ("last_id", .int t.lastId)]
    ++ if t.renamed.entries.isEmpty then [] else [("renamed", t.renamed.toJson .string)])

def Value.toJson : Value → Json
  | int n => .object [("Int", .int n)]
  | real x => .object [("Real", .real x)]
  | bool b => .object [("Bool", .bool b)]
  | text s => .object [("Text", .string s)]
  | geometry wkt srid =>
    .object [("Geometry", .object [("wkt", .string wkt), ("srid", .int srid)])]

def Row.toJson (r : Row) : Json :=
  .object [("values", .array (r.cells.map fun (c, v) => .array [.string c, v.toJson]))]

def Model.toJson (m : Model) : Json :=
  .object [("tables", m.tables.toJson Table.toJson),
    ("rows", m.rows.toJson fun rows => .array (rows.map Row.toJson)),
    ("root_table", Json.option .string m.rootTable?)]

/-! ### Reading -/

/-- Inside of a field a case that holds nothing may also hold an empty object. -/
def Field.holdsNothing : Option Json → Bool
  | some (.object []) => true
  | held? => Json.holdsNothing held?

/-- A type, whose cases hold nothing in the sense of `isBare`. -/
def SqlType.ofCase? (isBare : Option Json → Bool) : Json → Option SqlType
  | .object [("List", item)] => (SqlType.ofCase? isBare item).map .list
  | j => do
    let (name, held?) ← j.case?
    let type ← [("Text", text), ("Int", int), ("Real", real), ("Boolean", boolean)].lookup name
    if isBare held? then some type else none

def SqlType.ofJson? (j : Json) : Option SqlType := SqlType.ofCase? Json.holdsNothing j

/-- The type of a field. -/
def Field.sqlType? (j : Json) : Option SqlType := SqlType.ofCase? Field.holdsNothing j

/-- How often the target of a field may occur. -/
def Field.maxOccurs? (j : Json) : Option MaxOccurs :=
  match j.case? with
  | some ("Bounded", some n) => (n.asNat? countMax).map .bounded
  | some ("Unbounded", held?) => if Field.holdsNothing held? then some .unbounded else none
  | _ => none

def Column.ofJson? (j : Json) : Option Column := do
  let r ← j.fields? ["xpath", "sql_type", "optional", "auto_increment"] false
  return {
    key := ← r.required "xpath" Json.asString?
    type := ← r.required "sql_type" Field.sqlType?
    optional := ← r.required "optional" Json.asBool?
    autoIncrement := ← r.required "auto_increment" Json.asBool? }

def Link.ofJson? (j : Json) : Option Link := do
  let r ← j.fields?
    ["xpath", "table", "optional", "min_occurs", "max_occurs", "sql_type", "substitution_group"]
    false
  let occursMin ← r.required "min_occurs" (Json.asNat? countMax)
  let occursMax ← r.required "max_occurs" Field.maxOccurs?
  return {
    key := ← r.required "xpath" Json.asString?
    table := ← r.required "table" Json.asString?
    optional := ← r.required "optional" Json.asBool?
    occurs := ⟨occursMin, occursMax⟩
    type := ← r.required "sql_type" Field.sqlType?
    group? := ← r.optional "substitution_group" Json.asString? }

def BackLink.ofJson? (j : Json) : Option BackLink := do
  let r ← j.fields? ["table", "sql_type"] false
  return {
    table := ← r.required "table" Json.asString?
    type := ← r.required "sql_type" Field.sqlType? }

def GeometryColumn.ofJson? (j : Json) : Option GeometryColumn := do
  let r ← j.fields? ["xpath", "geometry_type", "dimension", "srid", "optional"] false
  return {
    key := ← r.required "xpath" Json.asString?
    type := ← r.required "geometry_type" Json.asString?
    dimension := ← r.required "dimension" (Json.asNat? 255)
    srid := ← r.required "srid" (Json.asInt? 32)
    optional := ← r.required "optional" Json.asBool? }

/-- The kind of a field and the rest of it. -/
def Field.kind? : Json → Option (String × Json)
  | .object members =>
    match members.filter (·.1 == "kind") with
    | [(_, .string kind)] => some (kind, .object (members.filter (·.1 != "kind")))
    | _ => none
  | .array (.string kind :: items) => some (kind, .array items)
  | _ => none

/-- A field is read as a whole before its kind is known, so it has no part that is passed over. -/
def Field.ofJson? (j : Json) : Option Field := do
  if !j.isSound then none
  let (kind, rest) ← Field.kind? j
  match kind with
  | "Column" => (Column.ofJson? rest).map .column
  | "Link" => (Link.ofJson? rest).map .link
  | "BackLink" => (BackLink.ofJson? rest).map .backLink
  | "Geometry" => (GeometryColumn.ofJson? rest).map .geometry
  | _ => none

/-- An object as a map. -/
def OrderedMap.ofJson? {α : Type} (f : Json → Option α) (j : Json) :
    Option (OrderedMap String α) :=
  (j.asMap? f).map OrderedMap.mk

def Table.ofJson? (j : Json) : Option Table := do
  let r ← j.fields? ["name", "fields", "uid", "mergeable", "last_id", "renamed"] false
  return {
    name := ← r.required "name" Json.asString?
    fields := ← r.required "fields" (OrderedMap.ofJson? Field.ofJson?)
    uid := ← r.required "uid" Json.asString?
    mergeable := ← r.required "mergeable" Json.asBool?
    lastId := ← r.required "last_id" (Json.asInt? 64)
    renamed := ← r.defaulted "renamed" {} (OrderedMap.ofJson? Json.asString?) }

def Value.geometryOfJson? (j : Json) : Option Value := do
  let r ← j.fields? ["wkt", "srid"] false
  return .geometry (← r.required "wkt" Json.asString?) (← r.required "srid" (Json.asInt? 32))

def Value.ofJson? (j : Json) : Option Value :=
  match j.case? with
  | some ("Int", some n) => (n.asInt? 64).map .int
  | some ("Real", some x) => x.asReal?.map .real
  | some ("Bool", some b) => b.asBool?.map .bool
  | some ("Text", some s) => s.asString?.map .text
  | some ("Geometry", some g) => geometryOfJson? g
  | _ => none

def Row.ofJson? (j : Json) : Option Row := do
  let r ← j.fields? ["values"] false
  return ⟨← r.required "values" (Json.asList? (Json.asPair? Json.asString? Value.ofJson?))⟩

def Model.ofJson? (j : Json) : Option Model := do
  let r ← j.fields? ["tables", "rows", "root_table"] false
  return {
    tables := ← r.required "tables" (OrderedMap.ofJson? Table.ofJson?)
    rows := ← r.required "rows" (OrderedMap.ofJson? (Json.asList? Row.ofJson?))
    rootTable? := ← r.optional "root_table" Json.asString? }

end FeatureTables
