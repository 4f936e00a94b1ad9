import FeatureTables.Geometry
import FeatureTables.Layout
import FeatureTables.Model
import FeatureTables.Options
import FeatureTables.Typing

/-!
From a typed document to tables, on top of the tables of earlier documents, and to the placements of
its elements. A repeated child, one with an `id` and one that substitutes for a head have a table of
their own; other children are part of the row of their parent as far as the options allow.
-/

namespace FeatureTables.Layout

open Text Xml

/-! ### Elements -/

/-- Nothing stands at the element or in it. -/
def isVoid (e : Element) (t : NodeTyping) : Bool :=
  t.attributes.entries.isEmpty && e.children.isEmpty && e.text?.isNone

/-- The document identifies the element. -/
def hasNaturalId (e : Element) (t : NodeTyping) : Bool :=
  t.declaresId || (e.attribute? "id").isSome

/-- The step from an element to a child: its name, with the label of its namespace when a child of
another namespace has this name too. -/
def keyStep (parent child : Element) : String :=
  let clash := parent.children.any fun other =>
    other.localName == child.localName && other.ns? != child.ns?
  match child.ns?.bind namespaceLabel? with
  | some label => if clash then label ++ ":" ++ child.localName else child.localName
  | none => child.localName

/-- The part of a table name for a step. -/
def stepName (step : String) : String := replace ":" "_" step

/-! ### Fields of a table -/

/-- The keys of the steps on the way to what a key leads to. -/
def waysTo (run : List Char) : List Char → List String
  | [] => []
  | c :: s =>
    if c = '/' then String.ofList run.reverse :: waysTo (c :: run) s else waysTo (c :: run) s

def isLinkAt (t : Table) (key : String) : Bool :=
  match t.fields.get? key with
  | some (.link _) => true
  | _ => false

/-- The keys of the fields that show that a child is in one document a part of the row and in
another one a row, given the field that shows the opposite. -/
def conflicts (t : Table) (f : Field) : List String :=
  match f with
  | .link l => t.fields.keys.filter (startsWith · (l.key ++ "/"))
  | _ => (waysTo [] f.key.toList).filter (isLinkAt t)

/-- Adds a field of a document. Where fields are in conflict, rows may lack either. -/
def addField (t : Table) (f : Field) : Table :=
  match conflicts t f with
  | [] => t.addField f
  | keys =>
    let fields := keys.foldl (fun fields key => fields.modify key Field.relaxed) t.fields
    { t with fields }.addField f.relaxed

/-! ### Building -/

/-- What holds during the building of one document. -/
structure Setting where
  typing : Typing
  options : BuildOptions

/-- A model under construction. -/
structure Building where
  model : Model
  layout : Layout := {}

abbrev BuildM := StateT Building (Except Error)

def typingOf (s : Setting) (e : Element) : Except Error NodeTyping :=
  match s.typing.get? e.id with
  | some t => .ok t
  | none => .error (.schemaResolution .untyped { tag? := some e.name.toText })

def place (e : Element) (p : Placement) : BuildM Unit :=
  modify fun b => { b with layout := b.layout.put e.id p }

/-- Makes a table, unless it is there. -/
def startTable (name : String) (natural : Bool) : BuildM Unit :=
  modify fun b =>
    if b.model.tables.contains name then b
    else { b with model := b.model.addTable (Table.create name natural) }

def addFields (name : String) (fields : List Field) : BuildM Unit :=
  modify fun b => { b with model.tables := b.model.tables.modify name (fields.foldl addField) }

/-- Gives an element a row of its own, with the fields that `collect` finds. -/
def buildTable (s : Setting) (e : Element) (name : String) (collect : BuildM (List Field)) :
    BuildM (Option String) := do
  let t ← typingOf s e
  if isVoid e t then
    place e .empty
    return none
  else
    startTable name (hasNaturalId e t)
    place e (.table name)
    addFields name (← collect)
    return some name

/-! ### The cost of inlining -/

/-- How deep an element nests and how many columns it brings along. -/
structure Cost where
  depth : Nat
  columns : Nat

def fits (o : BuildOptions) (c : Cost) : Bool :=
  c.depth ≤ o.mergeMaxDepth && o.mergeMaxColumns?.all (c.columns ≤ ·)

/-- The cost of an element with that of a child added. A child that gets a table of its own costs the
column of its link at most; `nested` is the cost of a complex child by its table name. -/
def childCost (s : Setting) (name : String) (parent e : Element)
    (nested : String → Except Error (Option Cost)) (cost : Cost) : Except Error Cost := do
  let t ← typingOf s e
  let plus (columns : Nat) : Cost := { cost with columns := cost.columns + columns }
  if t.isGeometry then return plus 1
  else if isVoid e t || t.isRepeated then return cost
  else if hasNaturalId e t || t.head?.isSome then return plus 1
  else if t.isSimple then return plus (t.attributes.size + 1)
  else
    match (← nested (name ++ "_" ++ stepName (keyStep parent e))).filter (fits s.options) with
    | some c => return ⟨max cost.depth (c.depth + 1), cost.columns + c.columns⟩
    | none => return plus 1

mutual
/-- The cost of a complex element as a part of a row, if it may be one. -/
def inlineCost? (s : Setting) (m : Model) (name : String) :
    Element → Except Error (Option Cost)
  | ⟨id, qname, attributes, text?, children, scope⟩ => do
    let e : Element := ⟨id, qname, attributes, text?, children, scope⟩
    let t ← typingOf s e
    if t.isGeometry || t.head?.isSome || hasNaturalId e t || m.tables.contains name then
      return none
    else
      let own := t.attributes.size + if t.isSimple && text?.isSome then 1 else 0
      return some (← inlineCostAmong s m name e ⟨1, own⟩ children)
def inlineCostAmong (s : Setting) (m : Model) (name : String) (parent : Element) (cost : Cost) :
    List Element → Except Error Cost
  | [] => .ok cost
  | e :: es => do
    let cost ← childCost s name parent e (fun below => inlineCost? s m below e) cost
    inlineCostAmong s m name parent cost es
end

/-- The child is a part of the row of its parent. -/
def isInlined (s : Setting) (m : Model) (name : String) (e : Element) (t : NodeTyping) :
    Except Error Bool := do
  if t.isRepeated || hasNaturalId e t || t.head?.isSome then return false
  else if t.isSimple then return true
  else return (← inlineCost? s m name e).any (fits s.options)

/-! ### The fields of an element -/

/-- The fields of the attributes and of the text of an element. -/
def ownFields (e : Element) (t : NodeTyping) : List Field :=
  let attributes := t.attributes.entries.map fun (name, a) =>
    Field.column ⟨"@" ++ name, SqlType.ofKind a.kind, !a.required, false⟩
  match t.content?, e.text? with
  | some kind, some _ => attributes ++ [.column ⟨Key.text, SqlType.ofKind kind, false, false⟩]
  | _, _ => attributes

/-- The field of a geometry. -/
def geometryField (o : BuildOptions) (e : Element) (optional : Bool) : Field :=
  .geometry {
    key := Key.geometry
    type := Geometry.wktType e.localName
    dimension := (Geometry.dimension? e).getD o.defaultDimension
    srid := (Geometry.srid? e).getD o.defaultSrid
    optional }

/-- The link to a child with a row of its own. -/
def linkField (m : Model) (step table : String) (t : NodeTyping) (optional : Bool) : Field :=
  .link {
    key := step
    table
    optional := optional || t.head?.isSome
    occurs := t.occurs
    type := ((m.table? table).map Table.uidType).getD .int
    group? := t.group? }

/-- A child as a part of the row of its parent. -/
def inlineChild (e : Element) (step : String) (optional : Bool) (fields : BuildM (List Field)) :
    BuildM (List Field) := do
  place e .inlined
  return (← fields).map (Field.under step optional)

/-- A child with a row of its own in the table `target`. -/
def linkChild (s : Setting) (e : Element) (t : NodeTyping) (step target : String) (optional : Bool)
    (fields : BuildM (List Field)) : BuildM (List Field) := do
  match ← buildTable s e target fields with
  | some target => return [linkField (← get).model step target t optional]
  | none => return []

/-- The fields that a child brings to the row of its parent; `fields` collects those of the child by
the name that the names of tables start with. -/
def childFields (s : Setting) (name : String) (parent e : Element)
    (fields : String → BuildM (List Field)) : BuildM (List Field) := do
  let t ← typingOf s e
  let step := keyStep parent e
  let optional := t.occurs.min == 0 || t.nillable
  let below := name ++ "_" ++ stepName step
  if t.isGeometry then
    place e .geometry
    return [geometryField s.options e optional]
  else if isVoid e t then
    place e .empty
    return []
  else if ← isInlined s (← get).model below e t then
    inlineChild e step optional (fields below)
  else
    let target := if hasNaturalId e t then stepName step else below
    linkChild s e t step target optional (fields target)

mutual
/-- The fields that an element brings to its row; `name` is how the names of the tables of children
start. -/
def collect (s : Setting) (name : String) : Element → BuildM (List Field)
  | ⟨id, qname, attributes, text?, children, scope⟩ => do
    let e : Element := ⟨id, qname, attributes, text?, children, scope⟩
    let t ← typingOf s e
    return ownFields e t ++ (← collectAmong s name e children)
def collectAmong (s : Setting) (name : String) (parent : Element) :
    List Element → BuildM (List Field)
  | [] => return []
  | e :: es => do
    let fields ← childFields s name parent e fun below => collect s below e
    return fields ++ (← collectAmong s name parent es)
end

/-! ### Documents -/

/-- The model with a document built in, and the layout of the document. -/
structure Outcome where
  model : Model
  layout : Layout
  /-- The table of the root, unless the root says nothing. -/
  rootTable? : Option String

/-- Builds the tables of a document into a model. -/
def build (s : Setting) (m : Model) (root : Element) : Except Error Outcome := do
  let name := root.localName
  let (rootTable?, b) ← (buildTable s root name (collect s name root)).run { model := m }
  let model := { b.model with rootTable? := b.model.rootTable?.or rootTable? }
  return { model := model.addBackLinks, layout := b.layout, rootTable? }

end FeatureTables.Layout
