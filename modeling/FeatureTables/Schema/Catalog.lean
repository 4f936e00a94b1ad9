import FeatureTables.Location
import FeatureTables.OrderedMap
import FeatureTables.Schema.Builtin
import FeatureTables.Schema.Declaration

/-!
The global components of all schema documents of a closure, and the questions that documents ask of
them: which declaration a name has, how types derive, and what values a type holds.
-/

namespace FeatureTables.Schema

/-- The bound on chains of base types and of substitutions, and on nested groups. -/
def maxDerivation : Nat := 64

structure Catalog where
  elements : OrderedMap QName ElementDecl := {}
  types : OrderedMap QName TypeDef := {}
  attributes : OrderedMap QName AttributeDecl := {}
  attributeGroups : OrderedMap QName AttributeGroup := {}
  groups : OrderedMap QName Particle := {}
  /-- All element declarations that substitute for a head, in the order of loading. -/
  substitutes : List ElementDecl := []
  /-- The target namespaces and the locations of the documents, in the order of loading. -/
  namespaces : List (Option String) := []
  locations : List Location := []

namespace Catalog

/-- Takes in the declarations of one document; a later declaration replaces one of its name. -/
def register (c : Catalog) (d : Declarations) : Catalog :=
  { c with
    elements := c.elements.putAll (d.elements.map fun e => (e.name, e))
    types := c.types.putAll (d.types.filterMap fun t => t.name?.map fun n => (n, t))
    attributes := c.attributes.putAll (d.attributes.map fun a => (a.name, a))
    attributeGroups := c.attributeGroups.putAll d.attributeGroups
    groups := c.groups.putAll d.groups
    substitutes := c.substitutes ++ d.elements.filter (·.substitutes?.isSome) }

/-! ### Types -/

/-- The type of a name; the XSD namespace holds the builtin types only. -/
def type? (c : Catalog) (name : QName) : Option TypeDef :=
  if name.ns? = some xsdNamespace then Builtin.type? name.localName else c.types.get? name

def resolveType (c : Catalog) : TypeRef → Except Error TypeDef
  | .anonymous t => .ok t
  | .named name =>
    match c.type? name with
    | some t => .ok t
    | none => .error (.unresolved (.unknownType name.toText))

/-- The type of a declaration, followed through at most `n` substitution heads. -/
def elementTypeWithin (c : Catalog) : Nat → ElementDecl → Except Error TypeDef
  | n, decl =>
    match decl.type? with
    | some ref => (c.resolveType ref).mapError (·.withTag decl.name.toText)
    | none =>
      match n, decl.substitutes?.bind c.elements.get? with
      | n + 1, some head => c.elementTypeWithin n head
      | _, _ => .ok Builtin.anyType

/-- The type of a declaration: its own one, else that of its head, else any. -/
def elementType (c : Catalog) (decl : ElementDecl) : Except Error TypeDef :=
  c.elementTypeWithin maxDerivation decl

/-- A type and up to `n` ancestors, with the name of the base that is not there, if the chain ends
at one. -/
def chainFrom (c : Catalog) : Nat → TypeDef → List TypeDef × Option QName
  | 0, t => ([t], none)
  | n + 1, t =>
    match t.base? with
    | none => ([t], none)
    | some (.anonymous b) => let (ts, missing?) := c.chainFrom n b; (t :: ts, missing?)
    | some (.named name) =>
      match c.type? name with
      | none => ([t], some name)
      | some b => let (ts, missing?) := c.chainFrom n b; (t :: ts, missing?)

/-- A type and its ancestors. -/
def chain (c : Catalog) (t : TypeDef) : List TypeDef × Option QName :=
  c.chainFrom (maxDerivation - 1) t

/-- The names in the chain of a type. -/
def chainNames (c : Catalog) (t : TypeDef) : List QName :=
  let (ts, missing?) := c.chain t
  ts.filterMap (·.name?) ++ missing?.toList

/-- `t` is `ancestor` or derives from it. -/
def derivesFrom (c : Catalog) (t ancestor : TypeDef) : Bool :=
  (c.chain t).1.any (·.same ancestor)

def derivesFromName (c : Catalog) (t : TypeDef) (name : QName) : Bool :=
  (c.chainNames t).contains name

/-- The names of geometry types, for documents of which the geometry schemas are not loaded. -/
def geometryTypes : List String :=
  ["AbstractGeometryType", "AbstractGeometricPrimitiveType", "AbstractGeometricAggregateType",
   "AbstractCurveType", "AbstractSurfaceType", "AbstractRingType", "PointType", "LineStringType",
   "LinearRingType", "CurveType", "PolygonType", "SurfaceType", "MultiPointType",
   "MultiLineStringType", "MultiCurveType", "MultiPolygonType", "MultiSurfaceType",
   "MultiGeometryType"]

def isGeometryType (c : Catalog) (t : TypeDef) : Bool :=
  (c.chainNames t).any fun n => isGml n.ns? && geometryTypes.contains n.localName

/-! ### Values -/

/-- What a type of the chain says of the values by itself: an item type, a union, or the name of a
builtin type. -/
inductive Decisive where
  | list (item : TypeRef)
  | union
  | builtin (name : String)

def decisive? (t : TypeDef) : Option Decisive :=
  let byName? : Option Decisive :=
    (t.name?.filter fun n => n.ns? = some xsdNamespace).map fun n => .builtin n.localName
  match t with
  | .simple ⟨_, _, _, .list item⟩ => some (.list item)
  | .simple ⟨_, _, _, .union⟩ => some .union
  | _ => byName?

/-- The builtin type of the items of a list, by their kind: items that are no atomic values count as
strings. -/
def itemName : Option SimpleKind → String
  | some (.atomic name) => name
  | _ => "string"

/-- The values of a type, given those of the types of items; a type without simple content has
none. -/
def kindBy (c : Catalog) (itemKind : TypeDef → Option (Option SimpleKind)) (t : TypeDef) :
    Option (Option SimpleKind) :=
  if t.hasSimpleContent then
    match (c.chain t).1.findSome? decisive? with
    | some (.list item) =>
      match c.resolveType item with
      | .error _ => some (some (.list "string"))
      | .ok u => (itemKind u).map fun k => some (.list (itemName k))
    | some .union => some (some .union)
    | some (.builtin name) => some (some (.atomic name))
    | none => some (some .string)
  else some none

/-- The values of a type of which the items are lists again at most `n` times over; nothing is said
of a type whose lists go deeper. -/
def kindWithin (c : Catalog) : Nat → TypeDef → Option (Option SimpleKind)
  | 0 => c.kindBy fun _ => none
  | n + 1 => c.kindBy (c.kindWithin n)

/-- The types that the bases and the items of a type are among, and those of these. -/
def typesFrom (c : Catalog) (t : TypeDef) : List TypeDef :=
  t.parts ++ (c.types.values ++ Builtin.types).flatMap TypeDef.parts

/-- The values of a type. Lists that are nested deeper than there are types are lists of themselves:
the search through their items has no end. -/
def kind? (c : Catalog) (t : TypeDef) : Option (Option SimpleKind) :=
  c.kindWithin (c.typesFrom t).length t

/-- The values of a type that has some. -/
def simpleKind? (c : Catalog) (t : TypeDef) : Option SimpleKind := (c.kind? t).join

/-- Refuses a type of which the values are not found. -/
def requireKind (c : Catalog) (t : TypeDef) : Except Error Unit :=
  if (c.kind? t).isSome then .ok () else .error (.unresolved (.endlessList t.displayName))

/-- The type of an attribute that names one which is there. -/
def attributeType? (c : Catalog) (decl : AttributeDecl) : Option TypeDef :=
  decl.type?.bind fun ref => (c.resolveType ref).toOption

def attributeKind (c : Catalog) (decl : AttributeDecl) : SimpleKind :=
  ((c.attributeType? decl).bind c.simpleKind?).getD .string

/-- Refuses an attribute of which the values are not found. -/
def requireAttributeKind (c : Catalog) (decl : AttributeDecl) : Except Error Unit :=
  match c.attributeType? decl with
  | some t => c.requireKind t
  | none => .ok ()

/-! ### Substitution groups -/

/-- The members of the groups of the heads in `queue`, and of the groups of these members, heads
that were seen before aside. -/
def membersFrom (c : Catalog) : Nat → (seen queue : List QName) → List ElementDecl
  | 0, _, _ => []
  | _, _, [] => []
  | n + 1, seen, head :: queue =>
    if seen.contains head then c.membersFrom n seen queue
    else
      let members := c.substitutes.filter (·.substitutes? == some head)
      members ++ c.membersFrom n (head :: seen) (queue ++ members.map (·.name))

/-- All members of the substitution group of a head. Each declaration is in one group, so their
number bounds the search. -/
def substitutionGroup (c : Catalog) (head : QName) : List ElementDecl :=
  c.membersFrom (c.substitutes.length + 2) [] [head]

end Catalog
end FeatureTables.Schema
