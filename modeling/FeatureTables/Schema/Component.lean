import FeatureTables.Name
import FeatureTables.Occurs

/-!
The components of schemas: declarations of elements and attributes, simple and complex types, and
the particles that content models are made of. Named components refer to each other by name; an
anonymous type stands where it is used and is told from others by its site.
-/

namespace FeatureTables.Schema

/-- Where a type is defined: the number of the schema document, in the order of loading, and the
number of the element in it. -/
structure Site where
  document : Nat
  node : Nat
deriving DecidableEq, Inhabited

inductive Derivation where
  | extension
  | restriction
deriving DecidableEq, Inhabited

inductive ContentKind where
  | empty
  | simple
  | elementOnly
  | mixed
deriving DecidableEq, Inhabited

mutual

/-- A type by its name, or the type itself where it has none. -/
inductive TypeRef where
  | named (name : QName)
  | anonymous (type : TypeDef)

inductive TypeDef where
  | simple (type : SimpleType)
  | complex (type : ComplexType)

inductive Variety where
  | atomic
  | list (item : TypeRef)
  | union

structure SimpleType where
  site : Site
  name? : Option QName
  base? : Option TypeRef
  variety : Variety

structure ComplexType where
  site : Site
  name? : Option QName
  base? : Option TypeRef
  derivation : Derivation
  content : ContentKind
  particle? : Option Particle
  attributes : List AttributeUse
  attributeGroups : List QName
  anyAttribute : Bool
  isAbstract : Bool

structure ElementDecl where
  name : QName
  type? : Option TypeRef
  isAbstract : Bool
  nillable : Bool
  /-- The head of the group in which the element substitutes. -/
  substitutes? : Option QName
  isGlobal : Bool

structure AttributeDecl where
  name : QName
  type? : Option TypeRef

inductive AttributeRef where
  | inPlace (decl : AttributeDecl)
  | global (name : QName)

structure AttributeUse where
  decl : AttributeRef
  required : Bool

inductive ElementRef where
  | inPlace (decl : ElementDecl)
  | global (name : QName)

/-- What a particle stands for. -/
inductive Term where
  | element (ref : ElementRef)
  | sequence (members : List Particle)
  | choice (members : List Particle)
  | all (members : List Particle)
  | group (name : QName)
  /-- Any element that is declared. -/
  | any

structure Particle where
  occurs : Occurs
  term : Term

end

mutual

/-- A type and the types that stand in it without a name, as a base or as the type of items. -/
def TypeDef.parts : TypeDef → List TypeDef
  | .simple ⟨site, name?, base?, variety⟩ =>
    .simple ⟨site, name?, base?, variety⟩ :: (TypeRef.partsOf base? ++ variety.parts)
  | .complex ⟨site, name?, base?, d, content, particle?, uses, groups, any, isAbstract⟩ =>
    .complex ⟨site, name?, base?, d, content, particle?, uses, groups, any, isAbstract⟩ ::
      TypeRef.partsOf base?

def TypeRef.parts : TypeRef → List TypeDef
  | .named _ => []
  | .anonymous t => t.parts

def TypeRef.partsOf : Option TypeRef → List TypeDef
  | none => []
  | some ref => ref.parts

def Variety.parts : Variety → List TypeDef
  | .atomic | .union => []
  | .list item => item.parts

end

structure AttributeGroup where
  attributes : List AttributeUse := []
  attributeGroups : List QName := []
  anyAttribute : Bool := false

namespace TypeDef

def site : TypeDef → Site
  | simple t => t.site
  | complex t => t.site

def name? : TypeDef → Option QName
  | simple t => t.name?
  | complex t => t.name?

def base? : TypeDef → Option TypeRef
  | simple t => t.base?
  | complex t => t.base?

/-- The content is one value. -/
def hasSimpleContent : TypeDef → Bool
  | simple _ => true
  | complex t => t.content == .simple

def displayName (t : TypeDef) : String :=
  match t.name? with
  | some n => n.toText
  | none => "(anonymous)"

/-- The same type: one name, or no name and one site. -/
def same (a b : TypeDef) : Bool :=
  match a.name?, b.name? with
  | some x, some y => x == y
  | none, none => a.site == b.site
  | _, _ => false

end TypeDef

instance : Inhabited TypeDef := ⟨.simple ⟨default, none, none, .atomic⟩⟩

/-! ### The value space of a simple type -/

/-- What values a simple type has, by its builtin ancestor. -/
inductive SimpleKind where
  | atomic (name : String)
  | list (item : String)
  | union
deriving DecidableEq, Inhabited

def SimpleKind.string : SimpleKind := .atomic "string"

end FeatureTables.Schema
