import FeatureTables.Schema.Content
import FeatureTables.Xml.NodeMap

/-!
The declaration and the type of each element of a document. Nothing may be undeclared, but for
attributes of reserved namespaces; what is inside of a geometry is left to the geometry.
-/

namespace FeatureTables

open Schema Xml

/-! ### What is known of an element -/

structure AttributeTyping where
  name : QName
  kind : SimpleKind
  required : Bool
deriving DecidableEq, Inhabited

structure NodeTyping where
  decl : ElementDecl
  /-- The type of the declaration, or the one that the element names. -/
  type : TypeDef
  /-- How often the element may occur in its parent. -/
  occurs : Occurs
  /-- The values of the text, when the content is one. -/
  content? : Option SimpleKind
  isGeometry : Bool
  /-- The type has an attribute `id`. -/
  declaresId : Bool
  /-- The attributes that stand at the element, by their local names. -/
  attributes : OrderedMap String AttributeTyping
  /-- The head for which the element substitutes. -/
  head? : Option ElementDecl

namespace NodeTyping

def isRepeated (t : NodeTyping) : Bool := t.occurs.max.isMany

def isSimple (t : NodeTyping) : Bool := t.content?.isSome

def nillable (t : NodeTyping) : Bool := t.decl.nillable

/-- The local name of the head. -/
def group? (t : NodeTyping) : Option String := t.head?.map (·.name.localName)

end NodeTyping

/-- The typing of a document. -/
abbrev Typing := NodeMap NodeTyping

namespace Typing

/-! ### One element -/

/-- The type that an element names itself, which has to derive from the declared one. -/
def instanceType (c : Catalog) (e : Element) (declared : TypeDef) : Except Error TypeDef :=
  match e.attributeNamed? (.xsi "type") with
  | none => .ok declared
  | some written =>
    match e.scope.resolve written with
    | .error (label, name) => .error (.unknownPrefix label name)
    | .ok name =>
      let refuse (cause : Unresolved) : Except Error TypeDef :=
        .error (.schemaResolution cause { tag? := some e.name.toText })
      match c.type? name with
      | none => refuse (.unknownXsiType name.toText)
      | some actual =>
        if c.derivesFrom actual declared then .ok actual
        else refuse (.xsiTypeNotDerived name.toText declared.displayName)

/-- The typing of one attribute, given those of the type. -/
def attributeTyping (c : Catalog) (e : Element) (type : TypeDef)
    (uses : OrderedMap QName Catalog.AttributeMatch) (name : QName) :
    Except Error AttributeTyping :=
  match uses.get? name with
  | some use => do
    c.requireAttributeKind use.decl
    return ⟨name, c.attributeKind use.decl, use.required⟩
  | none =>
    if c.hasAnyAttribute type ∨ isReserved name.ns? then .ok ⟨name, .string, false⟩
    else
      .error (.schemaResolution (.undeclaredAttribute type.displayName)
        { tag? := some e.name.toText, xpath? := some ("@" ++ name.localName) })

/-- The attributes of an element but for those that are notes to the reader of the document. -/
def attributeTypings (c : Catalog) (e : Element) (type : TypeDef)
    (uses : OrderedMap QName Catalog.AttributeMatch) :
    Except Error (OrderedMap String AttributeTyping) :=
  (e.attributes.filter fun a => a.name.ns? ≠ some xsiNamespace).foldlM (fun m a => do
    return m.put a.name.localName (← attributeTyping c e type uses a.name)) {}

/-- The typing of an element that has this declaration in its parent. -/
def nodeTyping (c : Catalog) (e : Element) (found : Catalog.ChildMatch) :
    Except Error NodeTyping := do
  let type ← instanceType c e (← c.elementType found.decl)
  let isGeometry := c.isGeometryType type
  let uses ← if isGeometry then pure {} else c.attributeUses type
  let attributes ← if isGeometry then pure {} else attributeTypings c e type uses
  c.requireKind type
  return {
    decl := found.decl, type, occurs := found.occurs, content? := c.simpleKind? type, isGeometry
    declaresId := uses.keys.any (·.localName == "id"), attributes, head? := found.head? }

/-- The declaration of a child in the content model of its parent. -/
def childMatch (c : Catalog) (parent : QName) (type : TypeDef) (child : QName) :
    Except Error Catalog.ChildMatch := do
  match ← c.findChild? type child with
  | some found => return found
  | none =>
    throw (.schemaResolution (.undeclaredChild parent.toText type.displayName)
      { tag? := some child.toText })

/-! ### Documents -/

mutual
/-- Adds the typings of an element and all below it. -/
def addNode (c : Catalog) (found : Catalog.ChildMatch) (out : Typing) :
    Element → Except Error Typing
  | ⟨id, name, attributes, text?, children, scope⟩ => do
    let t ← nodeTyping c ⟨id, name, attributes, text?, children, scope⟩ found
    let out := out.put id t
    if t.isGeometry then return out else addChildren c name t.type out children
def addChildren (c : Catalog) (parent : QName) (type : TypeDef) (out : Typing) :
    List Element → Except Error Typing
  | [] => .ok out
  | e :: es => do
    let found ← childMatch c parent type e.name
    addChildren c parent type (← addNode c found out e) es
end

/-- The typing of a document, whose root has a global declaration. -/
def ofRoot (c : Catalog) (root : Element) : Except Error Typing :=
  match c.elements.get? root.name with
  | some decl => addNode c { decl, occurs := .once } {} root
  | none => .error (.schemaResolution .noRootDeclaration { tag? := some root.name.toText })

end Typing
end FeatureTables
