import FeatureTables.Error
import FeatureTables.Number.Integer
import FeatureTables.Schema.Component
import FeatureTables.Xml.Element

/-!
What one schema document declares. References to other documents are collected, not followed.
-/

namespace FeatureTables.Schema

open Number Text Xml

/-- The declarations of a schema document. -/
structure Declarations where
  /-- The namespace of the declared names: the document's own one, or the includer's. -/
  target? : Option String := none
  elements : List ElementDecl := []
  types : List TypeDef := []
  attributes : List AttributeDecl := []
  attributeGroups : List (QName × AttributeGroup) := []
  groups : List (QName × Particle) := []
  /-- Namespaces and locations of imports. -/
  imports : List (Option String × Option String) := []
  /-- Locations of included and redefined documents. -/
  includes : List String := []

/-- What the root of a schema document says of all names in it. -/
structure Context where
  target? : Option String
  /-- The document takes the namespace of its includer, also for references without one. -/
  adopts : Bool
  elementsQualified : Bool
  attributesQualified : Bool
  location : String
  /-- The number of the document. -/
  document : Nat

namespace Context

def fail {α : Type} (c : Context) (text : String) : Except Error α :=
  .error (.parse text (some c.location))

/-! ### Names -/

/-- The name of a global component. -/
def globalName (c : Context) (e : Element) : Except Error QName :=
  match e.attribute? "name" with
  | some name => .ok ⟨c.target?, name⟩
  | none => c.fail ("Global xs:" ++ e.localName ++ " missing 'name' attribute")

/-- The qualified name that a written one stands for at an element. -/
def resolve (c : Context) (e : Element) (written : String) : Except Error QName :=
  match e.scope.resolve written with
  | .ok name =>
    .ok (if c.adopts ∧ name.ns?.isNone then { name with ns? := c.target? } else name)
  | .error (label, name) =>
    c.fail ("Cannot resolve '" ++ written ++ "': " ++ (Error.unknownPrefix label name).message)

/-- The name that an attribute refers to, if the attribute is there. -/
def reference? (c : Context) (e : Element) (key : String) : Except Error (Option QName) :=
  match e.attribute? key with
  | none => .ok none
  | some written => (c.resolve e written).map some

/-- The name of a declaration that is not global. -/
def ownName (c : Context) (e : Element) (qualified : Bool) (name : String) : QName :=
  let qualified := match e.attribute? "form" with
    | some form => form == "qualified"
    | none => qualified
  if qualified then ⟨c.target?, name⟩ else .plain name

end Context

/-! ### Occurrence -/

def holdsTrue (e : Element) (key : String) : Bool := e.attribute? key == some "true"

/-- The bounds of a particle; what is no number counts as one. -/
def occursOf (e : Element) : Occurs where
  min := ((e.attribute? "minOccurs").bind fun s => readNat? countMax (trim s)).getD 1
  max :=
    match (e.attribute? "maxOccurs").map trim with
    | none => .bounded 1
    | some s => if s = "unbounded" then .unbounded else .bounded ((readNat? countMax s).getD 1)

/-! ### Types, attributes and particles -/

/-- The failure when the bound on nesting, which the size of the document gives, is used up. -/
def tooDeep {α : Type} (c : Context) : Except Error α := c.fail "declarations nest too deep"

/-- The element that holds particle and attributes of a complex type, with what it says of the
type: how it derives and from what. -/
def bodyOf (content? : Option Element) (e : Element) : Element × Option Element :=
  match content? with
  | none => (e, none)
  | some content =>
    match content.children.find? fun d =>
        d.localName == "extension" || d.localName == "restriction" with
    | some d => (d, some d)
    | none => (content, none)

def anyTypeRef : TypeRef := .named (.xsd "anyType")

/-- The kind of content that a particle and the flags of a type give. -/
def contentKind (mixed hasParticle : Bool) (derivation : Derivation) : ContentKind :=
  if mixed then .mixed
  else if hasParticle ∨ derivation = .extension then .elementOnly
  else .empty

mutual

/-- The anonymous type among the children. -/
def inlineType? (c : Context) : Nat → Element → Except Error (Option TypeRef)
  | 0, _ => tooDeep c
  | n + 1, e =>
    match e.children.find? fun d => d.localName == "complexType" || d.localName == "simpleType" with
    | none => .ok none
    | some d =>
      if d.localName = "complexType" then
        (complexType c n d none).map fun t => some (.anonymous (.complex t))
      else (simpleType c n d none).map fun t => some (.anonymous (.simple t))

/-- The type that an attribute names, or the anonymous one. -/
def typeOf? (c : Context) : Nat → String → Element → Except Error (Option TypeRef)
  | 0, _, _ => tooDeep c
  | n + 1, key, e => do
    match ← c.reference? e key with
    | some name => return some (.named name)
    | none => inlineType? c n e

def simpleType (c : Context) : Nat → Element → Option QName → Except Error SimpleType
  | 0, _, _ => tooDeep c
  | n + 1, e, name? =>
    let start : SimpleType :=
      ⟨⟨c.document, e.id⟩, name?, some (.named (.xsd "anySimpleType")), .atomic⟩
    e.children.foldlM (fun (t : SimpleType) d => do
      match d.localName with
      | "restriction" => return { t with base? := (← typeOf? c n "base" d).or t.base? }
      | "list" =>
        let item := (← typeOf? c n "itemType" d).getD (.named (.xsd "string"))
        return { t with variety := .list item }
      | "union" => return { t with variety := .union }
      | _ => return t) start

def complexType (c : Context) : Nat → Element → Option QName → Except Error ComplexType
  | 0, _, _ => tooDeep c
  | n + 1, e, name? => do
    let content? := (e.children.filter fun d =>
      d.localName == "simpleContent" || d.localName == "complexContent").getLast?
    let isSimple := e.children.any (·.localName == "simpleContent")
    let (body, deriving?) := bodyOf content? e
    let derivation : Derivation :=
      if deriving?.any (·.localName == "extension") then .extension else .restriction
    let base ← match deriving? with
      | none => pure anyTypeRef
      | some d => do pure (((← c.reference? d "base").map .named).getD anyTypeRef)
    let particle? ← if isSimple then pure none else contentModel? c n body.children
    let mixed := holdsTrue e "mixed" || content?.any (holdsTrue · "mixed")
    let group ← attributesOf c n body
    return {
      site := ⟨c.document, e.id⟩, name?, base? := some base, derivation,
      content := if isSimple then .simple else contentKind mixed particle?.isSome derivation,
      particle?, attributes := group.attributes, attributeGroups := group.attributeGroups,
      anyAttribute := group.anyAttribute, isAbstract := holdsTrue e "abstract" }

/-- Attribute uses, groups and wildcard among the children; a prohibited use is left out. -/
def attributesOf (c : Context) : Nat → Element → Except Error AttributeGroup
  | 0, _ => tooDeep c
  | n + 1, e =>
    e.children.foldlM (fun (g : AttributeGroup) d => do
      match d.localName with
      | "attribute" =>
        if d.attribute? "use" == some "prohibited" then return g
        let required := d.attribute? "use" == some "required"
        match ← c.reference? d "ref" with
        | some name => return { g with attributes := g.attributes ++ [⟨.global name, required⟩] }
        | none =>
          match d.attribute? "name" with
          | none => c.fail "Attribute declaration missing 'name' attribute"
          | some name =>
            let type? ← typeOf? c n "type" d
            let decl : AttributeDecl := ⟨c.ownName d c.attributesQualified name, type?⟩
            return { g with attributes := g.attributes ++ [⟨.inPlace decl, required⟩] }
      | "attributeGroup" =>
        match ← c.reference? d "ref" with
        | some name => return { g with attributeGroups := g.attributeGroups ++ [name] }
        | none => return g
      | "anyAttribute" => return { g with anyAttribute := true }
      | _ => return g) {}

/-- The first particle among elements. -/
def contentModel? (c : Context) : Nat → List Element → Except Error (Option Particle)
  | 0, _ => tooDeep c
  | _ + 1, [] => .ok none
  | n + 1, e :: es => do
    match ← particle? c n e with
    | some p => return some p
    | none => contentModel? c n es

/-- The particle that an element writes, if it writes one. -/
def particle? (c : Context) : Nat → Element → Except Error (Option Particle)
  | 0, _ => tooDeep c
  | n + 1, e => do
    let members : Except Error (List Particle) :=
      e.children.foldlM (fun ps d => do return ps ++ (← particle? c n d).toList) []
    let term? : Option Term ←
      match e.localName with
      | "element" => do
        match ← c.reference? e "ref" with
        | some name => pure (some (.element (.global name)))
        | none => do pure (some (.element (.inPlace (← elementDecl c n false e))))
      | "sequence" => do pure (some (.sequence (← members)))
      | "choice" => do pure (some (.choice (← members)))
      | "all" => do pure (some (.all (← members)))
      | "group" => do pure ((← c.reference? e "ref").map .group)
      | "any" => pure (some .any)
      | _ => pure none
    return term?.map fun t => ⟨occursOf e, t⟩

def elementDecl (c : Context) : Nat → Bool → Element → Except Error ElementDecl
  | 0, _, _ => tooDeep c
  | n + 1, isGlobal, e =>
    match e.attribute? "name" with
    | none => c.fail "Element declaration missing 'name' attribute"
    | some name => do
      let type? ← typeOf? c n "type" e
      let substitutes? ← c.reference? e "substitutionGroup"
      return {
        name := if isGlobal then ⟨c.target?, name⟩ else c.ownName e c.elementsQualified name
        type?, isAbstract := holdsTrue e "abstract", nillable := holdsTrue e "nillable", substitutes?,
        isGlobal }

end

/-! ### The document -/

/-- Adds what one child of the root declares; `n` bounds how deep it nests. -/
def Declarations.add (c : Context) (n : Nat) (d : Declarations) (e : Element) :
    Except Error Declarations := do
  match e.localName with
  | "element" =>
    let decl ← elementDecl c n true e
    return { d with elements := d.elements ++ [decl] }
  | "complexType" =>
    let t ← complexType c n e (some (← c.globalName e))
    return { d with types := d.types ++ [.complex t] }
  | "simpleType" =>
    let t ← simpleType c n e (some (← c.globalName e))
    return { d with types := d.types ++ [.simple t] }
  | "attribute" =>
    let name ← c.globalName e
    let type? ← typeOf? c n "type" e
    return { d with attributes := d.attributes ++ [⟨name, type?⟩] }
  | "attributeGroup" =>
    let name ← c.globalName e
    let group ← attributesOf c n e
    return { d with attributeGroups := d.attributeGroups ++ [(name, group)] }
  | "group" =>
    let name ← c.globalName e
    let particle := (← contentModel? c n e.children).getD ⟨.once, .sequence []⟩
    return { d with groups := d.groups ++ [(name, particle)] }
  | "import" =>
    let i := (e.attribute? "namespace", e.attribute? "schemaLocation")
    return { d with imports := d.imports ++ [i] }
  | "include" | "redefine" =>
    match e.attribute? "schemaLocation" with
    | some l => return { d with includes := d.includes ++ [l] }
    | none => c.fail ("xs:" ++ e.localName ++ " missing schemaLocation")
  | _ => return d

/-- The declarations of the document with this root. A document without a target namespace takes
that of its includer. -/
def Declarations.read (document : Nat) (location : String) (includer? : Option String)
    (root : Element) : Except Error Declarations :=
  if root.name ≠ .xsd "schema" then
    .error (.parse ("Expected xs:schema root element, got " ++ root.name.toText) (some location))
  else
    let own? := root.attribute? "targetNamespace"
    let c : Context := {
      target? := own?.or includer?, adopts := own?.isNone && includer?.isSome
      elementsQualified := root.attribute? "elementFormDefault" == some "qualified"
      attributesQualified := root.attribute? "attributeFormDefault" == some "qualified"
      location, document }
    let n := 8 * root.size + 8
    root.children.foldlM (Declarations.add c n) { target? := c.target? }

end FeatureTables.Schema
