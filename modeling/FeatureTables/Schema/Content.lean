import FeatureTables.Schema.Catalog

/-!
Content models and attributes as documents meet them: the declaration that a child has in a content
model, with bounds seen from the parent, and the attributes that a type has with those of its bases
and groups.
-/

namespace FeatureTables.Schema.Catalog

/-! ### Children -/

/-- The particles of a type with those of at most `n` bases that it extends, inherited ones first. -/
def particlesWithin (c : Catalog) : Nat → TypeDef → Except Error (List Particle)
  | _, .simple _ => .ok []
  | 0, .complex t => .ok t.particle?.toList
  | n + 1, .complex t =>
    match t.derivation, t.base? with
    | .extension, some ref => do
      let base ← c.resolveType ref
      return (← c.particlesWithin n base) ++ t.particle?.toList
    | _, _ => .ok t.particle?.toList

/-- The content model of a type. -/
def contentParticles (c : Catalog) (t : TypeDef) : Except Error (List Particle) :=
  c.particlesWithin maxDerivation t

/-- The declaration of a child, its bounds, and the head when the child substitutes for one. -/
structure ChildMatch where
  decl : ElementDecl
  occurs : Occurs
  head? : Option ElementDecl := none

/-- The declaration that a particle refers to. -/
def declOfRef (c : Catalog) : ElementRef → Except Error ElementDecl
  | .inPlace decl => .ok decl
  | .global name =>
    match c.elements.get? name with
    | some decl => .ok decl
    | none => .error (.unresolved (.unknownElement name.toText))

/-- A child against the declaration of a particle: its own name, or the name of a member of its
substitution group whose type derives from its type. -/
def matchElement (c : Catalog) (ref : ElementRef) (occurs : Occurs) (child : QName) :
    Except Error (Option ChildMatch) := do
  let decl ← c.declOfRef ref
  if decl.name = child ∧ ¬ decl.isAbstract then return some { decl, occurs }
  match (c.substitutionGroup decl.name).find? fun m => m.name == child && !m.isAbstract with
  | none => return none
  | some member =>
    let headType ← c.elementType decl
    let memberType ← c.elementType member
    if c.derivesFrom memberType headType then
      return some { decl := member, occurs, head? := some decl }
    else
      throw (.schemaResolution (.memberNotDerived memberType.displayName headType.displayName)
        { tag? := some child.toText })

/-- The first match among particles. -/
def firstMatch (matchOne : Particle → Except Error (Option ChildMatch)) :
    List Particle → Except Error (Option ChildMatch)
  | [] => .ok none
  | p :: ps => do
    match ← matchOne p with
    | some m => return some m
    | none => firstMatch matchOne ps

/-- The match of a child with a particle that occurs within `outer`; groups open at most `n` levels
deep. Only one member of a choice is there, so of several none is required. -/
def matchParticle (c : Catalog) (child : QName) :
    Nat → Occurs → Particle → Except Error (Option ChildMatch)
  | 0, _, _ => .ok none
  | n + 1, outer, ⟨own, term⟩ =>
    let occurs := own.within outer
    match term with
    | .element ref => c.matchElement ref occurs child
    | .any => .ok ((c.elements.get? child).map fun decl => { decl, occurs })
    | .group name =>
      match c.groups.get? name with
      | some p => c.matchParticle child n occurs p
      | none => .error (.unresolved (.unknownGroup name.toText))
    | .sequence ps | .all ps => firstMatch (c.matchParticle child n occurs) ps
    | .choice ps =>
      firstMatch (c.matchParticle child n
        (if 1 < ps.length then occurs.optionalized else occurs)) ps

/-- The declaration of a child in the content model of its parent's type. -/
def findChild? (c : Catalog) (parent : TypeDef) (child : QName) :
    Except Error (Option ChildMatch) := do
  firstMatch (c.matchParticle child (maxDerivation + 1) .once) (← c.contentParticles parent)

/-! ### Attributes -/

/-- An attribute of a type. -/
structure AttributeMatch where
  decl : AttributeDecl
  required : Bool

/-- The declaration that a use stands for. Attributes of reserved namespaces need none. -/
def declOfUse (c : Catalog) (use : AttributeUse) : Except Error AttributeDecl :=
  match use.decl with
  | .inPlace decl => .ok decl
  | .global name =>
    match c.attributes.get? name with
    | some decl => .ok decl
    | none =>
      if isReserved name.ns? then .ok ⟨name, none⟩
      else .error (.unresolved (.unknownAttribute name.toText))

/-- Adds the uses of a group; a later use replaces one of its name. -/
def addUses (c : Catalog) (g : AttributeGroup) (out : OrderedMap QName AttributeMatch) :
    Except Error (OrderedMap QName AttributeMatch) :=
  g.attributes.foldlM (fun (out : OrderedMap QName AttributeMatch) use => do
    let decl ← c.declOfUse use
    return out.put decl.name ⟨decl, use.required⟩) out

/-- Adds the uses of a group and those of the groups in it, which nest at most `n` deep. -/
def collectUses (c : Catalog) :
    Nat → AttributeGroup → OrderedMap QName AttributeMatch →
      Except Error (OrderedMap QName AttributeMatch)
  | 0, g, out => c.addUses g out
  | n + 1, g, out => do
    g.attributeGroups.foldlM (fun out name =>
      match c.attributeGroups.get? name with
      | none => .error (.unresolved (.unknownAttributeGroup name.toText))
      | some g => c.collectUses n g out) (← c.addUses g out)

/-- Attributes and groups that a type writes itself. -/
def ownAttributes : TypeDef → AttributeGroup
  | .simple _ => {}
  | .complex t => ⟨t.attributes, t.attributeGroups, t.anyAttribute⟩

/-- The attributes of a type, those of its ancestors first. -/
def attributeUses (c : Catalog) (t : TypeDef) : Except Error (OrderedMap QName AttributeMatch) :=
  (c.chain t).1.reverse.foldlM (fun out t => c.collectUses maxDerivation (ownAttributes t) out) {}

/-- A group admits any attribute, itself or through groups that nest at most `n` deep. -/
def groupsAllowAny (c : Catalog) : Nat → List QName → Bool
  | 0, _ => false
  | n + 1, names => (names.filterMap c.attributeGroups.get?).any fun g =>
      g.anyAttribute || c.groupsAllowAny n g.attributeGroups

def isAnyType (t : TypeDef) : Bool := t.name? == some (.xsd "anyType")

/-- The type or one of its ancestors admits any attribute; an ancestor that is the root of all types
does not count. -/
def hasAnyAttribute (c : Catalog) (t : TypeDef) : Bool :=
  match (c.chain t).1 with
  | [] => false
  | own :: ancestors =>
    (own :: ancestors.filter (!isAnyType ·)).any fun t =>
      let g := ownAttributes t
      g.anyAttribute || c.groupsAllowAny maxDerivation g.attributeGroups

end FeatureTables.Schema.Catalog
