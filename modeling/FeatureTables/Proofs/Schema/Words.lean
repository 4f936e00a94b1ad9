import FeatureTables.Schema.Content

/-!
What a content model allows: the words of child names that its particles spell. A particle repeats its
term within its bounds; a name stands for a declaration if it is its own one or that of a member of its
substitution group; a wildcard stands for any element that is declared.
-/

namespace FeatureTables.Schema.Catalog

/-! ### Words -/

/-- A name that may be written for a declaration: its own one or that of a member of its substitution
group, unless that is abstract. -/
def standsFor (c : Catalog) (decl : ElementDecl) (x : QName) : Bool :=
  (decl.name == x && !decl.isAbstract) ||
    (c.substitutionGroup decl.name).any fun m => m.name == x && !m.isAbstract

mutual

/-- The words of a particle. -/
inductive Spells (c : Catalog) : Particle → List QName → Prop
  | repeated {own : Occurs} {term : Term} {ws : List (List QName)} :
    own.min ≤ ws.length → own.max.allows ws.length = true → (∀ w ∈ ws, SpellsOnce c term w) →
    Spells c ⟨own, term⟩ ws.flatten

/-- The words of a particle that is there once. -/
inductive SpellsOnce (c : Catalog) : Term → List QName → Prop
  | element {ref : ElementRef} {decl : ElementDecl} {x : QName} :
    c.declOfRef ref = .ok decl → c.standsFor decl x = true → SpellsOnce c (.element ref) [x]
  | any {x : QName} : (c.elements.get? x).isSome = true → SpellsOnce c .any [x]
  | group {name : QName} {p : Particle} {w : List QName} :
    c.groups.get? name = some p → Spells c p w → SpellsOnce c (.group name) w
  | sequence {ps : List Particle} {w : List QName} : SpellsAll c ps w → SpellsOnce c (.sequence ps) w
  | choice {ps : List Particle} {p : Particle} {w : List QName} :
    p ∈ ps → Spells c p w → SpellsOnce c (.choice ps) w
  /-- The words of the members in any order. -/
  | all {ps : List Particle} {v w : List QName} :
    SpellsAll c ps v → v.Perm w → SpellsOnce c (.all ps) w

/-- The words of particles one after the other. -/
inductive SpellsAll (c : Catalog) : List Particle → List QName → Prop
  | nil : SpellsAll c [] []
  | cons {p : Particle} {ps : List Particle} {v w : List QName} :
    Spells c p v → SpellsAll c ps w → SpellsAll c (p :: ps) (v ++ w)

end

/-! ### Catalogs without loose ends -/

/-- The concrete members of the substitution group of a head have types that derive from its type. -/
def MembersDerive (c : Catalog) (head : ElementDecl) : Prop :=
  ∀ m ∈ c.substitutionGroup head.name, m.isAbstract = false →
    ∃ headType memberType, c.elementType head = .ok headType ∧ c.elementType m = .ok memberType ∧
      c.derivesFrom memberType headType = true

/-- What a particle refers to is there, members of substitution groups derive from their heads, and
particles nest less than `n` deep, seen through the groups that they name. -/
def Resolves (c : Catalog) : Nat → Particle → Prop
  | 0, _ => False
  | n + 1, ⟨_, term⟩ =>
    match term with
    | .element ref => ∃ decl, c.declOfRef ref = .ok decl ∧ c.MembersDerive decl
    | .any => True
    | .group name => ∃ p, c.groups.get? name = some p ∧ c.Resolves n p
    | .sequence ps | .choice ps | .all ps => ∀ p ∈ ps, c.Resolves n p

end FeatureTables.Schema.Catalog
