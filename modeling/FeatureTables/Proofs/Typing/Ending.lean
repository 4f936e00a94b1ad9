import FeatureTables.Proofs.Schema.Kinds
import FeatureTables.Proofs.Typing
import FeatureTables.Schema.Closure

/-!
Whether the typing of a document ends. All of it is bounded, but for the search for the values of a
type, which goes on without end from a list of itself. Each function that the typing calls ends
unless it comes to such a type, and the types that a document makes it look at are told without it
(`TypedAs`, `Asks`).
-/

namespace FeatureTables

/-- A computation that does not fail as one without end. -/
def Ends {α : Type} (x : Except Error α) : Prop :=
  ∀ type place, x ≠ .error (.schemaResolution (.endlessList type) place)

section Steps

variable {α β : Type}

/-- The failure of a computation without end. -/
def isEndless : Except Error α → Bool
  | .error (.schemaResolution (.endlessList _) _) => true
  | _ => false

theorem ends_iff {x : Except Error α} : Ends x ↔ isEndless x = false := by
  rcases x with ⟨cause, place⟩ | a
  · cases cause <;> simp [Ends, isEndless]
  all_goals simp [Ends, isEndless]

instance (x : Except Error α) : Decidable (Ends x) := decidable_of_iff _ ends_iff.symm

theorem Ends.ok (a : α) : Ends (.ok a) := ends_iff.2 rfl

theorem Ends.bind {x : Except Error α} {f : α → Except Error β} (hx : Ends x)
    (hf : ∀ a, x = .ok a → Ends (f a)) : Ends (x >>= f) := by
  cases x with
  | error e =>
    intro type place h
    exact hx type place (congrArg _ (Except.error.inj h))
  | ok a => exact hf a rfl

theorem Ends.withTag {x : Except Error α} {tag : String} (hx : Ends x) :
    Ends (x.mapError (·.withTag tag)) := by
  cases x with
  | ok a => exact .ok a
  | error e =>
    intro type place h
    have h := Except.error.inj h
    cases e with
    | schemaResolution cause p =>
      obtain ⟨rfl, -⟩ := Error.schemaResolution.inj h
      exact hx type p rfl
    | _ => cases h

theorem Ends.foldlM {f : β → α → Except Error β} {xs : List α} (hf : ∀ x ∈ xs, ∀ b, Ends (f b x))
    (b : β) : Ends (xs.foldlM f b) := by
  induction xs generalizing b with
  | nil => exact .ok b
  | cons x xs ih =>
    rw [List.foldlM_cons]
    exact (hf x List.mem_cons_self b).bind fun b' _ =>
      ih (fun y hy => hf y (List.mem_cons_of_mem _ hy)) b'

end Steps

namespace Schema.Catalog

variable {c : Catalog}

/-! ### The search for values -/

theorem ends_requireKind {t : TypeDef} : Ends (c.requireKind t) ↔ ¬ c.Circular t := by
  rw [← kind?_eq_none_iff, requireKind]
  cases h : c.kind? t with
  | none => simpa [Ends] using ⟨t.displayName, {}, rfl⟩
  | some k => simpa using Ends.ok ()

theorem ends_requireAttributeKind {decl : AttributeDecl} : Ends (c.requireAttributeKind decl) ↔
    ∀ t, c.attributeType? decl = some t → ¬ c.Circular t := by
  rw [requireAttributeKind]
  cases h : c.attributeType? decl with
  | none => simpa using Ends.ok ()
  | some t => simpa using ends_requireKind

/-! ### The rest of what is asked of a catalog -/

theorem ends_resolveType (ref : TypeRef) : Ends (c.resolveType ref) := by
  cases ref with
  | anonymous t => exact .ok t
  | named name =>
    rw [resolveType]
    cases c.type? name with
    | some t => exact .ok t
    | none => exact ends_iff.2 rfl

theorem ends_elementTypeWithin {n : Nat} {decl : ElementDecl} : Ends (c.elementTypeWithin n decl) := by
  induction n generalizing decl with
  | zero =>
    unfold elementTypeWithin
    split
    · exact (ends_resolveType _).withTag
    · exact .ok _
  | succ n ih =>
    unfold elementTypeWithin
    split
    · exact (ends_resolveType _).withTag
    · split
      · next hn _ => exact Nat.succ.inj hn ▸ ih
      · exact .ok _

theorem ends_particlesWithin {n : Nat} {t : TypeDef} : Ends (c.particlesWithin n t) := by
  induction n generalizing t with
  | zero => cases t <;> exact .ok _
  | succ n ih =>
    cases t with
    | simple t => exact .ok _
    | complex t =>
      rw [particlesWithin]
      split
      · exact (ends_resolveType _).bind fun base _ => ih.bind fun ps _ => .ok _
      · exact .ok _

theorem ends_declOfRef (ref : ElementRef) : Ends (c.declOfRef ref) := by
  cases ref with
  | inPlace decl => exact .ok decl
  | global name =>
    rw [declOfRef]
    split
    · exact .ok _
    · exact ends_iff.2 rfl

theorem ends_matchElement {ref : ElementRef} {occurs : Occurs} {child : QName} :
    Ends (c.matchElement ref occurs child) := by
  refine (ends_declOfRef ref).bind fun decl _ => ?_
  split
  · exact .ok _
  · split
    · exact .ok _
    · refine ends_elementTypeWithin.bind fun head _ => ends_elementTypeWithin.bind fun member _ => ?_
      split
      · exact .ok _
      · exact ends_iff.2 rfl

theorem ends_firstMatch {f : Particle → Except Error (Option ChildMatch)} {ps : List Particle}
    (hf : ∀ p, Ends (f p)) : Ends (firstMatch f ps) := by
  induction ps with
  | nil => exact .ok _
  | cons p ps ih =>
    rw [firstMatch]
    refine (hf p).bind fun m _ => ?_
    split
    · exact .ok _
    · exact ih

theorem ends_matchParticle {child : QName} {n : Nat} {outer : Occurs} {p : Particle} :
    Ends (c.matchParticle child n outer p) := by
  induction n generalizing outer p with
  | zero => exact .ok _
  | succ n ih =>
    obtain ⟨own, term⟩ := p
    cases term with
    | element ref => exact ends_matchElement
    | any => exact .ok _
    | group name =>
      rw [matchParticle]
      split
      · exact ih
      · exact ends_iff.2 rfl
    | sequence ps | choice ps | all ps => exact ends_firstMatch fun p => ih

theorem ends_findChild? {t : TypeDef} {child : QName} : Ends (c.findChild? t child) :=
  ends_particlesWithin.bind fun _ _ => ends_firstMatch fun _ => ends_matchParticle

theorem ends_addUses {g : AttributeGroup} {out : OrderedMap QName AttributeMatch} :
    Ends (c.addUses g out) := by
  refine Ends.foldlM (fun use _ out => Ends.bind ?_ fun decl _ => .ok _) out
  rw [declOfUse]
  split
  · exact .ok _
  · split
    · exact .ok _
    · split
      · exact .ok _
      · exact ends_iff.2 rfl

theorem ends_collectUses {n : Nat} {g : AttributeGroup} {out : OrderedMap QName AttributeMatch} :
    Ends (c.collectUses n g out) := by
  induction n generalizing g out with
  | zero => exact ends_addUses
  | succ n ih =>
    rw [collectUses]
    refine ends_addUses.bind fun out _ => Ends.foldlM (fun name _ out => ?_) out
    split
    · exact ends_iff.2 rfl
    · exact ih

theorem ends_attributeUses {t : TypeDef} : Ends (c.attributeUses t) :=
  Ends.foldlM (fun _ _ _ => ends_collectUses) _

end Schema.Catalog

/-! ### Documents -/

namespace Typing

open Schema Xml Element

/-- The element of a document has this type, by the declaration that it has in the content model of
its parent. -/
inductive TypedAs (c : Catalog) (root : Element) : Element → TypeDef → Prop
  | root {decl : ElementDecl} {declared t : TypeDef} : c.elements.get? root.name = some decl →
    c.elementType decl = .ok declared → instanceType c root declared = .ok t → TypedAs c root root t
  | child {w e : Element} {tw declared t : TypeDef} {found : Catalog.ChildMatch} :
    TypedAs c root w tw → c.isGeometryType tw = false → e ∈ w.children →
    childMatch c w.name tw e.name = .ok found → c.elementType found.decl = .ok declared →
    instanceType c e declared = .ok t → TypedAs c root e t

/-- An element of type `t` makes the typing look for the values of this type: it is `t`, or that of an
attribute which `t` declares. -/
inductive Asks (c : Catalog) (e : Element) (t : TypeDef) : TypeDef → Prop
  | own : Asks c e t t
  | attribute {uses : OrderedMap QName Catalog.AttributeMatch} {a : Attribute}
      {use : Catalog.AttributeMatch} {u : TypeDef} :
    c.isGeometryType t = false → c.attributeUses t = .ok uses → a ∈ e.attributes →
    uses.get? a.name = some use → c.attributeType? use.decl = some u → Asks c e t u

section Ending

variable {c : Catalog} {root e : Element} {found : Catalog.ChildMatch}

theorem ends_instanceType {declared : TypeDef} : Ends (instanceType c e declared) := by
  rw [instanceType]
  split
  · exact .ok _
  · split
    · exact ends_iff.2 rfl
    · split
      · exact ends_iff.2 rfl
      · split
        · exact .ok _
        · exact ends_iff.2 rfl

theorem ends_childMatch {parent child : QName} {t : TypeDef} : Ends (childMatch c parent t child) := by
  refine Catalog.ends_findChild?.bind fun found? _ => ?_
  split
  · exact .ok _
  · exact ends_iff.2 rfl

theorem ends_attributeTypings {t : TypeDef} {uses : OrderedMap QName Catalog.AttributeMatch}
    (h : ∀ a ∈ e.attributes, ∀ use u, uses.get? a.name = some use →
      c.attributeType? use.decl = some u → ¬ c.Circular u) :
    Ends (attributeTypings c e t uses) := by
  refine Ends.foldlM (fun a ha m => Ends.bind ?_ fun _ _ => .ok _) _
  rw [attributeTyping]
  split
  · next use huse =>
    refine Ends.bind (Catalog.ends_requireAttributeKind.2 fun u hu => ?_) fun _ _ => .ok _
    exact h a (List.mem_of_mem_filter ha) use u huse hu
  · split
    · exact .ok _
    · exact ends_iff.2 rfl

theorem ends_nodeTyping (h : ∀ declared t u, c.elementType found.decl = .ok declared →
      instanceType c e declared = .ok t → Asks c e t u → ¬ c.Circular u) :
    Ends (nodeTyping c e found) := by
  refine Catalog.ends_elementTypeWithin.bind fun declared hdeclared => ?_
  refine ends_instanceType.bind fun t ht => ?_
  have hkind := Catalog.ends_requireKind.2 (h declared t t hdeclared ht .own)
  cases hgeometry : c.isGeometryType t with
  | true =>
    simp only [if_true]
    exact (Ends.ok _).bind fun uses _ => (Ends.ok _).bind fun attributes _ =>
      hkind.bind fun _ _ => .ok _
  | false =>
    simp only [Bool.false_eq_true, if_false]
    refine Catalog.ends_attributeUses.bind fun uses huses => ?_
    refine Ends.bind ?_ fun attributes _ => hkind.bind fun _ _ => .ok _
    exact ends_attributeTypings fun a ha use u huse hu =>
      h declared t u hdeclared ht (.attribute hgeometry huses ha huse hu)

theorem ends_addChildren {parent : QName} {t : TypeDef} {es : List Element}
    (hnode : ∀ e ∈ es, ∀ found out, childMatch c parent t e.name = .ok found →
      Ends (addNode c found out e)) (out : Typing) : Ends (addChildren c parent t out es) := by
  induction es generalizing out with
  | nil => exact .ok _
  | cons e es ih =>
    rw [addChildren]
    refine ends_childMatch.bind fun found hfound => ?_
    refine (hnode e List.mem_cons_self found out hfound).bind fun out' _ => ?_
    exact ih (fun x hx => hnode x (List.mem_cons_of_mem _ hx)) out'

theorem ends_addNode (h : ∀ x t u, TypedAs c root x t → Asks c x t u → ¬ c.Circular u)
    (htyped : ∀ declared t, c.elementType found.decl = .ok declared →
      instanceType c e declared = .ok t → TypedAs c root e t) (out : Typing) :
    Ends (addNode c found out e) := by
  induction e using induct_tree generalizing found out with
  | h e ih =>
    rw [addNode_eq]
    refine Ends.bind (ends_nodeTyping fun declared t u hdeclared ht hu =>
      h e t u (htyped declared t hdeclared ht) hu) fun t ht => ?_
    have hassembled := nodeTyping_assembled ht
    obtain ⟨declared, hdeclared, htype⟩ := hassembled.type
    split
    · exact .ok _
    · next hg =>
      refine ends_addChildren (fun d hd found' out hfound => ih d hd (fun declared' t' h₁ h₂ => ?_) out) _
      exact .child (htyped declared t.type hdeclared htype) (by simpa [hassembled.isGeometry] using hg) hd hfound
        h₁ h₂

/-- The typing of a document ends, unless it looks for the values of a list of itself. -/
theorem ends_ofRoot (h : ∀ x t u, TypedAs c root x t → Asks c x t u → ¬ c.Circular u) :
    Ends (ofRoot c root) := by
  rw [ofRoot]
  split
  · next decl hdecl => exact ends_addNode h (fun declared t h₁ h₂ => .root hdecl h₁ h₂) _
  · exact ends_iff.2 rfl

/-- The values of a type, of an attribute and of the elements of a document are found after finitely
many steps, but for those of circular types: the search for the values of a type ends if it is no such
type, with the bound that it has and with any bound that is large enough, and the typing of a document
ends unless it asks for the values of one. -/
theorem kinds_found (c : Catalog) :
    (∀ t, (∃ n, (c.kindWithin n t).isSome = true) ↔ ¬ c.Circular t) ∧
    (∀ t, Ends (c.requireKind t) ↔ ¬ c.Circular t) ∧
    (∀ decl, Ends (c.requireAttributeKind decl) ↔
      ∀ t, c.attributeType? decl = some t → ¬ c.Circular t) ∧
    ∀ root, ¬ Ends (ofRoot c root) → ∃ x t u, TypedAs c root x t ∧ Asks c x t u ∧ c.Circular u := by
  refine ⟨fun t => ?_, fun t => Catalog.ends_requireKind,
    fun decl => Catalog.ends_requireAttributeKind, fun root h => ?_⟩
  · rw [← Catalog.kind?_eq_none_iff, ← ne_eq, Option.ne_none_iff_exists']
    constructor
    · rintro ⟨n, hn⟩
      obtain ⟨k, hk⟩ := Option.isSome_iff_exists.1 hn
      exact ⟨k, Catalog.kind?_eq_some_iff.2 ⟨n, hk⟩⟩
    · rintro ⟨k, hk⟩
      obtain ⟨n, hn⟩ := Catalog.kind?_eq_some_iff.1 hk
      exact ⟨n, Option.isSome_iff_exists.2 ⟨k, hn⟩⟩
  · by_contra hnone
    exact h (ends_ofRoot fun x t u ht hu hcircular => hnone ⟨x, t, u, ht, hu, hcircular⟩)

end Ending

/-- A list of lists of itself, as the type of an element. -/
def circularListSchema : String :=
  "<xs:schema xmlns:xs='http://www.w3.org/2001/XMLSchema'>" ++
  "<xs:simpleType name='L'><xs:list itemType='L'/></xs:simpleType>" ++
  "<xs:element name='r' type='L'/></xs:schema>"

/-- The typing of a document that has an element of such a type does not end. -/
theorem circular_list_met : ∃ c d, Catalog.ofText circularListSchema = .ok c ∧
    Document.ofText "<r/>" = .ok d ∧ ¬ Ends (ofRoot c d.root) ∧
    ∃ x t u, TypedAs c d.root x t ∧ Asks c x t u ∧ c.Circular u := by
  have heval : ((Catalog.ofText circularListSchema).toOption.bind fun c =>
      (Document.ofText "<r/>").toOption.map fun d => decide (Ends (ofRoot c d.root))) = some false := by
    decide +kernel
  obtain ⟨c, hc, heval⟩ := Option.bind_eq_some_iff.1 heval
  obtain ⟨d, hd, heval⟩ := Option.map_eq_some_iff.1 heval
  have hnot : ¬ Ends (ofRoot c d.root) := of_decide_eq_false heval
  exact ⟨c, d, toOption_eq_some_iff.1 hc, toOption_eq_some_iff.1 hd, hnot,
    (kinds_found c).2.2.2 d.root hnot⟩

/-- The search for the values of a list of itself does not end, whatever number of steps it may take. -/
theorem circular_list_endless : ∃ c t, Catalog.ofText circularListSchema = .ok c ∧
    c.type? ⟨none, "L"⟩ = some t ∧ ∀ n, c.kindWithin n t = none := by
  have heval : ((Catalog.ofText circularListSchema).toOption.bind fun c =>
      (c.type? ⟨none, "L"⟩).map fun t => (c.kind? t).isNone) = some true := by
    decide +kernel
  obtain ⟨c, hc, heval⟩ := Option.bind_eq_some_iff.1 heval
  obtain ⟨t, ht, heval⟩ := Option.map_eq_some_iff.1 heval
  have hcircular := Catalog.kind?_eq_none_iff.1 (Option.isNone_iff_eq_none.1 heval)
  exact ⟨c, t, toOption_eq_some_iff.1 hc, ht, hcircular.kindWithin_eq_none⟩

end Typing

end FeatureTables
