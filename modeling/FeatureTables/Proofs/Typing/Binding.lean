import FeatureTables.Proofs.Schema.Matching
import FeatureTables.Proofs.Typing.Ending
import FeatureTables.Proofs.Xml.Numbering

/-!
The declarations that a document is bound to. Each typed element has a declaration of its own name and the
type of this declaration, or one that derives from it. The declaration is an abstract one exactly where the
schema's global declaration of the name is taken as it is: at the root, and at a wildcard (`bound_iff`).
-/

namespace FeatureTables.Typing

open Schema Xml Element

section Binding

variable {c : Catalog} {root e : Element} {found : Catalog.ChildMatch} {t : NodeTyping} {typing : Typing}

/-- The type of an element is the declared one, or derives from it. -/
theorem instanceType_derives {declared u : TypeDef} (h : instanceType c e declared = .ok u) :
    u = declared ∨ c.Derives u declared := by
  rw [instanceType] at h
  split at h
  · exact Or.inl (Except.ok.inj h).symm
  · split at h
    · cases h
    · split at h
      · cases h
      · split at h
        · next hderives =>
          obtain rfl := Except.ok.inj h
          exact Or.inr (Catalog.derives_of_derivesFrom hderives)
        · cases h

/-- The name of an element, as a name for a child of a type, falls to a wildcard: this is the first slot
of the content model that admits it. -/
def FallsToWildcard (c : Catalog) (parent : TypeDef) (name : QName) : Prop :=
  ∃ ps s, c.contentParticles parent = .ok ps ∧
    (c.modelSlots ps).find? (fun s => s.filler.admits c name) = some s ∧ s.filler = .any

/-- The element is the root, or falls to a wildcard in the content model of its parent. -/
def TakesGlobal (c : Catalog) (root : Element) (typing : Typing) (e : Element) : Prop :=
  e = root ∨ ∃ w ∈ root.descendants, e ∈ w.children ∧
    ∃ tw, typing.get? w.id = some tw ∧ FallsToWildcard c tw.type e.name

theorem root_decl (hd : root.Distinct) (h : ofRoot c root = .ok typing)
    (ht : typing.get? root.id = some t) : c.elements.get? root.name = some t.decl := by
  unfold ofRoot at h
  split at h
  · next decl hdecl =>
    obtain ⟨t', ht', hnodeTyping⟩ := (addNode_types hd h).self
    obtain rfl := Option.some.inj (ht.symm.trans ht')
    rw [hdecl, (nodeTyping_assembled hnodeTyping).decl]
  · cases h

/-- A child is bound at the first slot that admits its name. -/
theorem child_binds (hd : root.Distinct) (h : ofRoot c root = .ok typing) {w : Element}
    (hw : w ∈ root.descendants) (he : e ∈ w.children) (ht : typing.get? e.id = some t) :
    ∃ tw ps s found, typing.get? w.id = some tw ∧ c.contentParticles tw.type = .ok ps ∧
      (c.modelSlots ps).find? (fun s => s.filler.admits c e.name) = some s ∧
      c.Binds e.name s.filler found ∧ t.decl = found.decl := by
  obtain ⟨tw, found, htw, hmatch, hnodeTyping⟩ := (ofRoot_typed hd h).2 w hw e he t ht
  obtain ⟨found?, hfound, hmatch⟩ := bind_eq_ok_iff.1 hmatch
  split at hmatch
  · obtain rfl := Except.ok.inj hmatch
    obtain ⟨ps, s, hps, hs, hbinds⟩ := Catalog.findChild?_matched hfound
    exact ⟨tw, ps, s, _, htw, hps, hs, hbinds,
      (nodeTyping_assembled hnodeTyping).decl⟩
  · cases hmatch

/-- Where the global declaration is taken, it is that of the element. -/
theorem TakesGlobal.decl (hglobal : TakesGlobal c root typing e) (hd : root.Distinct)
    (h : ofRoot c root = .ok typing) (ht : typing.get? e.id = some t) :
    c.elements.get? e.name = some t.decl := by
  rcases hglobal with rfl | ⟨w, hw, he, tw, htw, ps, s, hps, hs, hany⟩
  · exact root_decl hd h ht
  · obtain ⟨tw', ps', s', found, htw', hps', hs', hbinds, hdecl⟩ := child_binds hd h hw he ht
    obtain rfl := Option.some.inj (htw.symm.trans htw')
    obtain rfl := Except.ok.inj (hps.symm.trans hps')
    obtain rfl := Option.some.inj (hs.symm.trans hs')
    rw [hany] at hbinds
    cases hbinds with
    | wildcard hglobal => rw [hglobal, hdecl]

/-- Anywhere else the declaration is a concrete one of the name of the element. -/
theorem takesGlobal_or_concrete (hd : root.Distinct) (h : ofRoot c root = .ok typing)
    (he : e ∈ root.descendants) (ht : typing.get? e.id = some t) :
    TakesGlobal c root typing e ∨ t.decl.name = e.name ∧ t.decl.isAbstract = false := by
  rcases mem_descendants_iff.1 he with rfl | he
  · exact Or.inl (Or.inl rfl)
  · obtain ⟨w, hw, hchild⟩ := exists_parent he
    obtain ⟨tw, ps, s, found, htw, hps, hs, hbinds, hdecl⟩ := child_binds hd h hw hchild ht
    rw [hdecl]
    -- only a wildcard passes an abstract declaration on
    generalize hfiller : s.filler = filler at hbinds
    cases hbinds with
    | own hname hconcrete => exact Or.inr ⟨hname, hconcrete⟩
    | member _ hname hconcrete => exact Or.inr ⟨hname, hconcrete⟩
    | wildcard _ => exact Or.inl (Or.inr ⟨w, hw, hchild, tw, htw, ps, s, hps, hs, hfiller⟩)

/-- In a document that is typed by a catalog that was loaded, each typing has a declaration of the name of
its element, and the type of the declaration or one that derives from it. The declaration is abstract
exactly at the root and at wildcards, where the global declaration of the name is. -/
theorem bound_iff {fetch : Location → Except Error Bytes} {limits limits' : Limits}
    {roots : List Location} {bytes : Bytes} {d : Document}
    (hc : Catalog.load fetch limits roots = .ok c) (hdocument : Document.parse limits' bytes = .ok d)
    (h : ofRoot c d.root = .ok typing) (he : e ∈ d.root.descendants)
    (ht : typing.get? e.id = some t) :
    t.decl.name = e.name ∧
    (∃ declared, c.elementType t.decl = .ok declared ∧
      (t.type = declared ∨ c.Derives t.type declared)) ∧
    (t.decl.isAbstract = true ↔ TakesGlobal c d.root typing e ∧
      ∃ decl, c.elements.get? e.name = some decl ∧ decl.isAbstract = true) := by
  have hdistinct := (Document.numbered_parse hdocument).distinct
  have hglobal : TakesGlobal c d.root typing e → c.elements.get? e.name = some t.decl :=
    fun htakes => htakes.decl hdistinct h ht
  have hcases := takesGlobal_or_concrete hdistinct h he ht
  refine ⟨?_, ?_, fun habstract => ?_, ?_⟩
  · rcases hcases with htakes | ⟨hname, -⟩
    · exact Catalog.load_keyed hc _ _ (hglobal htakes)
    · exact hname
  · obtain ⟨found, hfound⟩ := ofRoot_nodeTyping hdistinct h he ht
    have hassembled := nodeTyping_assembled hfound
    obtain ⟨declared, hdeclared, hinstance⟩ := hassembled.type
    rw [← hassembled.decl] at hdeclared
    exact ⟨declared, hdeclared, instanceType_derives hinstance⟩
  · rcases hcases with htakes | ⟨-, hconcrete⟩
    · exact ⟨htakes, t.decl, hglobal htakes, habstract⟩
    · rw [habstract] at hconcrete
      cases hconcrete
  · rintro ⟨htakes, decl, hdecl, habstract⟩
    obtain rfl := Option.some.inj ((hglobal htakes).symm.trans hdecl)
    exact habstract

end Binding

/-- An abstract head with one member, a place for it, and a wildcard. -/
def abstractSchema : String :=
  "<xs:schema xmlns:xs='http://www.w3.org/2001/XMLSchema'>" ++
  "<xs:element name='h' type='xs:string' abstract='true'/>" ++
  "<xs:element name='m' type='xs:string' substitutionGroup='h'/>" ++
  "<xs:element name='r'><xs:complexType><xs:sequence><xs:element ref='h'/></xs:sequence>" ++
  "</xs:complexType></xs:element>" ++
  "<xs:element name='a'><xs:complexType><xs:sequence><xs:any/></xs:sequence></xs:complexType>" ++
  "</xs:element></xs:schema>"

/-- The member stands for its head, with its own declaration. -/
theorem member_bound : ∃ c d typing e t, Catalog.ofText abstractSchema = .ok c ∧
    Document.ofText "<r><m>x</m></r>" = .ok d ∧ ofRoot c d.root = .ok typing ∧
    e ∈ d.root.descendants ∧ typing.get? e.id = some t ∧ e.name = ⟨none, "m"⟩ ∧
    t.decl.name = e.name ∧
    (∃ declared, c.elementType t.decl = .ok declared ∧
      (t.type = declared ∨ c.Derives t.type declared)) ∧
    (t.decl.isAbstract = true ↔ TakesGlobal c d.root typing e ∧
      ∃ decl, c.elements.get? e.name = some decl ∧ decl.isAbstract = true) := by
  have heval : ((Catalog.ofText abstractSchema).toOption.bind fun c =>
      (Document.ofText "<r><m>x</m></r>").toOption.bind fun d =>
      (ofRoot c d.root).toOption.bind fun typing => d.root.children.head?.bind fun e =>
      (typing.get? e.id).map fun _ => decide (e.name = ⟨none, "m"⟩)) = some true := by
    decide +kernel
  obtain ⟨c, hc, heval⟩ := Option.bind_eq_some_iff.1 heval
  obtain ⟨d, hd, heval⟩ := Option.bind_eq_some_iff.1 heval
  obtain ⟨typing, htyping, heval⟩ := Option.bind_eq_some_iff.1 heval
  obtain ⟨e, he, heval⟩ := Option.bind_eq_some_iff.1 heval
  obtain ⟨t, ht, hname⟩ := Option.map_eq_some_iff.1 heval
  rw [toOption_eq_some_iff] at hc hd htyping
  have hmem : e ∈ d.root.descendants :=
    mem_descendants_iff.2 (Or.inr (mem_inner_of_mem_children (List.mem_of_head? he)))
  have hload := hc
  have hparse := hd
  unfold Catalog.ofText Catalog.ofDocuments at hload
  unfold Document.ofText at hparse
  exact ⟨c, d, typing, e, t, hc, hd, htyping, hmem, ht, of_decide_eq_true hname,
    bound_iff hload hparse htyping hmem ht⟩

/-- An abstract declaration is that of a root, and that of an element at a wildcard. -/
theorem abstract_bound :
    (∃ c d typing t, Catalog.ofText abstractSchema = .ok c ∧ Document.ofText "<h>x</h>" = .ok d ∧
      ofRoot c d.root = .ok typing ∧ typing.get? d.root.id = some t ∧ t.decl.isAbstract = true) ∧
    ∃ c d typing e t, Catalog.ofText abstractSchema = .ok c ∧
      Document.ofText "<a><h>x</h></a>" = .ok d ∧ ofRoot c d.root = .ok typing ∧
      e ∈ d.root.children ∧ typing.get? e.id = some t ∧ t.decl.isAbstract = true := by
  constructor
  · have heval : ((Catalog.ofText abstractSchema).toOption.bind fun c =>
        (Document.ofText "<h>x</h>").toOption.bind fun d =>
        (ofRoot c d.root).toOption.bind fun typing =>
        (typing.get? d.root.id).map fun t => t.decl.isAbstract) = some true := by
      decide +kernel
    obtain ⟨c, hc, heval⟩ := Option.bind_eq_some_iff.1 heval
    obtain ⟨d, hd, heval⟩ := Option.bind_eq_some_iff.1 heval
    obtain ⟨typing, htyping, heval⟩ := Option.bind_eq_some_iff.1 heval
    obtain ⟨t, ht, habstract⟩ := Option.map_eq_some_iff.1 heval
    rw [toOption_eq_some_iff] at hc hd htyping
    exact ⟨c, d, typing, t, hc, hd, htyping, ht, habstract⟩
  · have heval : ((Catalog.ofText abstractSchema).toOption.bind fun c =>
        (Document.ofText "<a><h>x</h></a>").toOption.bind fun d =>
        (ofRoot c d.root).toOption.bind fun typing => d.root.children.head?.bind fun e =>
        (typing.get? e.id).map fun t => t.decl.isAbstract) = some true := by
      decide +kernel
    obtain ⟨c, hc, heval⟩ := Option.bind_eq_some_iff.1 heval
    obtain ⟨d, hd, heval⟩ := Option.bind_eq_some_iff.1 heval
    obtain ⟨typing, htyping, heval⟩ := Option.bind_eq_some_iff.1 heval
    obtain ⟨e, he, heval⟩ := Option.bind_eq_some_iff.1 heval
    obtain ⟨t, ht, habstract⟩ := Option.map_eq_some_iff.1 heval
    rw [toOption_eq_some_iff] at hc hd htyping
    exact ⟨c, d, typing, e, t, hc, hd, htyping, List.mem_of_head? he, ht, habstract⟩

end FeatureTables.Typing
