import FeatureTables.Proofs.Xml.Tree
import FeatureTables.Schema.Declaration
import FeatureTables.Xml.Document

/-!
Documents without a namespace. For an includer such a document reads as the one that names the
includer's namespace as its own and as the default one everywhere (`read_adopted`): what it declares is
the same, and so are its errors. Elements are looked at by their local names only, so the names of the
elements below the root may be in the namespace or not.
-/

namespace FeatureTables

/-! ### Documents with a default namespace -/

/-- The scope with this default namespace. -/
def Scope.withDefault (ns : String) (s : Scope) : Scope := { s with default? := some ns }

/-- The name that an element with this name has where `ns` is the default namespace. -/
def QName.within (ns : String) (n : QName) : QName := ⟨n.ns?.or (some ns), n.localName⟩

namespace Xml.Element

mutual
/-- The tree with a default namespace in all scopes, and with changed names. -/
def withDefault (ns : String) (rename : QName → QName) : Element → Element
  | ⟨id, name, attributes, text?, children, scope⟩ =>
    ⟨id, rename name, attributes, text?, withDefaultAmong ns rename children, scope.withDefault ns⟩
def withDefaultAmong (ns : String) (rename : QName → QName) : List Element → List Element
  | [] => []
  | e :: es => withDefault ns rename e :: withDefaultAmong ns rename es
end

/-- The root with this target namespace, which is the default namespace too. -/
def declaring (ns : String) (rename : QName → QName) (root : Element) : Element :=
  { root.withDefault ns rename with
    attributes := root.attributes ++ [⟨.plain "targetNamespace", ns⟩] }

/-- Nothing in the tree has a default namespace. -/
def Unscoped (e : Element) : Prop := ∀ d ∈ e.descendants, d.scope.default? = none

instance (e : Element) : Decidable e.Unscoped := inferInstanceAs (Decidable (∀ d ∈ e.descendants, _))

section WithDefault

variable {ns : String} {rename : QName → QName} {e d : Element}

theorem withDefaultAmong_eq (es : List Element) :
    withDefaultAmong ns rename es = es.map (withDefault ns rename) := by
  induction es with
  | nil => rfl
  | cons e es ih => rw [withDefaultAmong, ih, List.map_cons]

@[simp] theorem withDefault_children (e : Element) :
    (e.withDefault ns rename).children = e.children.map (withDefault ns rename) := by
  cases e
  exact withDefaultAmong_eq _

@[simp] theorem withDefault_id (e : Element) : (e.withDefault ns rename).id = e.id := by
  cases e
  rfl

@[simp] theorem withDefault_attribute? (e : Element) (key : String) :
    (e.withDefault ns rename).attribute? key = e.attribute? key := by
  cases e
  rfl

theorem withDefault_scope (e : Element) :
    (e.withDefault ns rename).scope = e.scope.withDefault ns := by
  cases e
  rfl

theorem withDefault_name (e : Element) : (e.withDefault ns rename).name = rename e.name := by
  cases e
  rfl

mutual
theorem size_withDefault (e : Element) : (e.withDefault ns rename).size = e.size := by
  obtain ⟨id, name, attributes, text?, children, scope⟩ := e
  rw [withDefault, size, size, sizeAmong_withDefault]
theorem sizeAmong_withDefault (es : List Element) :
    sizeAmong (withDefaultAmong ns rename es) = sizeAmong es := by
  cases es with
  | nil => rfl
  | cons e es => rw [withDefaultAmong, sizeAmong, sizeAmong, size_withDefault, sizeAmong_withDefault]
end

theorem Unscoped.of_mem (h : e.Unscoped) (hd : d ∈ e.descendants) : d.Unscoped :=
  fun _ hx => h _ (mem_descendants_trans hx hd)

theorem Unscoped.child (h : e.Unscoped) (hd : d ∈ e.children) : d.Unscoped :=
  h.of_mem (mem_descendants_iff.2 (Or.inr (mem_inner_of_mem_children hd)))

theorem Unscoped.scope (h : e.Unscoped) : e.scope.default? = none := h e (mem_descendants_self e)

/-! ### Roots with a target namespace -/

theorem declaring_name (root : Element) : (root.declaring ns rename).name = rename root.name :=
  withDefault_name root

theorem declaring_children (root : Element) :
    (root.declaring ns rename).children = root.children.map (withDefault ns rename) :=
  withDefault_children root

theorem declaring_size (root : Element) : (root.declaring ns rename).size = root.size := by
  have hsize : (root.withDefault ns rename).size = root.size := size_withDefault root
  rw [← hsize]
  unfold declaring
  cases root.withDefault ns rename
  rfl

theorem declaring_target (h : e.attribute? "targetNamespace" = none) :
    (e.declaring ns rename).attribute? "targetNamespace" = some ns := by
  have hnone : e.attributes.find? (·.name.localName == "targetNamespace") = none :=
    Option.map_eq_none_iff.1 h
  unfold declaring attribute?
  rw [List.find?_append, hnone]
  rfl

theorem declaring_attribute? {key : String} (h : key ≠ "targetNamespace") :
    (e.declaring ns rename).attribute? key = e.attribute? key := by
  unfold declaring attribute?
  have hlast : [(⟨.plain "targetNamespace", ns⟩ : Attribute)].find? (·.name.localName == key) = none :=
    List.find?_eq_none.2 (by simpa [QName.plain] using h.symm)
  rw [List.find?_append, hlast, Option.or_none]

end WithDefault

end Xml.Element

namespace Schema

open Xml Element

/-! ### Names -/

/-- The same document, when it names its namespace itself. -/
def Context.owning (c : Context) : Context := { c with adopts := false }

/-- The document takes `ns` from its includer. Changed names stay the same locally. -/
structure Context.Adopting (c : Context) (ns : String) (rename : QName → QName) : Prop where
  target : c.target? = some ns
  adopts : c.adopts = true
  localName : ∀ name, (rename name).localName = name.localName

section Adoption

variable {c : Context} {ns : String} {rename : QName → QName} (h : c.Adopting ns rename)

/-- A name without a prefix gets the default namespace on one side and is adopted on the other. -/
theorem Context.Adopting.resolve (h : c.Adopting ns rename) {e : Element} (he : e.Unscoped)
    (written : String) :
    c.owning.resolve (e.withDefault ns rename) written = c.resolve e written := by
  have hnone := he.scope
  unfold Context.resolve Scope.resolve
  rw [withDefault_scope, h.adopts, h.target]
  dsimp only
  cases Text.splitOnce ':' (Text.trim written) with
  | none =>
    dsimp only
    rw [hnone]
    rfl
  | some parts =>
    obtain ⟨label, localName⟩ := parts
    have hsame : (e.scope.withDefault ns).namespace? label = e.scope.namespace? label := rfl
    dsimp only
    rw [hsame]
    cases e.scope.namespace? label with
    | some ns' => rfl
    | none => rfl

theorem Context.Adopting.reference? (h : c.Adopting ns rename) {e : Element} (he : e.Unscoped)
    (key : String) : c.owning.reference? (e.withDefault ns rename) key = c.reference? e key := by
  unfold Context.reference?
  rw [withDefault_attribute?]
  cases e.attribute? key with
  | none => rfl
  | some written =>
    dsimp only
    rw [h.resolve he]

theorem Context.Adopting.localName_eq (h : c.Adopting ns rename) (e : Element) :
    (e.withDefault ns rename).localName = e.localName := by
  unfold Element.localName
  rw [withDefault_name, h.localName]

theorem owning_ownName (e : Element) (qualified : Bool) (name : String) :
    c.owning.ownName (e.withDefault ns rename) qualified name = c.ownName e qualified name := by
  unfold Context.ownName
  rw [withDefault_attribute?]
  rfl

theorem holdsTrue_withDefault (e : Element) (key : String) :
    holdsTrue (e.withDefault ns rename) key = holdsTrue e key := by
  unfold holdsTrue
  rw [withDefault_attribute?]

theorem occursOf_withDefault (e : Element) : occursOf (e.withDefault ns rename) = occursOf e := by
  unfold occursOf
  rw [withDefault_attribute?, withDefault_attribute?]

/-- A choice among elements by their local names is the same choice. -/
theorem Context.Adopting.comp_localName (h : c.Adopting ns rename) (p : String → Bool) :
    (fun d : Element => p d.localName) ∘ withDefault ns rename = fun d => p d.localName := by
  funext e
  exact congrArg p (h.localName_eq e)

include h in
theorem bodyOf_withDefault (content? : Option Element) (e : Element) :
    bodyOf (content?.map (withDefault ns rename)) (e.withDefault ns rename) =
      ((bodyOf content? e).1.withDefault ns rename,
        (bodyOf content? e).2.map (withDefault ns rename)) := by
  unfold bodyOf
  cases content? with
  | none => rfl
  | some content =>
    simp only [Option.map_some, withDefault_children, List.find?_map]
    rw [h.comp_localName (fun s => s == "extension" || s == "restriction")]
    cases content.children.find? fun d => d.localName == "extension" || d.localName == "restriction"
    with
    | none => rfl
    | some d => rfl

/-- The body of a type and what says how it derives are below the type. -/
theorem bodyOf_unscoped {content? : Option Element} {e : Element} (he : e.Unscoped)
    (hcontent : ∀ d ∈ content?, d ∈ e.children) :
    (bodyOf content? e).1.Unscoped ∧ ∀ d ∈ (bodyOf content? e).2, d.Unscoped := by
  unfold bodyOf
  cases content? with
  | none => exact ⟨he, by simp⟩
  | some content =>
    have hc := he.child (hcontent content rfl)
    dsimp only
    split
    · next d hd =>
      have hd := hc.child (List.mem_of_find?_eq_some hd)
      exact ⟨hd, by simpa using hd⟩
    · exact ⟨hc, by simp⟩

/-- A fold over changed elements that takes each one as the other fold takes its original. -/
theorem foldlM_withDefault {α : Type} {es : List Element} {f g : α → Element → Except Error α}
    (hfg : ∀ e ∈ es, ∀ a, f a (e.withDefault ns rename) = g a e) (a : α) :
    (es.map (withDefault ns rename)).foldlM f a = es.foldlM g a := by
  induction es generalizing a with
  | nil => rfl
  | cons e es ih =>
    rw [List.map_cons, List.foldlM_cons, List.foldlM_cons, hfg e List.mem_cons_self]
    have hrest := ih fun d hd => hfg d (List.mem_cons_of_mem _ hd)
    congr 1
    funext b
    exact hrest b

/-! ### One more level of nesting -/

/-- What nests at most `n` deep reads the same. -/
structure Adopts (c : Context) (ns : String) (rename : QName → QName) (n : Nat) : Prop where
  inlineType : ∀ e : Element, e.Unscoped →
    inlineType? c.owning n (e.withDefault ns rename) = inlineType? c n e
  typeOf : ∀ key, ∀ e : Element, e.Unscoped →
    typeOf? c.owning n key (e.withDefault ns rename) = typeOf? c n key e
  simpleType : ∀ e : Element, e.Unscoped → ∀ name?,
    simpleType c.owning n (e.withDefault ns rename) name? = simpleType c n e name?
  complexType : ∀ e : Element, e.Unscoped → ∀ name?,
    complexType c.owning n (e.withDefault ns rename) name? = complexType c n e name?
  attributes : ∀ e : Element, e.Unscoped →
    attributesOf c.owning n (e.withDefault ns rename) = attributesOf c n e
  contentModel : ∀ es : List Element, (∀ e ∈ es, e.Unscoped) →
    contentModel? c.owning n (es.map (withDefault ns rename)) = contentModel? c n es
  particle : ∀ e : Element, e.Unscoped →
    particle? c.owning n (e.withDefault ns rename) = particle? c n e
  element : ∀ isGlobal, ∀ e : Element, e.Unscoped →
    elementDecl c.owning n isGlobal (e.withDefault ns rename) = elementDecl c n isGlobal e

variable {n : Nat} (ih : Adopts c ns rename n) {e : Element} (he : e.Unscoped)

include h ih he

theorem Adopts.inlineType_succ :
    inlineType? c.owning (n + 1) (e.withDefault ns rename) = inlineType? c (n + 1) e := by
  simp only [inlineType?, withDefault_children, List.find?_map]
  rw [h.comp_localName (fun s => s == "complexType" || s == "simpleType")]
  cases hfind : e.children.find? fun d => d.localName == "complexType" || d.localName == "simpleType"
  with
  | none => rfl
  | some d =>
    have hd := he.child (List.mem_of_find?_eq_some hfind)
    dsimp only [Option.map_some]
    rw [h.localName_eq, ih.complexType d hd, ih.simpleType d hd]

theorem Adopts.typeOf_succ (key : String) :
    typeOf? c.owning (n + 1) key (e.withDefault ns rename) = typeOf? c (n + 1) key e := by
  simp only [typeOf?]
  rw [h.reference? he, ih.inlineType e he]

theorem Adopts.simpleType_succ (name? : Option QName) :
    Schema.simpleType c.owning (n + 1) (e.withDefault ns rename) name? =
      Schema.simpleType c (n + 1) e name? := by
  simp only [Schema.simpleType, withDefault_children, withDefault_id]
  refine foldlM_withDefault (fun d hd t => ?_) _
  have hd := he.child hd
  rw [h.localName_eq]
  split
  · rw [ih.typeOf "base" d hd]
  · rw [ih.typeOf "itemType" d hd]
  · rfl
  · rfl

theorem Adopts.attributes_succ :
    attributesOf c.owning (n + 1) (e.withDefault ns rename) = attributesOf c (n + 1) e := by
  simp only [attributesOf, withDefault_children]
  refine foldlM_withDefault (fun d hd g => ?_) _
  have hd := he.child hd
  rw [h.localName_eq]
  split
  · rw [withDefault_attribute?, withDefault_attribute?, h.reference? hd, ih.typeOf "type" d hd]
    simp only [owning_ownName]
    rfl
  · rw [h.reference? hd]
  · rfl
  · rfl

theorem Adopts.complexType_succ (name? : Option QName) :
    Schema.complexType c.owning (n + 1) (e.withDefault ns rename) name? =
      Schema.complexType c (n + 1) e name? := by
  simp only [Schema.complexType, withDefault_children, List.filter_map, List.getLast?_map,
    List.any_map, Option.any_map, withDefault_id, holdsTrue_withDefault]
  rw [h.comp_localName (fun s => s == "simpleContent" || s == "complexContent"),
    h.comp_localName (fun s => s == "simpleContent")]
  have hcontent : ∀ d ∈ (e.children.filter fun d =>
      d.localName == "simpleContent" || d.localName == "complexContent").getLast?, d ∈ e.children :=
    fun d hd => (List.mem_filter.1 (List.mem_of_getLast? hd)).1
  generalize (e.children.filter fun d =>
      d.localName == "simpleContent" || d.localName == "complexContent").getLast? = content? at *
  obtain ⟨hbody, hderiving⟩ := bodyOf_unscoped he hcontent
  rw [bodyOf_withDefault h]
  generalize bodyOf content? e = body at *
  obtain ⟨body, deriving?⟩ := body
  have hmodel := ih.contentModel body.children fun d hd => hbody.child hd
  cases deriving? with
  | none =>
    simp only [Option.map_none, ih.attributes body hbody, hmodel, withDefault_children]
    rfl
  | some d =>
    simp only [Option.map_some, ih.attributes body hbody, hmodel, withDefault_children,
      h.reference? (hderiving d rfl), Option.any_some, h.localName_eq]
    rfl

omit h he in
theorem Adopts.contentModel_succ (es : List Element) (hes : ∀ e ∈ es, e.Unscoped) :
    contentModel? c.owning (n + 1) (es.map (withDefault ns rename)) = contentModel? c (n + 1) es := by
  cases es with
  | nil => rfl
  | cons e es =>
    simp only [contentModel?, List.map_cons]
    rw [ih.particle e (hes e List.mem_cons_self),
      ih.contentModel es fun d hd => hes d (List.mem_cons_of_mem _ hd)]

theorem Adopts.element_succ (isGlobal : Bool) :
    elementDecl c.owning (n + 1) isGlobal (e.withDefault ns rename) =
      elementDecl c (n + 1) isGlobal e := by
  simp only [elementDecl, withDefault_attribute?]
  rw [ih.typeOf "type" e he, h.reference? he]
  simp only [owning_ownName, holdsTrue_withDefault]
  rfl

theorem Adopts.particle_succ :
    particle? c.owning (n + 1) (e.withDefault ns rename) = particle? c (n + 1) e := by
  have hmembers : ∀ ps : List Particle,
      (e.children.map (withDefault ns rename)).foldlM
        (fun ps d => do return ps ++ (← particle? c.owning n d).toList) ps =
      e.children.foldlM (fun ps d => do return ps ++ (← particle? c n d).toList) ps := by
    refine foldlM_withDefault fun d hd ps => ?_
    rw [ih.particle d (he.child hd)]
  simp only [particle?, withDefault_children]
  rw [h.localName_eq, hmembers, h.reference? he, ih.element false e he, occursOf_withDefault]

omit h ih he in
/-- Whatever the nesting, the elements of a document without a default namespace read the same. -/
theorem adopts (h : c.Adopting ns rename) (n : Nat) : Adopts c ns rename n := by
  induction n with
  | zero => constructor <;> intros <;> rfl
  | succ n ih =>
    exact {
      inlineType := fun e he => ih.inlineType_succ h he
      typeOf := fun key e he => ih.typeOf_succ h he key
      simpleType := fun e he => ih.simpleType_succ h he
      complexType := fun e he => ih.complexType_succ h he
      attributes := fun e he => ih.attributes_succ h he
      contentModel := ih.contentModel_succ
      particle := fun e he => ih.particle_succ h he
      element := fun isGlobal e he => ih.element_succ h he isGlobal }

/-! ### Documents -/

omit h ih he in
theorem add_adopted (h : c.Adopting ns rename) (n : Nat) (d : Declarations) {e : Element}
    (he : e.Unscoped) : d.add c.owning n (e.withDefault ns rename) = d.add c n e := by
  have ih := adopts h n
  have hname : c.owning.globalName (e.withDefault ns rename) = c.globalName e := by
    unfold Context.globalName
    rw [withDefault_attribute?, h.localName_eq]
    rfl
  unfold Declarations.add
  rw [h.localName_eq, hname, ih.element true e he, ih.typeOf "type" e he, ih.attributes e he,
    withDefault_children, ih.contentModel e.children fun d hd => he.child hd]
  simp only [ih.complexType e he, ih.simpleType e he, withDefault_attribute?]
  rfl

end Adoption

section Documents

variable {ns : String} {rename : QName → QName} {root : Element}

/-- The root with a target namespace says of names what the one without it says to an includer. The
names of elements may change, but for their local parts and for the name of the root. -/
theorem read_declaring (document : Nat) (location : String) (hroot : root.Unscoped)
    (htarget : root.attribute? "targetNamespace" = none)
    (hlocal : ∀ name, (rename name).localName = name.localName)
    (hname : rename root.name = root.name) :
    Declarations.read document location none (root.declaring ns rename) =
      Declarations.read document location (some ns) root := by
  unfold Declarations.read
  rw [declaring_name, hname, declaring_size, declaring_children, declaring_target htarget,
    declaring_attribute? (by decide : "elementFormDefault" ≠ "targetNamespace"),
    declaring_attribute? (by decide : "attributeFormDefault" ≠ "targetNamespace"), htarget]
  by_cases hschema : root.name = .xsd "schema"
  · rw [if_neg (not_not.2 hschema), if_neg (not_not.2 hschema)]
    let c : Context := {
      target? := some ns, adopts := true
      elementsQualified := root.attribute? "elementFormDefault" == some "qualified"
      attributesQualified := root.attribute? "attributeFormDefault" == some "qualified"
      location, document }
    have hc : c.Adopting ns rename := ⟨rfl, rfl, hlocal⟩
    exact foldlM_withDefault (fun e he d => add_adopted hc _ d (hroot.child he)) _
  · rw [if_pos hschema, if_pos hschema]

/-- A document without a namespace of its own and without a default one reads for an includer, to the
same declarations or the same error, as the document that names the includer's namespace as its own and
as the default one; also when that puts the elements themselves into the namespace. -/
theorem read_adopted (document : Nat) (location ns : String) (root : Element)
    (hroot : root.Unscoped) (htarget : root.attribute? "targetNamespace" = none) :
    Declarations.read document location (some ns) root =
        Declarations.read document location none (root.declaring ns id) ∧
      (root.name = .xsd "schema" →
        Declarations.read document location (some ns) root =
          Declarations.read document location none (root.declaring ns (QName.within ns))) := by
  refine ⟨?_, fun hschema => ?_⟩
  · exact (read_declaring document location hroot htarget (fun _ => rfl) rfl).symm
  · have hname : QName.within ns root.name = root.name := by
      rw [hschema]
      rfl
    have hlocal : ∀ name, (QName.within ns name).localName = name.localName := fun _ => rfl
    exact (read_declaring document location hroot htarget hlocal hname).symm

/-- A document with a type in an element, which refers to a type of the document. -/
def includedText : String :=
  "<xs:schema xmlns:xs='http://www.w3.org/2001/XMLSchema'><xs:element name='thing'>" ++
    "<xs:complexType><xs:attribute name='size' type='Size'/></xs:complexType></xs:element>" ++
    "<xs:simpleType name='Size'><xs:restriction base='xs:string'/></xs:simpleType></xs:schema>"

theorem includedText_read_adopted : ∃ d, Document.ofText includedText = .ok d ∧
    d.root.Unscoped ∧ d.root.attribute? "targetNamespace" = none ∧
    Declarations.read 0 "shared.xsd" (some "urn:host") d.root =
      Declarations.read 0 "shared.xsd" none (d.root.declaring "urn:host" id) ∧
    ((Declarations.read 0 "shared.xsd" (some "urn:host") d.root).map fun d =>
      d.elements.map (·.name)) = .ok [⟨some "urn:host", "thing"⟩] := by
  have heval : (Document.ofText includedText).toOption.map (fun d =>
      decide (d.root.Unscoped ∧ d.root.attribute? "targetNamespace" = none ∧
        ((Declarations.read 0 "shared.xsd" (some "urn:host") d.root).map fun d =>
          d.elements.map (·.name)).toOption = some [⟨some "urn:host", "thing"⟩])) = some true := by
    decide +kernel
  obtain ⟨d, hd, heval⟩ := Option.map_eq_some_iff.1 heval
  obtain ⟨hroot, htarget, hread⟩ := of_decide_eq_true heval
  have hsame := (read_adopted 0 "shared.xsd" "urn:host" d.root hroot htarget).1
  exact ⟨d, toOption_eq_some_iff.1 hd, hroot, htarget, hsame, toOption_eq_some_iff.1 hread⟩

end Documents

end Schema

end FeatureTables
