import FeatureTables.Proofs.OrderedMap
import FeatureTables.Proofs.Xml.Tree
import FeatureTables.Typing

/-!
What the typing of a document says. The typing of a child follows from the type of its parent
(`ofRoot_typed`), and that of an attribute from the attributes of the element and of its type
(`attribute_origin`). Each attribute has a typing, but for notes to the reader (`mem_attributes`).
-/

namespace FeatureTables.Typing

open Schema Xml Element

/-! ### Attributes -/

section Attributes

variable {c : Catalog} {e : Element} {type : TypeDef} {uses : OrderedMap QName Catalog.AttributeMatch}
  {found : Catalog.ChildMatch} {t : NodeTyping}

theorem attributeTyping_ok {name : QName} {a : AttributeTyping}
    (h : attributeTyping c e type uses name = .ok a) : a.name = name ∧
      (a.required = true → ∃ use, uses.get? name = some use ∧ use.required = true) := by
  unfold attributeTyping at h
  cases huse : uses.get? name with
  | some use =>
    rw [huse] at h
    obtain ⟨-, -, h⟩ := bind_eq_ok_iff.1 h
    obtain rfl := Except.ok.inj h
    exact ⟨rfl, fun hrequired => ⟨use, rfl, hrequired⟩⟩
  | none =>
    rw [huse] at h
    dsimp only at h
    split at h
    · cases h
      exact ⟨rfl, fun h => by cases h⟩
    · cases h

theorem foldlM_attributes {attributes : List Attribute} {m m' : OrderedMap String AttributeTyping}
    (h : attributes.foldlM (fun m a => do
      return m.put a.name.localName (← attributeTyping c e type uses a.name)) m =
        (.ok m' : Except Error _)) :
    (m.keys.Nodup → m'.keys.Nodup) ∧
    (∀ name a, m'.get? name = some a → m.get? name = some a ∨ a.name.localName = name ∧
      (∃ x ∈ attributes, x.name = a.name) ∧
      (a.required = true → ∃ use, uses.get? a.name = some use ∧ use.required = true)) ∧
    (∀ name ∈ m.keys, name ∈ m'.keys) ∧ ∀ a ∈ attributes, a.name.localName ∈ m'.keys := by
  induction attributes generalizing m with
  | nil =>
    obtain rfl := Except.ok.inj h
    exact ⟨id, fun name a ha => Or.inl ha, fun name hname => hname, by simp⟩
  | cons x attributes ih =>
    rw [List.foldlM_cons, bind_eq_ok_iff] at h
    obtain ⟨m₁, hm₁, h⟩ := h
    rw [bind_eq_ok_iff] at hm₁
    obtain ⟨a₁, ha₁, hm₁⟩ := hm₁
    obtain rfl := Except.ok.inj hm₁
    obtain ⟨hnodup, horigin, hkept, hfound⟩ := ih h
    obtain ⟨hname₁, hrequired₁⟩ := attributeTyping_ok ha₁
    refine ⟨fun hm => hnodup (OrderedMap.nodup_keys_put hm), fun name a ha => ?_,
      fun name hname => hkept name (OrderedMap.mem_keys_put.2 (Or.inr hname)),
      List.forall_mem_cons.2 ⟨hkept _ (OrderedMap.mem_keys_put.2 (Or.inl rfl)), hfound⟩⟩
    rcases horigin name a ha with ha | ha
    · rw [OrderedMap.get?_put] at ha
      split at ha
      · rename_i hx
        obtain rfl := Option.some.inj ha
        rw [hname₁]
        exact Or.inr ⟨hx.symm, ⟨x, List.mem_cons_self, rfl⟩, hrequired₁⟩
      · exact Or.inl ha
    · obtain ⟨hlocal, ⟨y, hy, hya⟩, huse⟩ := ha
      exact Or.inr ⟨hlocal, ⟨y, List.mem_cons_of_mem _ hy, hya⟩, huse⟩

/-- What the typing of an element is put together from: its declaration with its bounds, its type, and the
typings of its attributes, unless it is a geometry. -/
structure Assembled (c : Catalog) (e : Element) (found : Catalog.ChildMatch) (t : NodeTyping) :
    Prop where
  decl : t.decl = found.decl
  occurs : t.occurs = found.occurs
  type : ∃ declared, c.elementType found.decl = .ok declared ∧ instanceType c e declared = .ok t.type
  isGeometry : t.isGeometry = c.isGeometryType t.type
  attributes : t.isGeometry = true ∧ t.attributes = {} ∨ t.isGeometry = false ∧
    ∃ uses, c.attributeUses t.type = .ok uses ∧ attributeTypings c e t.type uses = .ok t.attributes

theorem nodeTyping_assembled (h : nodeTyping c e found = .ok t) : Assembled c e found t := by
  rw [nodeTyping, bind_eq_ok_iff] at h
  obtain ⟨declared, hdeclared, h⟩ := h
  rw [bind_eq_ok_iff] at h
  obtain ⟨type, htype, h⟩ := h
  cases hg : c.isGeometryType type with
  | true =>
    simp only [hg, if_true, bind_eq_ok_iff] at h
    obtain ⟨uses, huses, attributes, hattributes, -, -, h⟩ := h
    obtain rfl := Except.ok.inj h
    exact ⟨rfl, rfl, ⟨declared, hdeclared, htype⟩, hg.symm,
      Or.inl ⟨rfl, (Except.ok.inj hattributes).symm⟩⟩
  | false =>
    simp only [hg, Bool.false_eq_true, if_false, bind_eq_ok_iff] at h
    obtain ⟨uses, huses, attributes, hattributes, -, -, h⟩ := h
    obtain rfl := Except.ok.inj h
    exact ⟨rfl, rfl, ⟨declared, hdeclared, htype⟩, hg.symm, Or.inr ⟨rfl, uses, huses, hattributes⟩⟩

/-- A typing of an attribute is that of an attribute of the element. One that is required is required
by the type of the element. -/
theorem attribute_origin (h : nodeTyping c e found = .ok t) {name : String} {a : AttributeTyping}
    (ha : (name, a) ∈ t.attributes.entries) : a.name.localName = name ∧
      (∃ x ∈ e.attributes, x.name = a.name) ∧ (a.required = true → ∃ uses use,
        c.attributeUses t.type = .ok uses ∧ uses.get? a.name = some use ∧ use.required = true) := by
  rcases (nodeTyping_assembled h).attributes with ⟨-, hnone⟩ | ⟨-, uses, huses, hattributes⟩
  · rw [hnone] at ha
    cases ha
  · obtain ⟨hnodup, horigin, -, -⟩ := foldlM_attributes hattributes
    have hget := OrderedMap.get?_of_mem_entries (hnodup List.nodup_nil) ha
    rcases horigin name a hget with hnone | ⟨hname, ⟨x, hx, hxa⟩, huse⟩
    · cases hnone
    · refine ⟨hname, ⟨x, List.mem_of_mem_filter hx, hxa⟩, fun hrequired => ?_⟩
      obtain ⟨use, huse, hrequired⟩ := huse hrequired
      exact ⟨uses, use, huses, huse, hrequired⟩

/-- A note to the reader of the document has no typing. -/
theorem attribute_ns (h : nodeTyping c e found = .ok t) {name : String} {a : AttributeTyping}
    (ha : (name, a) ∈ t.attributes.entries) : a.name.ns? ≠ some xsiNamespace := by
  rcases (nodeTyping_assembled h).attributes with ⟨-, hnone⟩ | ⟨-, uses, huses, hattributes⟩
  · rw [hnone] at ha
    cases ha
  · obtain ⟨hnodup, horigin, -, -⟩ := foldlM_attributes hattributes
    have hget := OrderedMap.get?_of_mem_entries (hnodup List.nodup_nil) ha
    rcases horigin name a hget with hnone | ⟨-, ⟨x, hx, hxa⟩, -⟩
    · cases hnone
    · rw [← hxa]
      exact of_decide_eq_true (List.mem_filter.1 hx).2

/-- An attribute has a typing, unless it is a note to the reader of the document. -/
theorem mem_attributes (h : nodeTyping c e found = .ok t) (hg : t.isGeometry = false) {a : Attribute}
    (ha : a ∈ e.attributes) (hxsi : a.name.ns? ≠ some xsiNamespace) :
    a.name.localName ∈ t.attributes.keys := by
  rcases (nodeTyping_assembled h).attributes with ⟨hg', -⟩ | ⟨-, uses, -, hattributes⟩
  · rw [hg] at hg'
    cases hg'
  · obtain ⟨-, -, -, hfound⟩ := foldlM_attributes hattributes
    exact hfound a (List.mem_filter.2 ⟨ha, by simpa using hxsi⟩)

end Attributes

/-! ### Children -/

section Children

variable {c : Catalog} {out out' : Typing} {e : Element} {found : Catalog.ChildMatch}

/-- The typing of a child is found in the content model of its parent. -/
def TypedBelow (c : Catalog) (out : Typing) (w : Element) : Prop :=
  ∀ d ∈ w.children, ∀ t, out.get? d.id = some t → ∃ tw found, out.get? w.id = some tw ∧
    childMatch c w.name tw.type d.name = .ok found ∧ nodeTyping c d found = .ok t

/-- What typing an element adds to a typing: the element, and elements inside of it. -/
structure Types (c : Catalog) (found : Catalog.ChildMatch) (e : Element) (out out' : Typing) :
    Prop where
  frame : ∀ i, (∀ y ∈ e.descendants, y.id ≠ i) → out'.get? i = out.get? i
  self : ∃ t, out'.get? e.id = some t ∧ nodeTyping c e found = .ok t
  below : (∀ y ∈ e.descendants, out.get? y.id = none) → ∀ w ∈ e.descendants, TypedBelow c out' w

theorem addNode_eq (e : Element) : addNode c found out e = (do
    let t ← nodeTyping c e found
    if t.isGeometry then return out.put e.id t
    else addChildren c e.name t.type (out.put e.id t) e.children) := by
  cases e
  rw [addNode]

theorem TypedBelow.congr {w : Element} (h : TypedBelow c out w)
    (heq : ∀ y ∈ w.descendants, out'.get? y.id = out.get? y.id) : TypedBelow c out' w := by
  intro d hd t ht
  rw [heq d (mem_descendants_iff.2 (Or.inr (mem_inner_of_mem_children hd)))] at ht
  rw [heq w (mem_descendants_self w)]
  exact h d hd t ht

theorem addChildren_types {parent : QName} {type : TypeDef} {es : List Element}
    (hnodup : ((es.flatMap descendants).map (·.id)).Nodup)
    (hnode : ∀ d ∈ es, ∀ {found out out'}, addNode c found out d = .ok out' →
      Types c found d out out')
    (h : addChildren c parent type out es = .ok out') :
    (∀ i, (∀ y ∈ es.flatMap descendants, y.id ≠ i) → out'.get? i = out.get? i) ∧
    (∀ d ∈ es, ∃ found t, childMatch c parent type d.name = .ok found ∧ out'.get? d.id = some t ∧
      nodeTyping c d found = .ok t) ∧
    ((∀ y ∈ es.flatMap descendants, out.get? y.id = none) →
      ∀ w ∈ es.flatMap descendants, TypedBelow c out' w) := by
  induction es generalizing out with
  | nil =>
    obtain rfl := Except.ok.inj h
    simp
  | cons d es ih =>
    simp only [addChildren, bind_eq_ok_iff] at h
    obtain ⟨found, hfound, out₁, hd, h⟩ := h
    rw [List.flatMap_cons] at hnodup ⊢
    have htypes := hnode d List.mem_cons_self hd
    have htail : ((es.flatMap descendants).map (·.id)).Nodup :=
      hnodup.sublist ((List.sublist_append_right _ _).map _)
    obtain ⟨hframe, hself, hbelow⟩ := ih htail (fun x hx => hnode x (List.mem_cons_of_mem _ hx)) h
    -- the subtree of the first child and those of the others have no number in common
    rw [List.map_append] at hnodup
    have hdisjoint : ∀ x ∈ d.descendants, ∀ y ∈ es.flatMap descendants, y.id ≠ x.id := by
      intro x hx y hy hid
      exact List.disjoint_of_nodup_append hnodup (List.mem_map_of_mem hx)
        (hid ▸ List.mem_map_of_mem hy)
    have hsame : ∀ x ∈ d.descendants, out'.get? x.id = out₁.get? x.id :=
      fun x hx => hframe x.id (hdisjoint x hx)
    refine ⟨fun i hi => ?_, List.forall_mem_cons.2 ⟨?_, hself⟩, fun hnone w hw => ?_⟩
    · rw [hframe i fun y hy => hi y (List.mem_append_right _ hy),
        htypes.frame i fun y hy => hi y (List.mem_append_left _ hy)]
    · obtain ⟨t, ht, hnodeTyping⟩ := htypes.self
      exact ⟨found, t, hfound, by rw [hsame d (mem_descendants_self d), ht], hnodeTyping⟩
    · rcases List.mem_append.1 hw with hw | hw
      · exact (htypes.below (fun y hy => hnone y (List.mem_append_left _ hy)) w hw).congr
          fun y hy => hsame y (mem_descendants_trans hy hw)
      · refine hbelow (fun y hy => ?_) w hw
        rw [htypes.frame y.id fun x hx hid => hdisjoint x hx y hy hid.symm]
        exact hnone y (List.mem_append_right _ hy)

theorem addNode_types (hd : e.Distinct) (h : addNode c found out e = .ok out') :
    Types c found e out out' := by
  induction e using induct_tree generalizing found out out' with
  | h e ih =>
    rw [addNode_eq, bind_eq_ok_iff] at h
    obtain ⟨t, ht, h⟩ := h
    have hput : ∀ i, (∀ y ∈ e.descendants, y.id ≠ i) → (out.put e.id t).get? i = out.get? i := by
      intro i hi
      rw [NodeMap.get?_put, if_neg fun hid => hi e (mem_descendants_self e) hid.symm]
    have hinner : ∀ y ∈ e.inner, (out.put e.id t).get? y.id = out.get? y.id := by
      intro y hy
      rw [NodeMap.get?_put, if_neg (hd.id_ne hy)]
    have hself : (out.put e.id t).get? e.id = some t := by
      rw [NodeMap.get?_put, if_pos rfl]
    cases hg : t.isGeometry with
    | true =>
      rw [hg, if_pos rfl] at h
      obtain rfl := Except.ok.inj h
      refine ⟨hput, ⟨t, hself, ht⟩, fun hnone w hw d hd' td htd => ?_⟩
      have hmem : d ∈ e.inner := mem_inner_of_inner (mem_inner_of_mem_children hd') hw
      rw [hinner d hmem, hnone d (mem_descendants_iff.2 (Or.inr hmem))] at htd
      cases htd
    | false =>
      rw [hg, if_neg Bool.false_ne_true] at h
      obtain ⟨hframe, hchildren, hbelow⟩ := addChildren_types hd.nodup_inner
        (fun d hdc {found out out'} h => ih d hdc (hd.child hdc) h) h
      have hself' : out'.get? e.id = some t := by
        rw [hframe e.id fun y hy => hd.id_ne hy, hself]
      refine ⟨fun i hi => ?_, ⟨t, hself', ht⟩, fun hnone w hw => ?_⟩
      · rw [hframe i fun y hy => hi y (mem_descendants_iff.2 (Or.inr hy)), hput i hi]
      · rcases mem_descendants_iff.1 hw with rfl | hw
        · intro d hdc td htd
          obtain ⟨found', t', hmatch, ht', hnodeTyping⟩ := hchildren d hdc
          obtain rfl := Option.some.inj (htd.symm.trans ht')
          exact ⟨t, found', hself', hmatch, hnodeTyping⟩
        · refine hbelow (fun y hy => ?_) w hw
          rw [hinner y hy]
          exact hnone y (mem_descendants_iff.2 (Or.inr hy))

end Children

/-! ### Documents -/

/-- The root of a document has a typing, and so has each child whose parent is no geometry: that of
its declaration in the content model of the parent. -/
theorem ofRoot_typed {c : Catalog} {root : Element} {typing : Typing} (hd : root.Distinct)
    (h : ofRoot c root = .ok typing) :
    (∃ found t, typing.get? root.id = some t ∧ nodeTyping c root found = .ok t) ∧
      ∀ w ∈ root.descendants, TypedBelow c typing w := by
  unfold ofRoot at h
  cases hdecl : c.elements.get? root.name with
  | none =>
    rw [hdecl] at h
    cases h
  | some decl =>
    rw [hdecl] at h
    have htypes := addNode_types hd h
    obtain ⟨t, ht, hnodeTyping⟩ := htypes.self
    exact ⟨⟨_, t, ht, hnodeTyping⟩, htypes.below fun _ _ => rfl⟩

/-- Each typing of a document is that of an element with some declaration. -/
theorem ofRoot_nodeTyping {c : Catalog} {root : Element} {typing : Typing} (hd : root.Distinct)
    (h : ofRoot c root = .ok typing) {e : Element} (he : e ∈ root.descendants) {t : NodeTyping}
    (ht : typing.get? e.id = some t) : ∃ found, nodeTyping c e found = .ok t := by
  obtain ⟨⟨found, t', ht', hroot⟩, hbelow⟩ := ofRoot_typed hd h
  rcases mem_descendants_iff.1 he with rfl | he
  · rw [ht] at ht'
    cases ht'
    exact ⟨found, hroot⟩
  · obtain ⟨w, hw, hchild⟩ := exists_parent he
    obtain ⟨-, found, -, -, hnodeTyping⟩ := hbelow w hw e hchild t ht
    exact ⟨found, hnodeTyping⟩

end FeatureTables.Typing
