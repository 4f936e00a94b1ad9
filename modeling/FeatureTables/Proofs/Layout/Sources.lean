import FeatureTables.Proofs.Layout.Contents
import FeatureTables.Proofs.Layout.Way
import FeatureTables.Proofs.Typing

/-!
What a document says below the structure of its elements, and which of it keys lead to. The row of an
element is there for the attributes, texts and geometries of the element and of the parts of its row,
each of which has a key of its own (`Holds`). A key may lead to more than one of them (`itemsAt`), and
what is read is the first (`selectText?_eq`, `selectShape?_eq`).
-/

namespace FeatureTables

open Schema Xml Element

/-! ### Plain names -/

/-- The names of a tree can be steps of keys. -/
structure PlainNames (e : Element) : Prop where
  elements : Layout.PlainBelow e
  attributes : ∀ y ∈ e.descendants, ∀ a ∈ y.attributes, '/' ∉ a.name.localName.toList

instance (e : Element) : Decidable (PlainNames e) :=
  decidable_of_iff ((∀ y ∈ e.inner, PlainName y.localName) ∧
      ∀ y ∈ e.descendants, ∀ a ∈ y.attributes, '/' ∉ a.name.localName.toList)
    ⟨fun h => ⟨h.1, h.2⟩, fun h => ⟨h.elements, h.attributes⟩⟩

theorem PlainNames.of_mem {e y : Element} (h : PlainNames e) (hy : y ∈ e.descendants) :
    PlainNames y where
  elements z hz := h.elements z (mem_inner_of_inner hz hy)
  attributes z hz := h.attributes z (mem_descendants_trans hz hy)

theorem PlainNames.child {e c : Element} (h : PlainNames e) (hc : c ∈ e.children) : PlainNames c :=
  h.of_mem (mem_descendants_iff.2 (Or.inr (mem_inner_of_mem_children hc)))

/-- The field is of the kind that the last step of its key says. -/
def Field.Fits (last : Key.Step) : Field → Prop
  | .column _ => last = .text ∨ ∃ name, last = .attr name
  | .link _ => ∃ name first, last = .tag name first
  | .geometry _ => last = .geometry
  | .backLink _ => False

/-- A field stays of its kind. -/
theorem Field.Fits.grows {last : Key.Step} {f g : Field} (h : f.Fits last) (hfg : f.Grows g) :
    g.Fits last := by
  cases hfg <;> exact h

theorem Field.Fits.under {last : Key.Step} {f : Field} (h : f.Fits last) (step : String)
    (optional : Bool) : (f.under step optional).Fits last := by
  cases f <;> exact h

namespace Layout

theorem lastStep?_eq_some_iff {key : String} {before : List Key.Step} {last : Key.Step} :
    lastStep? key = some (before, last) ↔ Key.steps key = before ++ [last] := by
  unfold lastStep?
  rw [← List.reverse_inj, List.reverse_append]
  cases (Key.steps key).reverse with
  | nil => simp
  | cons x xs =>
    simp only [List.reverse_cons, List.reverse_nil, List.nil_append, List.singleton_append,
      Option.some.injEq, Prod.mk.injEq, List.cons.injEq]
    constructor
    · rintro ⟨rfl, rfl⟩
      exact ⟨rfl, (List.reverse_reverse _).symm⟩
    · rintro ⟨rfl, rfl⟩
      exact ⟨List.reverse_reverse _, rfl⟩

/-- The typings are those of the elements by the catalog. -/
def TypedBy (c : Catalog) (s : Setting) (e : Element) : Prop :=
  ∀ y ∈ e.descendants, ∀ t, typingOf s y = .ok t → ∃ found, Typing.nodeTyping c y found = .ok t

theorem TypedBy.of_mem {c : Catalog} {s : Setting} {e y : Element} (h : TypedBy c s e)
    (hy : y ∈ e.descendants) : TypedBy c s y := fun z hz => h z (mem_descendants_trans hz hy)

theorem TypedBy.child {c : Catalog} {s : Setting} {e d : Element} (h : TypedBy c s e)
    (hd : d ∈ e.children) : TypedBy c s d :=
  h.of_mem (mem_descendants_iff.2 (Or.inr (mem_inner_of_mem_children hd)))

theorem typedBy_ofRoot {c : Catalog} {root : Element} {typing : Typing} (hd : root.Distinct)
    (h : Typing.ofRoot c root = .ok typing) (o : BuildOptions) : TypedBy c ⟨typing, o⟩ root :=
  fun _ hy _ ht => Typing.ofRoot_nodeTyping hd h hy (typingOf_eq_ok_iff.1 ht)

theorem Carries.key_under {s : Setting} {l : Layout} {e : Element} {f : Field}
    (h : Carries s l e f) (step : String) (optional : Bool) :
    (f.under step optional).key = Key.under step f.key := by
  have hkind : ∀ b, f ≠ .backLink b := by
    induction h with
    | own _ hf =>
      rintro b rfl
      rcases mem_ownFields hf with ⟨_, _, -, h⟩ | ⟨_, h⟩ <;> cases h
    | geometry => exact fun b hb => by cases hb
    | @part _ _ _ f _ _ _ _ ih =>
      intro b hb
      cases f with
      | backLink b' => exact ih b' rfl
      | _ => cases hb
    | row => exact fun b hb => by cases hb
  cases f with
  | backLink b => exact absurd rfl (hkind b)
  | _ => rfl

section Fits

variable {c : Catalog} {s : Setting} {l : Layout} {e : Element} {f : Field}

theorem own_fits (ht : TypedBy c s e) (hplain : PlainNames e) {t : NodeTyping}
    (h : typingOf s e = .ok t) (hf : f ∈ ownFields e t) :
    ∃ last, Key.steps f.key = [last] ∧ f.Fits last := by
  rcases mem_ownFields hf with ⟨name, a, ha, rfl⟩ | ⟨kind, rfl⟩
  · obtain ⟨found, hfound⟩ := ht e (mem_descendants_self e) t h
    obtain ⟨rfl, ⟨x, hx, hxa⟩, -⟩ := Typing.attribute_origin hfound ha
    have hslash := hplain.attributes e (mem_descendants_self e) x hx
    exact ⟨_, Key.steps_attribute (hxa ▸ hslash), Or.inr ⟨_, rfl⟩⟩
  · exact ⟨_, Key.steps_text, Or.inl rfl⟩

/-- The fields that an element brings are of the kinds that their keys say. -/
theorem Carries.fits (h : Carries s l e f) (ht : TypedBy c s e) (hplain : PlainNames e) :
    ∃ before last, Key.steps f.key = before ++ [last] ∧ f.Fits last := by
  induction h with
  | own h hf =>
    obtain ⟨last, hlast, hfits⟩ := own_fits ht hplain h hf
    exact ⟨[], last, hlast, hfits⟩
  | geometry => exact ⟨[], .geometry, Key.steps_geometry, rfl⟩
  | @part e d t f hd _ _ hf ih =>
    obtain ⟨before, last, hlast, hfits⟩ := ih (ht.child hd) (hplain.child hd)
    have hstep := plain_keyStep e (hplain.elements d (mem_inner_of_mem_children hd))
    refine ⟨.tag (keyStep e d) false :: before, last, ?_, hfits.under _ _⟩
    rw [hf.key_under, Key.steps_under hstep, hlast]
    rfl
  | @row e d t target hd =>
    have hstep := plain_keyStep e (hplain.elements d (mem_inner_of_mem_children hd))
    exact ⟨[], .tag (keyStep e d) false, Key.steps_of_plain hstep, _, _, rfl⟩

end Fits

end Layout

/-! ### What a document says -/

/-- A piece of what a document says: an attribute or the text of an element, or a geometry. -/
inductive Item where
  | attr (e : Element) (a : Attribute)
  | text (e : Element)
  | geometry (e : Element)

namespace Item

def text? : Item → Option String
  | attr _ a => some a.value
  | text e => some (e.text?.getD "")
  | geometry _ => none

def shape? : Item → Option Element
  | geometry e => some e
  | _ => none

/-- The item is of the kind that the last step of a key says. -/
def Fits (last : Key.Step) : Item → Prop
  | attr _ _ => ∃ name, last = .attr name
  | text _ => last = .text
  | geometry _ => last = .geometry

/-- The item is a geometry that does not decode. -/
def Undecodable (codec : Geometry.Codec) (i : Item) : Prop :=
  ∃ e, i.shape? = some e ∧ codec e = none

end Item

/-- What the column of a field holds of an item. -/
def Field.value? (codec : Geometry.Codec) (i : Item) : Field → Option Value
  | .column c => i.text?.map c.type.read
  | .geometry _ => (i.shape?.bind codec).map fun (wkt, srid) => .geometry wkt srid
  | _ => none

theorem Field.Fits.value? {codec : Geometry.Codec} {last : Key.Step} {f : Field} {i : Item}
    (hf : f.Fits last) (hi : i.Fits last) :
    i.Undecodable codec ∨ (f.value? codec i).isSome = true := by
  cases f with
  | backLink b => exact hf.elim
  | link l =>
    obtain ⟨name, first, rfl⟩ := hf
    cases i with
    | attr e a =>
      obtain ⟨_, h⟩ := hi
      cases h
    | text e => cases hi
    | geometry e => cases hi
  | column c =>
    cases i with
    | attr e a => exact Or.inr rfl
    | text e => exact Or.inr rfl
    | geometry e =>
      obtain rfl : last = .geometry := hi
      rcases hf with h | ⟨_, h⟩ <;> cases h
  | geometry g =>
    obtain rfl : last = .geometry := hf
    cases i with
    | attr e a =>
      obtain ⟨_, h⟩ := hi
      cases h
    | text e => cases hi
    | geometry e =>
      cases h : codec e with
      | none => exact Or.inl ⟨e, rfl, h⟩
      | some shape => exact Or.inr (by simp [Field.value?, Item.shape?, h])

namespace Layout

/-- The items of an element that a last step leads to. -/
def itemsOf (l : Layout) (last : Key.Step) (e : Element) : List Item :=
  match last with
  | .text => [.text e]
  | .attr name => (e.attributes.filter (·.name.localName == name)).map (.attr e)
  | .geometry => (e.children.filter (isGeometryAt l)).map .geometry
  | .tag _ _ => []

/-- The items that a key leads to, in the order of the document. -/
def itemsAt (l : Layout) (key : String) (e : Element) : List Item :=
  match lastStep? key with
  | some (tags, last) => (descend l false tags [e]).flatMap (itemsOf l last)
  | none => []

section Select

variable {l : Layout} {e : Element} {key : String}

theorem itemsAt_eq {before : List Key.Step} {last : Key.Step}
    (h : Key.steps key = before ++ [last]) :
    itemsAt l key e = (descend l false before [e]).flatMap (itemsOf l last) := by
  unfold itemsAt
  rw [lastStep?_eq_some_iff.2 h]

theorem itemsAt_single {last : Key.Step} (h : Key.steps key = [last]) :
    itemsAt l key e = itemsOf l last e := by
  have hsteps : Key.steps key = [] ++ [last] := h
  rw [itemsAt_eq hsteps, descend, List.flatMap_singleton]

/-- What a key leads to at a part of a row, the key behind the step to the part leads to as well. -/
theorem itemsAt_under {d : Element} {step : String} (hstep : Key.Plain step)
    (hd : d ∈ stepFrom l false false step e) :
    itemsAt l key d ⊆ itemsAt l (Key.under step key) e := by
  intro i hi
  unfold itemsAt at hi
  split at hi
  · rename_i tags last hlast
    have hsteps : Key.steps (Key.under step key) = .tag step false :: tags ++ [last] := by
      rw [Key.steps_under hstep, lastStep?_eq_some_iff.1 hlast]
      rfl
    obtain ⟨y, hy, hi⟩ := List.mem_flatMap.1 hi
    rw [itemsAt_eq hsteps]
    exact List.mem_flatMap.2 ⟨y, descend_of_step hd hy, hi⟩
  · cases hi

theorem attribute?_eq (l : Layout) (e : Element) (name : String) :
    e.attribute? name = (itemsOf l (.attr name) e).head?.bind Item.text? := by
  rw [itemsOf, List.head?_map, List.head?_filter]
  unfold attribute?
  cases e.attributes.find? (·.name.localName == name) <;> rfl

theorem findSome?_attribute (es : List Element) (name : String) :
    es.findSome? (·.attribute? name) =
      (es.flatMap (itemsOf l (.attr name))).head?.bind Item.text? := by
  induction es with
  | nil => rfl
  | cons e es ih =>
    rw [List.findSome?_cons, List.flatMap_cons, List.head?_append, ih, attribute?_eq l e name]
    cases h : (itemsOf l (.attr name) e).head? with
    | none => rfl
    | some i =>
      obtain ⟨a, -, rfl⟩ := List.mem_map.1 (List.mem_of_head? h)
      rfl

theorem find?_geometry (es : List Element) :
    (es.flatMap (·.children)).find? (isGeometryAt l) =
      (es.flatMap (itemsOf l .geometry)).head?.bind Item.shape? := by
  have heq : es.flatMap (itemsOf l .geometry) =
      ((es.flatMap (·.children)).filter (isGeometryAt l)).map .geometry := by
    rw [List.filter_flatMap, List.map_flatMap]
    rfl
  rw [heq, List.head?_map, List.head?_filter]
  cases (es.flatMap (·.children)).find? (isGeometryAt l) <;> rfl

theorem head?_bind_eq_none {α β : Type} {g : α → Option β} {is : List α}
    (h : ∀ i ∈ is, g i = none) : is.head?.bind g = none := by
  cases is with
  | nil => rfl
  | cons i is => exact h i List.mem_cons_self

/-- The text that is read is that of the first item. -/
theorem selectText?_eq (l : Layout) (key : String) (e : Element) :
    l.selectText? key e = (itemsAt l key e).head?.bind Item.text? := by
  unfold selectText? itemsAt
  cases lastStep? key with
  | none => rfl
  | some step =>
    obtain ⟨tags, last⟩ := step
    show _ = ((descend l false tags [e]).flatMap (itemsOf l last)).head?.bind Item.text?
    cases last with
    | attr name => exact findSome?_attribute _ name
    | text =>
      show (descend l false tags [e]).head?.map _ = _
      cases descend l false tags [e] <;> rfl
    | tag name first =>
      refine (head?_bind_eq_none fun i hi => ?_).symm
      obtain ⟨y, -, hi⟩ := List.mem_flatMap.1 hi
      cases hi
    | geometry =>
      refine (head?_bind_eq_none fun i hi => ?_).symm
      obtain ⟨y, -, hi⟩ := List.mem_flatMap.1 hi
      obtain ⟨c, -, rfl⟩ := List.mem_map.1 hi
      rfl

/-- The geometry that is read is the first one. -/
theorem selectShape?_eq (l : Layout) (key : String) (e : Element) :
    l.selectShape? key e = (itemsAt l key e).head?.bind Item.shape? := by
  unfold selectShape? itemsAt
  cases lastStep? key with
  | none => rfl
  | some step =>
    obtain ⟨tags, last⟩ := step
    show _ = ((descend l false tags [e]).flatMap (itemsOf l last)).head?.bind Item.shape?
    cases last with
    | geometry => exact find?_geometry _
    | tag name first =>
      refine (head?_bind_eq_none fun i hi => ?_).symm
      obtain ⟨y, -, hi⟩ := List.mem_flatMap.1 hi
      cases hi
    | text =>
      refine (head?_bind_eq_none fun i hi => ?_).symm
      obtain ⟨y, -, hi⟩ := List.mem_flatMap.1 hi
      rw [List.mem_singleton.1 hi]
      rfl
    | attr name =>
      refine (head?_bind_eq_none fun i hi => ?_).symm
      obtain ⟨y, -, hi⟩ := List.mem_flatMap.1 hi
      obtain ⟨a, -, rfl⟩ := List.mem_map.1 hi
      rfl

end Select

/-! ### The items of a row -/

/-- The item is to be kept in the row of the element: an attribute that is no note to the reader, a
text that is simple content, or a geometry, at the element or at a part of its row. The key is that of
the way there. -/
inductive Holds (typing : Typing) (l : Layout) : Element → String → Item → Prop
  | attr {e : Element} {a : Attribute} (ha : a ∈ e.attributes)
      (hxsi : a.name.ns? ≠ some xsiNamespace) :
      Holds typing l e ("@" ++ a.name.localName) (.attr e a)
  | text {e : Element} {t : NodeTyping} (ht : typing.get? e.id = some t)
      (hcontent : t.content?.isSome = true) (htext : e.text?.isSome = true) :
      Holds typing l e Key.text (.text e)
  | geometry {e c : Element} (hc : c ∈ e.children) (hl : l.get? c.id = some .geometry) :
      Holds typing l e Key.geometry (.geometry c)
  | part {e c : Element} {key : String} {i : Item} (hc : c ∈ e.children)
      (hl : l.get? c.id = some .inlined) (hi : Holds typing l c key i) :
      Holds typing l e (Key.under (keyStep e c) key) i

section Holds

variable {c : Catalog} {s : Setting} {l : Layout} {e : Element} {key : String} {i : Item}

/-- The key of an item leads to it, and says of which kind it is. -/
theorem Holds.mem_itemsAt (h : Holds s.typing l e key i) (hplain : PlainNames e) :
    i ∈ itemsAt l key e ∧ ∃ before last, Key.steps key = before ++ [last] ∧ i.Fits last := by
  induction h with
  | @attr e a ha _ =>
    have hsteps := Key.steps_attribute (hplain.attributes e (mem_descendants_self e) a ha)
    refine ⟨?_, [], _, hsteps, _, rfl⟩
    rw [itemsAt_single hsteps]
    exact List.mem_map_of_mem (List.mem_filter.2 ⟨ha, by simp⟩)
  | @text e t _ _ _ =>
    refine ⟨?_, [], _, Key.steps_text, rfl⟩
    rw [itemsAt_single Key.steps_text]
    exact List.mem_singleton_self _
  | @geometry e d hd hl =>
    refine ⟨?_, [], _, Key.steps_geometry, rfl⟩
    rw [itemsAt_single Key.steps_geometry]
    exact List.mem_map_of_mem (List.mem_filter.2 ⟨hd, by simp [isGeometryAt, hl]⟩)
  | @part e d key i hd hl _ ih =>
    obtain ⟨hmem, before, last, hlast, hfits⟩ := ih (hplain.child hd)
    have hname := hplain.elements d (mem_inner_of_mem_children hd)
    have hstep := plain_keyStep e hname
    refine ⟨itemsAt_under hstep ?_ hmem, .tag (keyStep e d) false :: before, last, ?_, hfits⟩
    · exact mem_stepFrom_keyStep hd hname (admits_false_iff.2 (Or.inl hl))
    · rw [Key.steps_under hstep, hlast]
      rfl

/-- The row of an element has a field for each item, under its key. -/
theorem Holds.carries (h : Holds s.typing l e key i) (ht : TypedBy c s e)
    (hrow : ∃ t, typingOf s e = .ok t ∧ t.isGeometry = false)
    (hplaced : ∀ y ∈ e.inner, ∀ p, l.get? y.id = some p → ∃ t, typingOf s y = .ok t ∧
      (p = .inlined → t.isGeometry = false)) :
    ∃ f, Carries s l e f ∧ f.key = key := by
  induction h with
  | @attr e a ha hxsi =>
    obtain ⟨t, htyping, hgeometry⟩ := hrow
    obtain ⟨found, hfound⟩ := ht e (mem_descendants_self e) t htyping
    obtain ⟨b, hb⟩ := OrderedMap.mem_keys_iff.1 (Typing.mem_attributes hfound hgeometry ha hxsi)
    have hmem := OrderedMap.mem_entries_of_get? hb
    refine ⟨_, .own htyping (f := .column ⟨"@" ++ a.name.localName, SqlType.ofKind b.kind,
      !b.required, false⟩) ?_, rfl⟩
    unfold ownFields
    have hattribute := List.mem_map_of_mem (f := fun (x : String × AttributeTyping) =>
      Field.column ⟨"@" ++ x.1, SqlType.ofKind x.2.kind, !x.2.required, false⟩) hmem
    split
    · exact List.mem_append_left _ hattribute
    · exact hattribute
  | @text e t htyping hcontent htext =>
    obtain ⟨kind, hkind⟩ := Option.isSome_iff_exists.1 hcontent
    obtain ⟨text, htext⟩ := Option.isSome_iff_exists.1 htext
    refine ⟨_, .own (typingOf_eq_ok_iff.2 htyping) (f := .column ⟨Key.text, SqlType.ofKind kind,
      false, false⟩) ?_, rfl⟩
    unfold ownFields
    rw [hkind, htext]
    exact List.mem_append_right _ List.mem_cons_self
  | @geometry e d hd hl =>
    obtain ⟨t, htyping, -⟩ := hplaced d (mem_inner_of_mem_children hd) _ hl
    exact ⟨_, .geometry hd hl htyping, rfl⟩
  | @part e d key i hd hl _ ih =>
    obtain ⟨t, htyping, hgeometry⟩ := hplaced d (mem_inner_of_mem_children hd) _ hl
    obtain ⟨f, hf, rfl⟩ := ih (ht.child hd) ⟨t, htyping, hgeometry rfl⟩ fun y hy =>
      hplaced y (mem_inner_of_inner hy (mem_descendants_iff.2 (Or.inr (mem_inner_of_mem_children hd))))
    exact ⟨_, .part hd (Or.inl hl) htyping hf, hf.key_under _ _⟩

end Holds

end Layout

end FeatureTables
