import FeatureTables.Proofs.Layout.Sources

/-!
What it takes that a key is read where it was written. A step carries the label of a namespace where the
step was made, among siblings of one name, but it is read among other siblings. So an item that a key leads
to has this key itself exactly if each step on the way is labelled as it would be there (`ownKey_iff`).
-/

namespace FeatureTables

open Text Xml Element

namespace Key

/-- The last step of a key of a value. -/
inductive Ending : String → Step → Prop
  | attr {name : String} (hslash : '/' ∉ name.toList) : Ending ("@" ++ name) (.attr name)
  | text : Ending text .text
  | geometry : Ending geometry .geometry

theorem Ending.steps {last : String} {step : Step} (h : Ending last step) : steps last = [step] := by
  cases h with
  | attr hslash => exact steps_attribute hslash
  | text => exact steps_text
  | geometry => exact steps_geometry

theorem path_concat_cons (name : String) (names : List String) (last : String) :
    path (name :: names ++ [last]) = under name (path (names ++ [last])) :=
  path_cons (by simp)

theorem steps_path_concat {names : List String} (h : ∀ name ∈ names, Plain name) {last : String}
    {step : Step} (hlast : Ending last step) :
    steps (path (names ++ [last])) = names.map (.tag · false) ++ [step] := by
  induction names with
  | nil => exact hlast.steps
  | cons name names ih =>
    obtain ⟨hname, hnames⟩ := List.forall_mem_cons.1 h
    rw [path_concat_cons, steps_under hname, ih hnames]
    rfl

end Key

namespace Layout

/-! ### Labels -/

/-- The step to a child has a label: a sibling of another namespace has the name of the child, whose own
namespace has a label. -/
def IsLabelled (parent child : Element) : Prop :=
  (child.ns?.bind namespaceLabel?).isSome = true ∧
    ∃ other ∈ parent.children, other.localName = child.localName ∧ other.ns? ≠ child.ns?

theorem keyStep_of_not_isLabelled {parent child : Element} (h : ¬ IsLabelled parent child) :
    keyStep parent child = child.localName := by
  unfold keyStep
  cases hlabel : child.ns?.bind namespaceLabel? with
  | none => rfl
  | some label =>
    dsimp only
    rw [if_neg]
    intro hany
    obtain ⟨other, hother, hclash⟩ := List.any_eq_true.1 hany
    have hclash : other.localName = child.localName ∧ other.ns? ≠ child.ns? := by
      simpa using hclash
    exact h ⟨by rw [hlabel]; rfl, other, hother, hclash⟩

theorem keyStep_of_isLabelled {parent child : Element} (h : IsLabelled parent child) :
    ∃ label, child.ns?.bind namespaceLabel? = some label ∧
      keyStep parent child = label ++ String.singleton ':' ++ child.localName := by
  obtain ⟨hsome, other, hother, hname, hns⟩ := h
  obtain ⟨label, hlabel⟩ := Option.isSome_iff_exists.1 hsome
  refine ⟨label, hlabel, ?_⟩
  have hany : (parent.children.any fun other =>
      other.localName == child.localName && other.ns? != child.ns?) = true :=
    List.any_eq_true.2 ⟨other, hother, by simp [hname, hns]⟩
  unfold keyStep
  rw [hlabel]
  dsimp only
  rw [if_pos hany]
  rfl

/-- A name that an element has is its local name, behind the label of its namespace if there is a
colon. -/
theorem eq_of_hasTag {e : Element} {name : String} (h : hasTag e name = true) :
    ':' ∉ name.toList ∧ name = e.localName ∨ ':' ∈ name.toList ∧
      ∃ label, e.ns?.bind namespaceLabel? = some label ∧
        name = label ++ String.singleton ':' ++ e.localName := by
  by_cases hcolon : ':' ∈ name.toList
  · obtain ⟨before, after, hlist, hbefore⟩ := List.eq_append_cons_of_mem hcolon
    have hname : name = String.ofList before ++ String.singleton ':' ++ String.ofList after := by
      rw [← String.toList_inj, hlist]
      simp
    rw [hasTag, hname, splitOnce_append (by rwa [String.toList_ofList])] at h
    obtain ⟨hlocal, hlabel⟩ : e.localName = String.ofList after ∧
        e.ns?.bind namespaceLabel? = some (String.ofList before) := by
      simpa using h
    exact Or.inr ⟨hcolon, _, hlabel, hlocal ▸ hname⟩
  · rw [hasTag, splitOnce_of_not_mem hcolon] at h
    exact Or.inl ⟨hcolon, (beq_iff_eq.1 h).symm⟩

theorem keyStep_eq_iff {parent child : Element} (hplain : PlainName child.localName) {name : String}
    (h : hasTag child name = true) :
    keyStep parent child = name ↔ (':' ∈ name.toList ↔ IsLabelled parent child) := by
  have hname : ':' ∉ child.localName.toList := fun hmem => hplain.chars _ hmem (by decide)
  by_cases hlabelled : IsLabelled parent child
  · obtain ⟨label, hlabel, hstep⟩ := keyStep_of_isLabelled hlabelled
    rw [hstep]
    rcases eq_of_hasTag h with ⟨hcolon, -⟩ | ⟨hcolon, label', hlabel', rfl⟩
    · refine iff_of_false (fun heq => hcolon ?_) fun hiff => hcolon (hiff.2 hlabelled)
      rw [← heq]
      simp
    · obtain rfl := Option.some.inj (hlabel.symm.trans hlabel')
      exact iff_of_true rfl (iff_of_true hcolon hlabelled)
  · rw [keyStep_of_not_isLabelled hlabelled]
    rcases eq_of_hasTag h with ⟨hcolon, rfl⟩ | ⟨hcolon, -⟩
    · exact iff_of_true rfl (iff_of_false hcolon hlabelled)
    · refine iff_of_false (fun heq => hname ?_) fun hiff => hlabelled (hiff.1 hcolon)
      rw [heq]
      exact hcolon

/-! ### Ways that are read as they were written -/

/-- The key is that of the item for the element: the steps to where the item stands, then what it is. A
note to the reader of the document has no key. -/
inductive OwnKey (l : Layout) : Element → String → Item → Prop
  | attr {e : Element} {a : Attribute} (ha : a ∈ e.attributes)
      (hxsi : a.name.ns? ≠ some xsiNamespace) : OwnKey l e ("@" ++ a.name.localName) (.attr e a)
  | text {e : Element} : OwnKey l e Key.text (.text e)
  | geometry {e c : Element} (hc : c ∈ e.children) (hl : l.get? c.id = some .geometry) :
      OwnKey l e Key.geometry (.geometry c)
  | part {e c : Element} {key : String} {i : Item} (hc : c ∈ e.children) (hl : Passes l c)
      (hi : OwnKey l c key i) : OwnKey l e (Key.under (keyStep e c) key) i

/-- Steps lead from one element to another one, and each is labelled as the builder labels it there. -/
inductive Straight (l : Layout) : Element → List String → Element → Prop
  | here {e : Element} : Straight l e [] e
  | part {e c y : Element} {name : String} {names : List String} (hc : c ∈ e.children)
      (hl : Passes l c) (htag : hasTag c name = true)
      (hlabel : ':' ∈ name.toList ↔ IsLabelled e c) (hy : Straight l c names y) :
      Straight l e (name :: names) y

end Layout

/-- An attribute that is a note to the reader of the document. -/
def Item.IsNote : Item → Prop
  | attr _ a => a.name.ns? = some xsiNamespace
  | _ => False

namespace Layout

/-- The item is at the end of a key whose steps are labelled as they are there. -/
def ReadStraight (l : Layout) (e : Element) (key : String) (i : Item) : Prop :=
  ¬ i.IsNote ∧ ∃ names step y, Key.steps key = names.map (.tag · false) ++ [step] ∧
    Straight l e names y ∧ i ∈ itemsOf l step y

section OwnKey

variable {l : Layout} {e y : Element} {names : List String} {key last : String} {step : Key.Step}
  {i : Item}

theorem Straight.mem_descendants (h : Straight l e names y) : y ∈ e.descendants := by
  induction h with
  | here => exact mem_descendants_self _
  | part hc _ _ _ _ ih =>
    exact mem_descendants_trans ih (mem_descendants_iff.2 (Or.inr (mem_inner_of_mem_children hc)))

theorem ownKey_of_mem_itemsOf (hlast : Key.Ending last step) (hi : i ∈ itemsOf l step e)
    (hnote : ¬ i.IsNote) : OwnKey l e last i := by
  cases hlast with
  | attr hslash =>
    obtain ⟨a, ha, rfl⟩ := List.mem_map.1 hi
    obtain ⟨hmem, hname⟩ := List.mem_filter.1 ha
    rw [← beq_iff_eq.1 hname]
    exact .attr hmem hnote
  | text =>
    rw [List.mem_singleton.1 hi]
    exact .text
  | geometry =>
    obtain ⟨c, hc, rfl⟩ := List.mem_map.1 hi
    obtain ⟨hmem, hplaced⟩ := List.mem_filter.1 hc
    exact .geometry hmem (by simpa [isGeometryAt] using hplaced)

/-- An item has the key of a straight way to it. -/
theorem Straight.ownKey (h : Straight l e names y) (hplain : PlainNames e)
    (hlast : Key.Ending last step) (hi : i ∈ itemsOf l step y) (hnote : ¬ i.IsNote) :
    OwnKey l e (Key.path (names ++ [last])) i := by
  induction h with
  | here => exact ownKey_of_mem_itemsOf hlast hi hnote
  | @part e c y name names hc hl htag hlabel _ ih =>
    have hstep : keyStep e c = name :=
      (keyStep_eq_iff (hplain.elements c (mem_inner_of_mem_children hc)) htag).2 hlabel
    rw [Key.path_concat_cons, ← hstep]
    exact .part hc hl (ih (hplain.child hc) hi)

/-- The way of a key that an item has is straight. -/
theorem OwnKey.readStraight (h : OwnKey l e key i) (hplain : PlainNames e) : ReadStraight l e key i := by
  induction h with
  | @attr e a ha hxsi =>
    refine ⟨hxsi, [], _, e, Key.steps_attribute (hplain.attributes e (mem_descendants_self e) a ha),
      .here, ?_⟩
    exact List.mem_map_of_mem (List.mem_filter.2 ⟨ha, by simp⟩)
  | @text e => exact ⟨id, [], _, e, Key.steps_text, .here, List.mem_singleton_self _⟩
  | @geometry e c hc hl =>
    refine ⟨id, [], _, e, Key.steps_geometry, .here, ?_⟩
    exact List.mem_map_of_mem (List.mem_filter.2 ⟨hc, by simp [isGeometryAt, hl]⟩)
  | @part e c key i hc hl _ ih =>
    have hname := hplain.elements c (mem_inner_of_mem_children hc)
    obtain ⟨hnote, names, step, y, hsteps, hy, hi⟩ := ih (hplain.child hc)
    refine ⟨hnote, keyStep e c :: names, step, y, ?_, .part hc hl (hasTag_keyStep e hname) ?_ hy, hi⟩
    · rw [Key.steps_under (plain_keyStep e hname), hsteps]
      rfl
    · exact (keyStep_eq_iff hname (hasTag_keyStep e hname)).1 rfl

/-- A text has its key by the element itself, or by a child. -/
theorem OwnKey.text_cases (h : OwnKey l e key (.text y)) : y = e ∧ key = Key.text ∨
    ∃ c ∈ e.children, ∃ below, key = Key.under (keyStep e c) below ∧ OwnKey l c below (.text y) := by
  cases h with
  | text => exact Or.inl ⟨rfl, rfl⟩
  | part hc _ hi => exact Or.inr ⟨_, hc, _, rfl, hi⟩

/-- An item at the end of a key has this key exactly if the way there is straight. -/
theorem ownKey_iff (hplain : PlainNames e) (hnames : ∀ name ∈ names, Key.Plain name)
    (hlast : Key.Ending last step) (hkey : key = Key.path (names ++ [last])) :
    OwnKey l e key i ↔ ReadStraight l e key i := by
  refine ⟨fun h => h.readStraight hplain, ?_⟩
  rintro ⟨hnote, names', step', y, hsteps, hy, hi⟩
  rw [hkey, Key.steps_path_concat hnames hlast] at hsteps
  obtain ⟨htags, hstep⟩ := List.append_inj' hsteps rfl
  obtain rfl : names = names' := by
    have hinj : Function.Injective fun name => Key.Step.tag name false :=
      fun a b h => (Key.Step.tag.inj h).1
    exact hinj.list_map htags
  obtain rfl : step = step' := by simpa using hstep
  rw [hkey]
  exact hy.ownKey hplain hlast hi hnote

end OwnKey

/-! ### Keys of fields -/

/-- The steps of the key of a value that an element brings are those to one of its parts. -/
theorem Carries.key_eq {c : Schema.Catalog} {s : Setting} {l : Layout} {e : Element} {f : Field}
    (h : Carries s l e f) (ht : TypedBy c s e) (hplain : PlainNames e)
    (hlink : ∀ link, f ≠ .link link) : ∃ names last step, f.key = Key.path (names ++ [last]) ∧
      Key.Ending last step ∧
      (∀ name ∈ names, ∃ y ∈ e.descendants, ∃ c ∈ y.children, name = keyStep y c) ∧
      ∀ name, step = .attr name → ∃ y ∈ e.descendants, ∃ a ∈ y.attributes,
        a.name.localName = name ∧ a.name.ns? ≠ some xsiNamespace := by
  induction h with
  | @own e t f hty hf =>
    rcases mem_ownFields hf with ⟨name, a, ha, rfl⟩ | ⟨kind, rfl⟩
    · obtain ⟨found, hfound⟩ := ht e (mem_descendants_self e) t hty
      obtain ⟨rfl, ⟨x, hx, hxa⟩, -⟩ := Typing.attribute_origin hfound ha
      have hslash := hplain.attributes e (mem_descendants_self e) x hx
      refine ⟨[], _, _, rfl, .attr (hxa ▸ hslash), fun name hname => (by cases hname), ?_⟩
      rintro name heq
      obtain rfl := Key.Step.attr.inj heq
      exact ⟨e, mem_descendants_self e, x, hx, hxa ▸ rfl, hxa ▸ Typing.attribute_ns hfound ha⟩
    · exact ⟨[], _, _, rfl, .text, fun name hname => (by cases hname), fun name h => by cases h⟩
  | @geometry e d t _ _ _ =>
    exact ⟨[], _, _, rfl, .geometry, fun name hname => (by cases hname), fun name h => by cases h⟩
  | @part e d t f hd _ _ hf ih =>
    have hbelow : ∀ link, f ≠ .link link := by
      rintro link rfl
      exact hlink _ rfl
    obtain ⟨names, last, step, hkey, hlast, hnames, hattr⟩ := ih (ht.child hd) (hplain.child hd) hbelow
    have hchild : ∀ y ∈ d.descendants, y ∈ e.descendants := fun y hy => mem_descendants_trans hy
      (mem_descendants_iff.2 (Or.inr (mem_inner_of_mem_children hd)))
    refine ⟨keyStep e d :: names, last, step, ?_, hlast, ?_, ?_⟩
    · rw [hf.key_under, hkey, Key.path_concat_cons]
    · refine List.forall_mem_cons.2 ⟨⟨e, mem_descendants_self e, d, hd, rfl⟩, fun name hname => ?_⟩
      obtain ⟨y, hy, hc⟩ := hnames name hname
      exact ⟨y, hchild y hy, hc⟩
    · intro name hname
      obtain ⟨y, hy, ha⟩ := hattr name hname
      exact ⟨y, hchild y hy, ha⟩
  | row => exact absurd rfl (hlink _)

end Layout

/-! ### Documents without ambiguity -/

/-- No name stands for two things: siblings of one name are of one namespace, and no note to the reader of
the document is named like an attribute. -/
structure Unambiguous (root : Element) : Prop where
  siblings : ∀ y ∈ root.descendants, ∀ c ∈ y.children, ∀ other ∈ y.children,
    other.localName = c.localName → other.ns? = c.ns?
  notes : ∀ y ∈ root.descendants, ∀ a ∈ y.attributes, a.name.ns? = some xsiNamespace →
    ∀ z ∈ root.descendants, ∀ b ∈ z.attributes, b.name.localName = a.name.localName →
      b.name.ns? = some xsiNamespace

instance (root : Element) : Decidable (Unambiguous root) :=
  decidable_of_iff ((∀ y ∈ root.descendants, ∀ c ∈ y.children, ∀ other ∈ y.children,
      other.localName = c.localName → other.ns? = c.ns?) ∧
    ∀ y ∈ root.descendants, ∀ a ∈ y.attributes, a.name.ns? = some xsiNamespace →
      ∀ z ∈ root.descendants, ∀ b ∈ z.attributes, b.name.localName = a.name.localName →
        b.name.ns? = some xsiNamespace) ⟨fun h => ⟨h.1, h.2⟩, fun h => ⟨h.siblings, h.notes⟩⟩

namespace Layout

theorem mem_descend_iff {l : Layout} {rows : Bool} {tags : List Key.Step} {es : List Element}
    {y : Element} : y ∈ descend l rows tags es ↔ ∃ e ∈ es, y ∈ descend l rows tags [e] := by
  induction tags generalizing es with
  | nil => simp [descend]
  | cons tag tags ih =>
    cases tag with
    | tag name first =>
      simp only [descend_tag, List.flatMap_singleton]
      rw [ih]
      simp only [List.mem_flatMap]
      constructor
      · rintro ⟨c, ⟨e, he, hc⟩, hy⟩
        exact ⟨e, he, ih.2 ⟨c, hc, hy⟩⟩
      · rintro ⟨e, he, hy⟩
        obtain ⟨c, hc, hy⟩ := ih.1 hy
        exact ⟨c, ⟨e, he, hc⟩, hy⟩
    | attr name => simp [descend]
    | text => simp [descend]
    | geometry => simp [descend]

end Layout

section Unambiguous

variable {root e : Element} {l : Layout}

open Layout

theorem Unambiguous.not_isLabelled (h : Unambiguous root) (he : e ∈ root.descendants) {c : Element}
    (hc : c ∈ e.children) : ¬ IsLabelled e c := by
  rintro ⟨-, other, hother, hname, hns⟩
  exact hns (h.siblings e he c hc other hother hname)

theorem Unambiguous.straight (h : Unambiguous root) (he : e ∈ root.descendants) {y : Element}
    {names : List String} (hnames : ∀ name ∈ names, ':' ∉ name.toList)
    (hy : y ∈ descend l false (names.map (.tag · false)) [e]) : Straight l e names y := by
  induction names generalizing e with
  | nil =>
    rw [List.mem_singleton.1 hy]
    exact .here
  | cons name names ih =>
    obtain ⟨hcolon, hnames⟩ := List.forall_mem_cons.1 hnames
    rw [List.map_cons, descend_tag, List.flatMap_singleton] at hy
    obtain ⟨c, hc, hyc⟩ := mem_descend_iff.1 hy
    obtain ⟨hchild, htag, hadmits⟩ := mem_stepFrom hc
    have hmem : c ∈ root.descendants := mem_descendants_trans
      (mem_descendants_iff.2 (Or.inr (mem_inner_of_mem_children hchild))) he
    exact .part hchild (admits_false_iff.1 hadmits) htag
      (iff_of_false hcolon (h.not_isLabelled he hchild)) (ih hmem hnames hyc)

/-- Where no name is ambiguous, an item that a key of the document leads to has this key. -/
theorem Unambiguous.readStraight (h : Unambiguous root) (hplain : PlainNames root)
    (he : e ∈ root.descendants) {names : List String} {key last : String} {step : Key.Step} {i : Item}
    (hkey : key = Key.path (names ++ [last])) (hlast : Key.Ending last step)
    (hnames : ∀ name ∈ names, ∃ y ∈ root.descendants, ∃ c ∈ y.children, name = keyStep y c)
    (hattr : ∀ name, step = .attr name → ∃ y ∈ root.descendants, ∃ a ∈ y.attributes,
      a.name.localName = name ∧ a.name.ns? ≠ some xsiNamespace)
    (hi : i ∈ itemsAt l key e) : ReadStraight l e key i := by
  have hstep : ∀ name ∈ names, Key.Plain name ∧ ':' ∉ name.toList := by
    intro name hname
    obtain ⟨y, hy, c, hc, rfl⟩ := hnames name hname
    have hplain := (hplain.of_mem hy).elements c (mem_inner_of_mem_children hc)
    refine ⟨plain_keyStep y hplain, ?_⟩
    rw [keyStep_of_not_isLabelled (h.not_isLabelled hy hc)]
    exact fun hmem => hplain.chars _ hmem (by decide)
  have hsteps := Key.steps_path_concat (fun name hname => (hstep name hname).1) hlast
  rw [← hkey] at hsteps
  rw [itemsAt_eq hsteps] at hi
  obtain ⟨y, hy, hi⟩ := List.mem_flatMap.1 hi
  have hy := h.straight he (fun name hname => (hstep name hname).2) hy
  refine ⟨fun hnote => ?_, names, step, y, hsteps, hy, hi⟩
  cases hlast with
  | text => exact (List.mem_singleton.1 hi ▸ hnote : (Item.text y).IsNote)
  | geometry =>
    obtain ⟨c, -, rfl⟩ := List.mem_map.1 hi
    exact hnote
  | attr hslash =>
    obtain ⟨a, ha, rfl⟩ := List.mem_map.1 hi
    obtain ⟨hmem, hname⟩ := List.mem_filter.1 ha
    obtain ⟨z, hz, b, hb, hbname, hbxsi⟩ := hattr _ rfl
    exact hbxsi (h.notes y (mem_descendants_trans hy.mem_descendants he) a hmem hnote z hz b hb
      (hbname.trans (beq_iff_eq.1 hname).symm))

end Unambiguous

end FeatureTables
