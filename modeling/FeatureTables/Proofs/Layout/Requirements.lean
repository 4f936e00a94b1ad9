import FeatureTables.Proofs.Layout.Sources
import FeatureTables.Proofs.Population.Failure

/-!
Why a required field of one row may find nothing at another row. A row brings a field that is required
only if the types on the way to it require each step (`requiresChild`, `gap_attribute`). Where the key
finds nothing at another row, the steps that both rows have lead to two elements of which the one lacks
what the type of the other requires, or has it where the key does not look (`Carries.partAt`).
-/

namespace FeatureTables.Layout

open Schema Xml Element

/-! ### Steps and what types say of them -/

/-- The steps, all of which are tags, lead from an element to another one, wherever they are placed. -/
inductive Reaches : Element → List Key.Step → Element → Prop
  | refl (e : Element) : Reaches e [] e
  | step {e c x : Element} {name : String} {first : Bool} {steps : List Key.Step}
      (hc : c ∈ e.children) (htag : hasTag c name = true) (h : Reaches c steps x) :
      Reaches e (.tag name first :: steps) x

/-- Elements of the type have a child of this name. -/
def RequiresChild (c : Catalog) (type : TypeDef) (name : QName) : Prop :=
  ∃ found, c.findChild? type name = .ok (some found) ∧ found.occurs.min ≠ 0

/-- Elements of the type have an attribute of this local name. -/
def RequiresAttribute (c : Catalog) (type : TypeDef) (name : String) : Prop :=
  ∃ uses q use, c.attributeUses type = .ok uses ∧ uses.get? q = some use ∧ use.required = true ∧
    q.localName = name

/-- The type requires a step that the element does not have. -/
def Lacks (c : Catalog) (typing : Typing) (type : TypeDef) (e : Element) : Key.Step → Prop
  | .tag name _ => (∃ d, hasTag d name = true ∧ RequiresChild c type d.name) ∧
      ∀ x ∈ e.children, hasTag x name = false
  | .attr name => RequiresAttribute c type name ∧ ∀ a ∈ e.attributes, a.name.localName ≠ name
  | .geometry => ∃ (d : Element) (t : NodeTyping), typing.get? d.id = some t ∧ t.isGeometry = true ∧
      RequiresChild c type d.name ∧ ∀ x ∈ e.children, x.name ≠ d.name
  | .text => False

/-- The elements are placed in one way: as rows, as parts of rows or as geometries. -/
def SameKind (p q : Option Placement) : Prop :=
  (∀ rows, admits rows p = admits rows q) ∧ (p = some .geometry ↔ q = some .geometry)

/-- Both elements are what the step leads to: by its tag, or as geometries of one name. -/
def OnStep (c d : Element) : Key.Step → Prop
  | .tag name _ => hasTag c name = true ∧ hasTag d name = true
  | .geometry => c.name = d.name
  | _ => False

/-- The first element has children for a step to a child of the second one, but they are all placed in
another way. -/
def Diverges (l : Layout) (e e' : Element) (step : Key.Step) : Prop :=
  ∃ d ∈ e'.children, (∃ c ∈ e.children, OnStep c d step) ∧
    ∀ c ∈ e.children, OnStep c d step → ¬ SameKind (l.get? c.id) (l.get? d.id)

/-! ### What keys find -/

section Finds

variable {l : Layout} {e c : Element} {f : Field} {step key : String}

theorem selectNodes_under (hstep : Key.Plain step) (hne : Key.steps key ≠ [])
    (hc : c ∈ stepFrom l false false step e) :
    selectNodes l key c ⊆ selectNodes l (Key.under step key) e := by
  have hrows : (true && (Key.steps key).isEmpty) = false := by simpa using hne
  unfold selectNodes
  rw [Key.steps_under hstep]
  refine descend_of_step ?_
  rw [hrows]
  exact hc

theorem isSome_head?_bind {α β : Type} {g : α → Option β} {is : List α}
    (h : ∀ i ∈ is, (g i).isSome = true) : (is.head?.bind g).isSome = true ↔ is ≠ [] := by
  cases is with
  | nil => simp
  | cons i is => simpa using h i List.mem_cons_self

theorem finds_column_iff {k : Column} {before : List Key.Step} {last : Key.Step}
    (hfits : (Field.column k).Fits last) (hsteps : Key.steps k.key = before ++ [last]) :
    l.Finds e (.column k) ↔ itemsAt l k.key e ≠ [] := by
  show (l.selectText? k.key e).isSome = true ↔ _
  rw [selectText?_eq]
  refine isSome_head?_bind fun i hi => ?_
  rw [itemsAt_eq hsteps] at hi
  obtain ⟨y, -, hi⟩ := List.mem_flatMap.1 hi
  rcases hfits with rfl | ⟨name, rfl⟩
  · rw [List.mem_singleton.1 hi]
    rfl
  · obtain ⟨a, -, rfl⟩ := List.mem_map.1 hi
    rfl

theorem finds_geometry_iff {k : GeometryColumn} {before : List Key.Step}
    (hsteps : Key.steps k.key = before ++ [.geometry]) :
    l.Finds e (.geometry k) ↔ itemsAt l k.key e ≠ [] := by
  show (l.selectShape? k.key e).isSome = true ↔ _
  rw [selectShape?_eq]
  refine isSome_head?_bind fun i hi => ?_
  rw [itemsAt_eq hsteps] at hi
  obtain ⟨y, -, hi⟩ := List.mem_flatMap.1 hi
  obtain ⟨d, -, rfl⟩ := List.mem_map.1 hi
  rfl

theorem finds_geometry_of_child {k : GeometryColumn} (hkey : k.key = Key.geometry)
    (hc : c ∈ e.children) (hl : l.get? c.id = some .geometry) : l.Finds e (.geometry k) := by
  have hsteps : Key.steps k.key = [] ++ [.geometry] := hkey ▸ Key.steps_geometry
  refine (finds_geometry_iff hsteps).2 ?_
  rw [itemsAt_single hsteps]
  exact List.ne_nil_of_mem (List.mem_map_of_mem (List.mem_filter.2
    ⟨hc, by simp [isGeometryAt, hl]⟩))

theorem Finds.grows {g : Field} (h : l.Finds e f) (hfg : f.Grows g) : l.Finds e g := by
  cases hfg with
  | backLink b => exact h
  | column hkey => simpa only [Finds, hkey] using h
  | link hkey => simpa only [Finds, hkey] using h
  | geometry hkey => simpa only [Finds, hkey] using h

/-- What a field finds at a part of a row, it finds one step further up as well. -/
theorem finds_under {before : List Key.Step} {last : Key.Step} (hfits : f.Fits last)
    (hsteps : Key.steps f.key = before ++ [last]) (hstep : Key.Plain step)
    (hc : c ∈ stepFrom l false false step e) (optional : Bool) (h : l.Finds c f) :
    l.Finds e (f.under step optional) := by
  have hunder : Key.steps (Key.under step f.key) = .tag step false :: before ++ [last] := by
    rw [Key.steps_under hstep, hsteps]
    rfl
  cases f with
  | backLink b => exact hfits.elim
  | column k =>
    refine (finds_column_iff (hfits.under step optional) hunder).2 fun hnil => ?_
    refine (finds_column_iff hfits hsteps).1 h (List.eq_nil_iff_forall_not_mem.2 fun i hi => ?_)
    exact List.not_mem_nil (hnil ▸ itemsAt_under hstep hc hi)
  | geometry k =>
    obtain rfl : last = .geometry := hfits
    let above : GeometryColumn :=
      { k with key := Key.under step k.key, optional := k.optional || optional }
    have habove : Key.steps above.key = (.tag step false :: before) ++ [.geometry] := hunder
    refine (finds_geometry_iff habove).2 fun hnil => ?_
    refine (finds_geometry_iff hsteps).1 h (List.eq_nil_iff_forall_not_mem.2 fun i hi => ?_)
    exact List.not_mem_nil (hnil ▸ itemsAt_under hstep hc hi)
  | link k =>
    intro hnil
    refine h (List.eq_nil_iff_forall_not_mem.2 fun x hx => ?_)
    refine List.not_mem_nil (a := x) (hnil ▸ selectNodes_under hstep ?_ hc hx)
    rw [show Key.steps k.key = _ from hsteps]
    simp

end Finds

/-! ### Where two rows part -/

/-- An element lacks what the type of another one requires for a step, or has it placed in another
way. -/
def Gap (c : Catalog) (typing : Typing) (l : Layout) (e e' : Element) (step : Key.Step) : Prop :=
  (∃ t, typing.get? e'.id = some t ∧ Lacks c typing t.type e step) ∨ Diverges l e e' step

/-- The steps of a key lead from two elements to a gap between two others. -/
def PartAt (c : Catalog) (typing : Typing) (l : Layout) (x y : Element) (key : String) : Prop :=
  ∃ before step after e e', Key.steps key = before ++ step :: after ∧ Reaches x before e ∧
    Reaches y before e' ∧ (∃ t, typing.get? e.id = some t) ∧ Gap c typing l e e' step

section Gap

variable {c : Catalog} {s : Setting} {l : Layout} {e e' d : Element} {t : NodeTyping}

/-- A child that is not optional is required by the type of its parent. -/
theorem requiresChild (hbelow : Typing.TypedBelow c s.typing e') (hd : d ∈ e'.children)
    (ht : typingOf s d = .ok t) (hrequired : t.isOptional = false) :
    ∃ t', s.typing.get? e'.id = some t' ∧ RequiresChild c t'.type d.name := by
  obtain ⟨t', found, ht', hmatch, hnode⟩ := hbelow d hd t (typingOf_eq_ok_iff.1 ht)
  refine ⟨t', ht', found, ?_, ?_⟩
  · unfold Typing.childMatch at hmatch
    rw [bind_eq_ok_iff] at hmatch
    obtain ⟨found?, hfound, hmatch⟩ := hmatch
    cases found? with
    | none => cases hmatch
    | some found' =>
      obtain rfl := Except.ok.inj hmatch
      exact hfound
  · rw [← (Typing.nodeTyping_assembled hnode).occurs]
    intro hmin
    simp [NodeTyping.isOptional, hmin] at hrequired

/-- No child of the first element is where the step to a child of the second one looks. -/
theorem gap_tag (hbelow : Typing.TypedBelow c s.typing e') (hd : d ∈ e'.children)
    (ht : typingOf s d = .ok t) (hrequired : t.isOptional = false) (hplain : PlainName d.localName)
    {rows : Bool} (hadmits : admits rows (l.get? d.id) = true)
    (hnone : ∀ x ∈ e.children, hasTag x (keyStep e' d) = true → admits rows (l.get? x.id) = false) :
    Gap c s.typing l e e' (.tag (keyStep e' d) false) := by
  have hd' := hasTag_keyStep e' hplain
  by_cases htag : ∃ x ∈ e.children, hasTag x (keyStep e' d) = true
  · obtain ⟨x, hx, htag⟩ := htag
    refine Or.inr ⟨d, hd, ⟨x, hx, htag, hd'⟩, fun y hy hstep hsame => ?_⟩
    have := hsame.1 rows
    rw [hadmits, hnone y hy hstep.1] at this
    cases this
  · obtain ⟨t', ht', hchild⟩ := requiresChild hbelow hd ht hrequired
    refine Or.inl ⟨t', ht', ⟨d, hd', hchild⟩, fun x hx => ?_⟩
    exact Bool.eq_false_iff.2 fun hxtag => htag ⟨x, hx, hxtag⟩

/-- No child of the first element is a geometry. -/
theorem gap_geometry (hbelow : Typing.TypedBelow c s.typing e') (hd : d ∈ e'.children)
    (ht : typingOf s d = .ok t) (hrequired : t.isOptional = false) (hgeometry : t.isGeometry = true)
    (hl : l.get? d.id = some .geometry)
    (hnone : ∀ x ∈ e.children, l.get? x.id ≠ some .geometry) :
    Gap c s.typing l e e' .geometry := by
  by_cases hname : ∃ x ∈ e.children, x.name = d.name
  · obtain ⟨x, hx, hname⟩ := hname
    exact Or.inr ⟨d, hd, ⟨x, hx, hname⟩, fun y hy _ hsame => hnone y hy (hsame.2.2 hl)⟩
  · obtain ⟨t', ht', hchild⟩ := requiresChild hbelow hd ht hrequired
    refine Or.inl ⟨t', ht', d, t, typingOf_eq_ok_iff.1 ht, hgeometry, hchild, fun x hx heq => ?_⟩
    exact hname ⟨x, hx, heq⟩

/-- An attribute that is required by the type of an element is missing at another one. -/
theorem gap_attribute (ht : TypedBy c s e') (htyping : typingOf s e' = .ok t) {name : String}
    {a : AttributeTyping} (ha : (name, a) ∈ t.attributes.entries) (hrequired : a.required = true)
    (hnone : e.attribute? name = none) : Gap c s.typing l e e' (.attr name) := by
  obtain ⟨found, hfound⟩ := ht e' (mem_descendants_self e') t htyping
  obtain ⟨hname, -, huse⟩ := Typing.attribute_origin hfound ha
  obtain ⟨uses, use, huses, hget, hrequired⟩ := huse hrequired
  refine Or.inl ⟨t, typingOf_eq_ok_iff.1 htyping, ⟨uses, a.name, use, huses, hget, hrequired, hname⟩,
    fun b hb hlocal => ?_⟩
  have := List.find?_eq_none.1 (Option.map_eq_none_iff.1 hnone) b hb
  simp [hlocal] at this

theorem isOptional_under {f : Field} {step : String} {optional : Bool}
    (h : (f.under step optional).isOptional = false) : f.isOptional = false ∧ optional = false := by
  cases f with
  | backLink b => cases h
  | column k => exact Bool.or_eq_false_iff.1 h
  | link k => exact Bool.or_eq_false_iff.1 h
  | geometry k => exact Bool.or_eq_false_iff.1 h

theorem PartAt.under {x y : Element} {key step : String} (h : PartAt c s.typing l x y key)
    (hx : x ∈ e.children) (hxtag : hasTag x step = true) (hy : y ∈ e'.children)
    (hytag : hasTag y step = true) (hstep : Key.Plain step) :
    PartAt c s.typing l e e' (Key.under step key) := by
  obtain ⟨before, next, after, z, w, hsteps, hz, hw, htyped, hgap⟩ := h
  refine ⟨.tag step false :: before, next, after, z, w, ?_, .step hx hxtag hz, .step hy hytag hw,
    htyped, hgap⟩
  rw [Key.steps_under hstep, hsteps]
  rfl

theorem Gap.partAt {step : Key.Step} {after : List Key.Step} {key : String}
    (h : Gap c s.typing l e e' step) (hsteps : Key.steps key = step :: after)
    (htyped : ∃ t, s.typing.get? e.id = some t) : PartAt c s.typing l e e' key :=
  ⟨[], step, after, e, e', hsteps, .refl e, .refl e', htyped, h⟩

/-- A required column of an element that finds nothing at another one is that of an attribute. -/
theorem own_partAt {f : Field} (ht : TypedBy c s e') (hplain : PlainNames e')
    (htyping : typingOf s e' = .ok t) (hf : f ∈ ownFields e' t) (hrequired : f.isOptional = false)
    (htyped : ∃ t, s.typing.get? e.id = some t) (hnothing : ¬ l.Finds e f) :
    PartAt c s.typing l e e' f.key := by
  rcases mem_ownFields hf with ⟨name, a, ha, rfl⟩ | ⟨kind, rfl⟩
  · obtain ⟨found, hfound⟩ := ht e' (mem_descendants_self e') t htyping
    obtain ⟨rfl, ⟨x, hx, hxa⟩, -⟩ := Typing.attribute_origin hfound ha
    have hsteps := Key.steps_attribute (hxa ▸ hplain.attributes e' (mem_descendants_self e') x hx)
    have hnone : e.attribute? a.name.localName = none := by
      rw [attribute?_eq l, ← itemsAt_single hsteps, ← selectText?_eq]
      exact Option.not_isSome_iff_eq_none.1 hnothing
    exact (gap_attribute ht htyping ha (by simpa [Field.isOptional] using hrequired) hnone).partAt
      hsteps htyped
  · -- the text of an element is found even where there is none
    refine absurd ?_ hnothing
    show (l.selectText? Key.text e).isSome = true
    rw [selectText?_eq, itemsAt_single Key.steps_text]
    rfl

/-- A required link of an element leads to a row for which there is none at the other one. -/
theorem row_partAt {target : String} (hbelow : Typing.TypedBelow c s.typing e') (hd : d ∈ e'.children)
    (hl : l.get? d.id = some (.table target)) (ht : typingOf s d = .ok t)
    (hrequired : t.isOptional = false) (hplain : PlainName d.localName)
    (htyped : ∃ t, s.typing.get? e.id = some t)
    (hnothing : selectNodes l (keyStep e' d) e = []) :
    PartAt c s.typing l e e' (keyStep e' d) := by
  have hsteps := Key.steps_of_plain (plain_keyStep e' hplain)
  refine (gap_tag hbelow hd ht hrequired hplain (admits_true_iff.2 ⟨target, hl⟩)
    fun x hx hxtag => ?_).partAt hsteps htyped
  refine Bool.eq_false_iff.2 fun hadmits => List.not_mem_nil (a := x) (hnothing ▸ ?_)
  unfold selectNodes
  rw [hsteps, descend_tag, List.flatMap_singleton]
  exact mem_stepFrom_iff.2 ⟨hx, hxtag, hadmits⟩

/-- Where the key of a required field of one element finds nothing at another one, the two part. -/
theorem Carries.partAt {f : Field} (h : Carries s l e' f) (ht : TypedBy c s e')
    (hbelow : ∀ y ∈ e'.descendants, Typing.TypedBelow c s.typing y) (hplain : PlainNames e')
    (hplaced : ∀ i p, l.get? i = some p → ∃ t, s.typing.get? i = some t ∧
      (p = .geometry → t.isGeometry = true))
    (hrequired : f.isOptional = false) (htyped : ∃ t, s.typing.get? e.id = some t)
    (hnothing : ¬ l.Finds e f) : PartAt c s.typing l e e' f.key := by
  induction h generalizing e with
  | own htyping hf => exact own_partAt ht hplain htyping hf hrequired htyped hnothing
  | @geometry e' d t hd hl htyping =>
    obtain ⟨t', ht', hgeometry⟩ := hplaced _ _ hl
    obtain rfl := Option.some.inj ((typingOf_eq_ok_iff.1 htyping).symm.trans ht')
    have hnone : ∀ x ∈ e.children, l.get? x.id ≠ some .geometry :=
      fun x hx hxl => hnothing (finds_geometry_of_child rfl hx hxl)
    exact (gap_geometry (hbelow e' (mem_descendants_self e')) hd htyping hrequired (hgeometry rfl) hl
      hnone).partAt Key.steps_geometry htyped
  | @part e' d t f hd hl htyping hf ih =>
    have hmem := mem_inner_of_mem_children hd
    have hname := hplain.elements d hmem
    have hstep := plain_keyStep e' hname
    have hoptional := isOptional_under hrequired
    obtain ⟨before, last, hlast, hfits⟩ := hf.fits (ht.child hd) (hplain.child hd)
    rw [hf.key_under]
    by_cases hpart : ∃ x ∈ e.children, hasTag x (keyStep e' d) = true ∧ Passes l x
    · -- both elements have such a part, so it is below the parts that they differ
      obtain ⟨x, hx, hxtag, hxl⟩ := hpart
      have hx' := mem_stepFrom_iff.2 ⟨hx, hxtag, admits_false_iff.2 hxl⟩
      obtain ⟨p, hp⟩ := Option.isSome_iff_exists.1 hxl.isSome
      obtain ⟨tx, htx, -⟩ := hplaced _ _ hp
      refine (ih (ht.child hd) (fun y hy => hbelow y ?_) (hplain.child hd) hoptional.1 ⟨tx, htx⟩
        fun hfinds => hnothing ?_).under hx hxtag hd (hasTag_keyStep e' hname) hstep
      · exact mem_descendants_trans hy (mem_descendants_iff.2 (Or.inr hmem))
      · exact finds_under hfits hlast hstep hx' _ hfinds
    · refine (gap_tag (hbelow e' (mem_descendants_self e')) hd htyping hoptional.2 hname
        (admits_false_iff.2 hl) fun x hx hxtag => ?_).partAt (Key.steps_under hstep f.key) htyped
      exact Bool.eq_false_iff.2 fun hadmits => hpart ⟨x, hx, hxtag, admits_false_iff.1 hadmits⟩
  | @row e' d t target hd hl htyping =>
    exact row_partAt (hbelow e' (mem_descendants_self e')) hd hl htyping
      (Bool.or_eq_false_iff.1 hrequired).1 (hplain.elements d (mem_inner_of_mem_children hd)) htyped
      (Classical.not_not.1 hnothing)

end Gap

end FeatureTables.Layout
