import FeatureTables.Proofs.Layout.Contents
import FeatureTables.Proofs.Layout.Judging

/-!
Whether the parts of a row keep within the bounds of the options. The bounds are checked against a
prediction, and building then judges the same elements again, among the tables that it has started in the
meantime. If each of these judgements is as it was predicted, the parts bring at most what was
predicted (`collect_within`), and so keep within the bounds (`merge_budget`). But a row inside of a part
may take the table of a later candidate: this one is split off then, or its parts are judged anew, and
the bounds do not hold (`bounds_exceeded`).
-/

namespace FeatureTables

open Xml Element

/-- How many of the fields have a column: all but links to many rows. -/
def columnsOf (fs : List Field) : Nat := fs.countP (·.columnName?.isSome)

namespace Layout

/-! ### How deep the parts of a row nest -/

/-- The element is a part of a row, and has complex content. -/
def isComplexPart (s : Setting) (l : Layout) (e : Element) : Bool :=
  l.get? e.id == some .inlined && (s.typing.get? e.id).any (!·.isSimple)

mutual
/-- How many complex parts of a row follow each other downwards from the element on, at most. -/
def partDepth (s : Setting) (l : Layout) : Element → Nat
  | ⟨i, name, attributes, text?, children, scope⟩ =>
    if isComplexPart s l ⟨i, name, attributes, text?, children, scope⟩ then
      partDepthAmong s l children + 1
    else 0
def partDepthAmong (s : Setting) (l : Layout) : List Element → Nat
  | [] => 0
  | e :: es => max (partDepth s l e) (partDepthAmong s l es)
end

section Depth

variable {s : Setting} {l l' : Layout} {e : Element} {es : List Element}

theorem partDepth_eq (s : Setting) (l : Layout) (e : Element) : partDepth s l e =
    if isComplexPart s l e then partDepthAmong s l e.children + 1 else 0 := by
  cases e
  rw [partDepth]

theorem partDepthAmong_congr (hchild : ∀ c ∈ es, partDepth s l' c = partDepth s l c) :
    partDepthAmong s l' es = partDepthAmong s l es := by
  induction es with
  | nil => rfl
  | cons c es ih =>
    obtain ⟨hchild₁, hchild⟩ := List.forall_mem_cons.1 hchild
    rw [partDepthAmong, partDepthAmong, ih hchild, hchild₁]

theorem partDepth_congr (heq : ∀ y ∈ e.descendants, l'.get? y.id = l.get? y.id) :
    partDepth s l' e = partDepth s l e := by
  induction e using induct_tree with
  | h e ih =>
    rw [partDepth_eq, partDepth_eq, isComplexPart, isComplexPart, heq e (mem_descendants_self e)]
    congr 2
    refine partDepthAmong_congr fun c hc => ih c hc fun y hy => heq y ?_
    exact mem_descendants_iff.2 (Or.inr (mem_inner_iff.2 ⟨c, hc, hy⟩))

end Depth

/-! ### Columns -/

section Columns

variable {e : Element} {t : NodeTyping}

theorem columnsOf_append (fs gs : List Field) : columnsOf (fs ++ gs) = columnsOf fs + columnsOf gs :=
  List.countP_append

theorem columnsOf_under (step : String) (optional : Bool) (fs : List Field) :
    columnsOf (fs.map (Field.under step optional)) = columnsOf fs := by
  unfold columnsOf
  rw [List.countP_map]
  congr 1
  funext f
  cases f with
  | link l => cases h : l.isMany <;> simp_all [Field.under, Field.columnName?, Link.isMany]
  | _ => rfl

theorem columnsOf_untyped (fs : List Field) : columnsOf (fs.map Field.untyped) = columnsOf fs := by
  unfold columnsOf
  rw [List.countP_map]
  congr 1
  funext f
  cases f <;> rfl

theorem columnsOf_link (m : Model) (step table : String) (t : NodeTyping) (optional : Bool) :
    columnsOf [linkField m step table t optional] = if t.isRepeated then 0 else 1 := by
  cases h : t.isRepeated <;>
    simp_all [columnsOf, linkField, Field.columnName?, Link.isMany, NodeTyping.isRepeated]

theorem columnsOf_own (e : Element) (t : NodeTyping) : columnsOf (ownFields e t) ≤
    t.attributes.size + if t.isSimple && e.text?.isSome then 1 else 0 := by
  refine Nat.le_trans List.countP_le_length ?_
  unfold ownFields NodeTyping.isSimple OrderedMap.size
  cases t.content? <;> cases e.text? <;> simp

end Columns

/-! ### What was predicted -/

/-- What was predicted of children covers the columns that they bring, and how deep complex parts nest in
them. -/
structure Within (cost cost' : Cost) (brought nested : Nat) : Prop where
  columns : cost.columns + brought ≤ cost'.columns
  depth : cost.depth ≤ cost'.depth
  parts : nested ≠ 0 → nested + 1 ≤ cost'.depth

theorem Within.append {cost cost₁ cost' : Cost} {brought brought' nested nested' : Nat}
    (h : Within cost cost₁ brought nested) (h' : Within cost₁ cost' brought' nested') :
    Within cost cost' (brought + brought') (max nested nested') := by
  obtain ⟨hcolumns, hdepth, hparts⟩ := h
  obtain ⟨hcolumns', hdepth', hparts'⟩ := h'
  constructor <;> omega

/-- No elements stand in an element with simple content. -/
def SimpleLeaves (s : Setting) (e : Element) : Prop :=
  ∀ x ∈ e.inner, ∀ t, typingOf s x = .ok t → t.isSimple = true → x.children = []

section Prediction

variable {s : Setting} {m : Model} {name : String} {parent e c : Element} {es : List Element}
  {b b' : Building} {fs : List Field} {t : NodeTyping} {cost cost' : Cost}

theorem isInlined_judged (hj : Judged c t) : isInlined s m name c t =
    (inlineCost? s m name c).map (·.any (fits s.options)) := by
  unfold isInlined
  simp only [hj.repeated, hj.natural, hj.head, hj.complex, Bool.or_self, Bool.false_eq_true, if_false]
  cases inlineCost? s m name c <;> rfl

theorem simple_of_inlined (hg : t.isGeometry = false) (hv : isVoid c t = false) (hj : ¬ Judged c t)
    (h : isInlined s m name c t = .ok true) : t.isSimple = true ∧ t.isRepeated = false ∧
      hasNaturalId c t = false ∧ t.head?.isSome = false := by
  unfold isInlined at h
  split at h
  · cases h
  · rename_i hother
    simp only [Bool.or_eq_true, not_or, Bool.not_eq_true] at hother
    obtain ⟨⟨hrepeated, hnatural⟩, hhead⟩ := hother
    refine ⟨?_, hrepeated, hnatural, hhead⟩
    cases hs : t.isSimple with
    | true => rfl
    | false => exact absurd ⟨hg, hv, hrepeated, hnatural, hhead, hs⟩ hj

theorem partDepth_le (s : Setting) (l : Layout) (e : Element) :
    partDepth s l e ≤ partDepthAmong s l e.children + 1 := by
  rw [partDepth_eq]
  split
  · exact Nat.le_refl _
  · exact Nat.zero_le _

theorem partDepth_of_place {l : Layout} {p : Placement} (hp : l.get? c.id = some p) (hne : p ≠ .inlined) :
    partDepth s l c = 0 := by
  rw [partDepth_eq, if_neg]
  simp [isComplexPart, hp, hne]

theorem partDepth_of_simple (ht : typingOf s c = .ok t) (hs : t.isSimple = true) (l : Layout) :
    partDepth s l c = 0 := by
  rw [partDepth_eq, if_neg]
  simp [isComplexPart, typingOf_eq_ok_iff.1 ht, hs]

/-- A child that the bounds do not decide about costs what it brings at least. -/
theorem childFields_within_fixed (hd : c.Distinct) (ht : typingOf s c = .ok t) (hj : ¬ Judged c t)
    (hleaf : t.isSimple = true → c.children = [])
    (hcost : childCost s name parent c (fun below => inlineCost? s m below c) cost = .ok cost')
    (h : Leads (childFields s name parent c fun below => collect s below c) b fs b') :
    Within cost cost' (columnsOf fs) (partDepth s b'.layout c) := by
  have hput : ∀ p, (b.placed c p).layout.get? c.id = some p := fun p => by
    rw [Building.placed_layout, NodeMap.get?_put, if_pos rfl]
  obtain ⟨t', ht', h⟩ := childFields_judged h
  obtain rfl : t = t' := Except.ok.inj (ht.symm.trans ht')
  rw [childCost_not_judged ht hj] at hcost
  obtain rfl := Except.ok.inj hcost
  rcases h with ⟨hg, rfl, rfl⟩ | ⟨hg, hv, rfl, rfl⟩ | ⟨hg, hv, hinlined, own, hown, rfl⟩ |
    ⟨hg, hv, -, target, own, b₁, -, hown, rfl, rfl⟩
  · rw [partDepth_of_place (hput _) (by simp), if_pos hg]
    exact ⟨Nat.le_refl _, Nat.le_refl _, by simp⟩
  · rw [partDepth_of_place (hput _) (by simp)]
    exact ⟨Nat.le_add_right _ _, Nat.le_refl _, by simp⟩
  · -- what is a part of the row all the same has simple content
    obtain ⟨hsimple, hrepeated, hnatural, hhead⟩ := simple_of_inlined hg hv hj hinlined
    obtain ⟨t', rest, ht', hrest, rfl⟩ := leads_collect.1 hown
    obtain rfl : t = t' := Except.ok.inj (ht.symm.trans ht')
    rw [hleaf hsimple] at hrest
    obtain ⟨rfl, -⟩ := leads_collectAmong_nil.1 hrest
    rw [partDepth_of_simple ht hsimple, columnsOf_under, List.append_nil]
    have hown := columnsOf_own c t
    simp only [hg, hv, hrepeated, hnatural, hhead, Bool.or_self, Bool.false_eq_true, if_false]
    refine ⟨?_, Nat.le_refl _, by simp⟩
    dsimp only
    split at hown <;> omega
  · rw [Building.extended_layout, partDepth_of_place (collect_self hd hown) (by simp), columnsOf_link]
    refine ⟨?_, Nat.le_refl _, by simp⟩
    simp only [hg, hv, Bool.false_or, Bool.false_eq_true, if_false]
    repeat' split
    all_goals omega

/-- A child that is judged as predicted costs what it brings at least. -/
theorem childFields_within_judged (hd : c.Distinct) (ht : typingOf s c = .ok t) (hj : Judged c t)
    (hsame : inlineCost? s b.model (nextName name (keyStep parent c) false) c =
      inlineCost? s m (nextName name (keyStep parent c) false) c)
    (hcollect : ∀ {own found}, inlineCost? s b.model (nextName name (keyStep parent c) false) c =
        .ok (some found) →
      Leads (collect s (nextName name (keyStep parent c) false) c) (b.placed c .inlined) own b' →
      columnsOf own ≤ found.columns ∧ partDepthAmong s b'.layout c.children + 1 ≤ found.depth)
    (hcost : childCost s name parent c (fun below => inlineCost? s m below c) cost = .ok cost')
    (h : Leads (childFields s name parent c fun below => collect s below c) b fs b') :
    Within cost cost' (columnsOf fs) (partDepth s b'.layout c) := by
  obtain ⟨t', ht', h⟩ := childFields_judged h
  obtain rfl : t = t' := Except.ok.inj (ht.symm.trans ht')
  rw [childCost_judged ht hj, ← hsame] at hcost
  cases hfound : inlineCost? s b.model (nextName name (keyStep parent c) false) c with
  | error err =>
    rw [hfound] at hcost
    cases hcost
  | ok found? =>
    rw [hfound] at hcost
    obtain rfl := Except.ok.inj hcost
    rcases h with ⟨hg, -⟩ | ⟨-, hv, -⟩ | ⟨-, -, hinlined, own, hown, rfl⟩ |
      ⟨-, -, hinlined, target, own, b₁, -, hown, rfl, rfl⟩
    · rw [hj.geometry] at hg
      cases hg
    · rw [hj.void] at hv
      cases hv
    · rw [isInlined_judged hj, hfound] at hinlined
      obtain ⟨found, rfl, hfits⟩ := (Option.any_eq_true _ _).1 (Except.ok.inj hinlined)
      obtain ⟨hcolumns, hdepth⟩ := hcollect hfound hown
      have hle := partDepth_le s b'.layout c
      rw [Cost.adding, Option.filter_some, if_pos hfits, columnsOf_under]
      constructor <;> dsimp only <;> omega
    · rw [isInlined_judged hj, hfound] at hinlined
      have hnone : found?.filter (fits s.options) = none := by
        rw [Option.filter_eq_none_iff]
        simpa using (Option.any_eq_false _ _).1 (Except.ok.inj hinlined)
      rw [Cost.adding, hnone, Building.extended_layout,
        partDepth_of_place (collect_self hd hown) (by simp), columnsOf_link, hj.repeated]
      exact ⟨Nat.le_refl _, Nat.le_refl _, by simp⟩

/-- The rows among the elements that stand in front of a candidate in `e` are not in the table that the
candidate would have, unless the model has this table. -/
def Clear (s : Setting) (m : Model) (l : Layout) (es : List Element) (name : String) (e : Element) :
    Prop :=
  ∀ x table, Candidate s name e x table → ∀ y ∈ es, y.id < x.id →
    l.get? y.id = some (.table table) → m.tables.contains table = true

theorem collectAmong_within (hdistinct : ∀ c ∈ es, c.Distinct) (hes : es ⊆ parent.children)
    (hsorted : ((es.flatMap descendants).map (·.id)).Pairwise (· < ·))
    (hnone : ∀ y ∈ es.flatMap descendants, b.layout.get? y.id = none)
    (hleaves : SimpleLeaves s parent)
    (hclear : ∀ c ∈ es, ∀ t, typingOf s c = .ok t → Judged c t →
      Clear s m b'.layout (es.flatMap descendants) (nextName name (keyStep parent c) false) c)
    (hsame : ∀ c ∈ es, ∀ t, typingOf s c = .ok t → Judged c t → ∀ x table,
      Candidate s (nextName name (keyStep parent c) false) c x table →
      (b.model.tables.contains table = true ↔ m.tables.contains table = true))
    (hcollect : ∀ c ∈ es, ∀ {name b fs b' cost}, (∀ y ∈ c.inner, b.layout.get? y.id = none) →
      inlineCost? s b.model name c = .ok (some cost) → Clear s b.model b'.layout c.inner name c →
      Leads (collect s name c) b fs b' →
      columnsOf fs ≤ cost.columns ∧ partDepthAmong s b'.layout c.children + 1 ≤ cost.depth)
    (hcost : inlineCostAmong s m name parent cost es = .ok cost')
    (h : Leads (collectAmong s name parent es) b fs b') :
    Within cost cost' (columnsOf fs) (partDepthAmong s b'.layout es) := by
  induction es generalizing b fs cost with
  | nil =>
    obtain ⟨rfl, -⟩ := leads_collectAmong_nil.1 h
    obtain rfl := Except.ok.inj hcost
    exact ⟨Nat.le_refl _, Nat.le_refl _, by simp [partDepthAmong]⟩
  | cons c es ih =>
    obtain ⟨first, b₁, rest, hfirst, hrest, rfl⟩ := leads_collectAmong_cons.1 h
    rw [inlineCostAmong, bind_eq_ok_iff] at hcost
    obtain ⟨cost₁, hcost₁, hcost⟩ := hcost
    obtain ⟨hc, hes⟩ := List.cons_subset.1 hes
    rw [List.flatMap_cons] at hsorted hnone hclear
    have hd := hdistinct c List.mem_cons_self
    have hsep := collectAmong_separate hdistinct (hsorted.imp Nat.ne_of_lt) hfirst hrest
    have hnone₁ : ∀ y ∈ c.descendants, b.layout.get? y.id = none := fun y hy =>
      hnone y (List.mem_append_left _ hy)
    have hopens := childFields_opens hd hnone₁ (collect_opens hd) hfirst
    rw [List.map_append, List.pairwise_append] at hsorted
    obtain ⟨-, hsorted, hlt⟩ := hsorted
    have hchild : Within cost cost₁ (columnsOf first) (partDepth s b₁.layout c) := by
      obtain ⟨t, ht, -⟩ := childFields_judged hfirst
      by_cases hj : Judged c t
      · have hsame₁ := hsame c List.mem_cons_self t ht hj
        refine childFields_within_judged hd ht hj
          (inlineCost?_congr fun x table hx => Bool.eq_iff_iff.2 (hsame₁ x table hx)) ?_ hcost₁ hfirst
        refine fun {own found} hfound hown => hcollect c List.mem_cons_self (b := b.placed c .inlined)
          (inner_put hd hnone₁ .inlined) hfound ?_ hown
        intro x table hx y hy hyx hyl
        refine (hsame₁ x table hx).2 (hclear c List.mem_cons_self t ht hj x table hx y ?_ hyx ?_)
        · exact List.mem_append_left _ (mem_descendants_iff.2 (Or.inr hy))
        · rw [hsep.same y (mem_descendants_iff.2 (Or.inr hy)), hyl]
      · exact childFields_within_fixed hd ht hj
          (hleaves c (mem_inner_of_mem_children hc) t ht) hcost₁ hfirst
    have htail : Within cost₁ cost' (columnsOf rest) (partDepthAmong s b'.layout es) := by
      refine ih (fun d hd => hdistinct d (List.mem_cons_of_mem _ hd)) hes hsorted (hsep.fresh hnone)
        (fun d hd t ht hj x table hx y hy => ?_) (fun d hd t ht hj x table hx => ?_)
        (fun d hd => hcollect d (List.mem_cons_of_mem _ hd)) hcost hrest
      · exact hclear d (List.mem_cons_of_mem _ hd) t ht hj x table hx y (List.mem_append_right _ hy)
      · -- what the first child adds is known by the condition
        have hsame₁ := hsame d (List.mem_cons_of_mem _ hd) t ht hj x table hx
        rw [hopens table]
        refine ⟨Or.rec hsame₁.1 ?_, fun hm => Or.inl (hsame₁.2 hm)⟩
        rintro ⟨y, hy, hyl⟩
        have hxd : x ∈ es.flatMap descendants := List.mem_flatMap.2 ⟨d, hd, hx.mem_descendants⟩
        exact hclear d (List.mem_cons_of_mem _ hd) t ht hj x table hx y (List.mem_append_left _ hy)
          (hlt _ (List.mem_map_of_mem hy) _ (List.mem_map_of_mem hxd)) ((hsep.same y hy).trans hyl)
    rw [columnsOf_append, partDepthAmong, partDepth_congr hsep.same]
    exact hchild.append htail

/-- If each part is judged as predicted, an element brings at most what was predicted, and its complex
parts nest as deep as predicted at most. -/
theorem collect_within (hn : e.Numbered) (hnone : ∀ y ∈ e.inner, b.layout.get? y.id = none)
    (hleaves : SimpleLeaves s e) (hcost : inlineCost? s b.model name e = .ok (some cost))
    (hclear : Clear s b.model b'.layout e.inner name e) (h : Leads (collect s name e) b fs b') :
    columnsOf fs ≤ cost.columns ∧ partDepthAmong s b'.layout e.children + 1 ≤ cost.depth := by
  induction e using induct_tree generalizing name b fs b' cost with
  | h e ih =>
    obtain ⟨t, rest, ht, hrest, rfl⟩ := leads_collect.1 h
    rw [inlineCost?_eq, ht] at hcost
    simp only [bind, Except.bind] at hcost
    split at hcost
    · cases hcost
    · obtain ⟨cost', hamong, hcost⟩ := bind_eq_ok_iff.1 hcost
      obtain rfl := Option.some.inj (Except.ok.inj hcost)
      have hchild : ∀ c ∈ e.children, SimpleLeaves s c := fun c hc x hx =>
        hleaves x (mem_inner_iff.2 ⟨c, hc, mem_descendants_iff.2 (Or.inr hx)⟩)
      obtain ⟨hcolumns, hdepth, hparts⟩ := collectAmong_within (fun c hc => hn.distinct.child hc)
        (List.Subset.refl _) hn.inner hnone hleaves
        (fun c hc t ht hj x table hx => hclear x table (.inside hc ht hj hx))
        (fun c _ t _ _ x table _ => Iff.rfl)
        (fun c hc {name b fs b' cost} hnone hcost hclear h =>
          ih c hc (hn.child hc) hnone (hchild c hc) hcost hclear h) hamong hrest
      have hown := columnsOf_own e t
      rw [columnsOf_append]
      dsimp only at hcolumns hdepth
      omega

/-! ### Documents -/

/-- Where a part of a row in a document was judged, no row inside of it that stands in front of a
candidate takes the table of the candidate, unless the table was there by then. -/
def Foreseen (s : Setting) (m : Model) (l : Layout) (root : Element) (below : String) (e : Element) :
    Prop :=
  ∀ x table, Candidate s below e x table → ∀ y ∈ e.inner, y.id < x.id →
    l.get? y.id = some (.table table) → m.tables.contains table = true ∨
      ∃ z ∈ root.descendants, z.id < e.id ∧ l.get? z.id = some (.table table)

theorem childCost_depth {nested : String → Except Error (Option Cost)}
    (h : childCost s name parent c nested cost = .ok cost') : cost.depth ≤ cost'.depth := by
  obtain ⟨t, ht, -⟩ := bind_eq_ok_iff.1 h
  by_cases hj : Judged c t
  · rw [childCost_judged ht hj] at h
    cases hfound : nested (nextName name (keyStep parent c) false) with
    | error err =>
      rw [hfound] at h
      cases h
    | ok found? =>
      rw [hfound] at h
      obtain rfl := Except.ok.inj h
      unfold Cost.adding
      split
      · exact Nat.le_max_left _ _
      · exact Nat.le_refl _
  · rw [childCost_not_judged ht hj] at h
    obtain rfl := Except.ok.inj h
    exact Nat.le_refl _

theorem inlineCostAmong_depth (h : inlineCostAmong s m name parent cost es = .ok cost') :
    cost.depth ≤ cost'.depth := by
  induction es generalizing cost with
  | nil =>
    obtain rfl := Except.ok.inj h
    exact Nat.le_refl _
  | cons c es ih =>
    rw [inlineCostAmong, bind_eq_ok_iff] at h
    obtain ⟨cost₁, hcost₁, h⟩ := h
    exact Nat.le_trans (childCost_depth hcost₁) (ih h)

/-- Each complex part of a row counts by itself. -/
theorem inlineCost?_depth (h : inlineCost? s m name e = .ok (some cost)) : 1 ≤ cost.depth := by
  rw [inlineCost?_eq, bind_eq_ok_iff] at h
  obtain ⟨t, -, h⟩ := h
  split at h
  · cases h
  · obtain ⟨cost', hamong, h⟩ := bind_eq_ok_iff.1 h
    obtain rfl := Option.some.inj (Except.ok.inj h)
    exact inlineCostAmong_depth hamong

theorem inlineCost?_of_inlined (hs : t.isSimple = false) (h : isInlined s m name e t = .ok true) :
    ∃ cost, inlineCost? s m name e = .ok (some cost) ∧ fits s.options cost = true := by
  unfold isInlined at h
  split at h
  · cases h
  · rw [hs, if_neg Bool.false_ne_true, bind_eq_ok_iff] at h
    obtain ⟨found?, hfound, h⟩ := h
    obtain ⟨cost, rfl, hfits⟩ := (Option.any_eq_true _ _).1 (Except.ok.inj h)
    exact ⟨cost, hfound, hfits⟩

end Prediction

section Build

variable {s : Setting} {m : Model} {root e : Element} {o : Outcome}

/-- The root is no part of a row. -/
theorem build_root (hd : root.Distinct) (h : build s m root = .ok o) :
    o.layout.get? root.id = some .empty ∨ o.layout.get? root.id = some (.table root.localName) := by
  obtain ⟨t, -, hroot⟩ := build_root_eq hd h
  rw [hroot]
  split
  · exact Or.inl rfl
  · exact Or.inr rfl

/-- Without any nesting allowed there are no complex parts of rows. A complex part of a row keeps
within the bounds, if what was predicted when it was judged did not change in the meantime. -/
theorem merge_budget (hn : root.Numbered) (h : build s m root = .ok o) (he : e ∈ root.descendants)
    (hpart : isComplexPart s o.layout e = true) : s.options.mergeMaxDepth ≠ 0 ∧
      ∃ below, JudgedAs o.layout root.localName root e below ∧
        (Foreseen s m o.layout root below e → SimpleLeaves s e →
          partDepth s o.layout e ≤ s.options.mergeMaxDepth ∧
          ∀ k, s.options.mergeMaxColumns? = some k → columnsOf (brought s o.layout e) ≤ k) := by
  simp only [isComplexPart, Bool.and_eq_true, beq_iff_eq, Option.any_eq_true, Bool.not_eq_true'] at hpart
  obtain ⟨hinlined, t, ht, hcomplex⟩ := hpart
  have hinner : e ∈ root.inner := by
    rcases mem_descendants_iff.1 he with rfl | he
    · rcases build_root hn.distinct h with hroot | hroot <;> · rw [hroot] at hinlined; cases hinlined
    · exact he
  obtain ⟨below, hbelow⟩ :=
    exists_judgedAs (build_places hn.distinct h).connected hinner hinlined root.localName
  obtain ⟨before, hbefore⟩ := build_judges hn h hbelow
  obtain ⟨t', ht', hjudged⟩ := hbefore.inlined
  obtain rfl : t = t' := by
    rw [typingOf_eq_ok_iff, ht] at ht'
    exact Option.some.inj ht'
  obtain ⟨cost, hcost, hfits⟩ := inlineCost?_of_inlined hcomplex hjudged
  simp only [fits, Bool.and_eq_true, decide_eq_true_eq] at hfits
  obtain ⟨hdepth, hcolumns⟩ := hfits
  refine ⟨?_, below, hbelow, fun hforeseen hleaves => ?_⟩
  · have := inlineCost?_depth hcost
    omega
  · obtain ⟨own, after, hown, hsame⟩ := hbefore.built
    have hne := hn.of_mem he
    have hclear : Clear s before.model after.layout e.inner below e := by
      intro x table hx y hy hyx hyl
      rw [hbefore.tables table]
      exact hforeseen x table hx y hy hyx ((hsame y hy).trans hyl)
    obtain ⟨hcover, hnested⟩ := collect_within (b := before.placed e .inlined) hne
      (inner_put hne.distinct hbefore.fresh .inlined) hleaves hcost hclear hown
    have hparts : partDepthAmong s o.layout e.children = partDepthAmong s after.layout e.children :=
      partDepthAmong_congr fun c hc => partDepth_congr fun y hy =>
        hsame y (mem_inner_iff.2 ⟨c, hc, hy⟩)
    have hdown := partDepth_le s o.layout e
    refine ⟨by omega, fun k hk => ?_⟩
    rw [brought_congr hsame, ← collect_brought hne.distinct hown, columnsOf_untyped]
    rw [hk] at hcolumns
    exact Nat.le_trans hcover (of_decide_eq_true hcolumns)

end Build

/-- An element of a document that is built, found by a test. -/
theorem exists_built (schema text : String) (options : BuildOptions)
    (test : Document → Setting → Outcome → Element → Bool)
    (h : (built? schema text options).map (fun b =>
      b.1.root.descendants.any (test b.1 b.2.1 b.2.2)) = some true) :
    ∃ d s o e, built? schema text options = some (d, s, o) ∧ e ∈ d.root.descendants ∧
      test d s o e = true := by
  obtain ⟨⟨d, s, o⟩, hb, hany⟩ := Option.map_eq_some_iff.1 h
  obtain ⟨e, he, htest⟩ := List.any_eq_true.1 hany
  exact ⟨d, s, o, e, hb, he, htest⟩

/-- Elements with a part inside of a part, and with rows. -/
def partsSchema : String :=
  "<xs:schema xmlns:xs='http://www.w3.org/2001/XMLSchema'><xs:element name='r'><xs:complexType>" ++
  "<xs:sequence><xs:element name='a'><xs:complexType><xs:sequence><xs:element name='b'>" ++
  "<xs:complexType><xs:attribute name='y'/></xs:complexType></xs:element>" ++
  "<xs:element name='i' type='xs:string' maxOccurs='unbounded'/></xs:sequence>" ++
  "<xs:attribute name='x'/></xs:complexType></xs:element></xs:sequence></xs:complexType></xs:element>" ++
  "</xs:schema>"

/-- A part with another one inside of it, and a row behind, meets both bounds. -/
theorem bounds_met : ∃ d s o e,
    built? partsSchema "<r><a x='1'><b y='1'/><i>1</i></a></r>"
      { mergeMaxDepth := 2, mergeMaxColumns? := some 2 } = some (d, s, o) ∧
    e ∈ d.root.descendants ∧ isComplexPart s o.layout e = true ∧
    partDepth s o.layout e = 2 ∧ columnsOf (brought s o.layout e) = 2 ∧
    s.options.mergeMaxDepth ≠ 0 ∧
    ∃ below, JudgedAs o.layout d.root.localName d.root e below ∧
      Foreseen s {} o.layout d.root below e ∧ SimpleLeaves s e ∧
      partDepth s o.layout e ≤ s.options.mergeMaxDepth ∧
      ∀ k, s.options.mergeMaxColumns? = some k → columnsOf (brought s o.layout e) ≤ k := by
  -- the only row inside of the element stands behind all else
  obtain ⟨d, s, o, e, hb, he, htest⟩ := exists_built partsSchema
    "<r><a x='1'><b y='1'/><i>1</i></a></r>" { mergeMaxDepth := 2, mergeMaxColumns? := some 2 }
    (fun d s o e => isComplexPart s o.layout e && partDepth s o.layout e == 2 &&
      columnsOf (brought s o.layout e) == 2 &&
      (e.inner.all fun y => e.descendants.all fun x =>
        !decide (y.id < x.id) || decide (o.layout.get? y.id = some .inlined)) &&
      e.inner.all fun x => (s.typing.get? x.id).all fun t => !t.isSimple || x.children.isEmpty)
    (by decide +kernel)
  simp only [Bool.and_eq_true, beq_iff_eq, List.all_eq_true, Bool.or_eq_true, Bool.not_eq_true',
    decide_eq_false_iff_not, decide_eq_true_eq] at htest
  obtain ⟨⟨⟨⟨hpart, hdepth⟩, hcolumns⟩, hbehind⟩, hsimple⟩ := htest
  obtain ⟨hd, ho⟩ := built?_eq_some hb
  obtain ⟨hnest, below, hbelow, hbounds⟩ := merge_budget (Document.numbered_parse hd) ho he hpart
  have hforeseen : Foreseen s {} o.layout d.root below e := by
    intro x table hx y hy hyx hyl
    have := (hbehind y hy x hx.mem_descendants).resolve_left fun h => h hyx
    rw [this] at hyl
    cases hyl
  have hleaves : SimpleLeaves s e := by
    intro x hx t ht hs
    have := hsimple x hx
    rw [typingOf_eq_ok_iff.1 ht, Option.all_some, hs] at this
    simpa using this
  exact ⟨d, s, o, e, hb, he, hpart, hdepth, hcolumns, hnest, below, hbelow, hforeseen, hleaves,
    hbounds hforeseen hleaves⟩

/-- Elements that have up to two elements of their own kind and name, and one of another name. -/
def twinsSchema : String :=
  "<xs:schema xmlns:xs='http://www.w3.org/2001/XMLSchema'><xs:complexType name='T'><xs:sequence>" ++
  "<xs:element name='c' type='T' minOccurs='0'/><xs:element name='c' type='T' minOccurs='0'/>" ++
  "<xs:element name='d' type='T' minOccurs='0'/></xs:sequence><xs:attribute name='x'/>" ++
  "<xs:attribute name='y'/><xs:attribute name='z'/><xs:attribute name='w'/></xs:complexType>" ++
  "<xs:element name='r' type='T'/></xs:schema>"

/-- Rows inside of a part that take the table of a later candidate: parts nest three deep where two are
allowed, and bring four columns where three are allowed. -/
theorem bounds_exceeded :
    (∃ d s o e, built? twinsSchema
        "<r><c><c><c><c><c x='1'/></c></c></c><c><c><c x='1'/></c><d x='1'/></c></c></r>"
        { mergeMaxDepth := 2 } = some (d, s, o) ∧
      e ∈ d.root.descendants ∧ isComplexPart s o.layout e = true ∧ 2 < partDepth s o.layout e) ∧
    ∃ d s o e, built? twinsSchema
        "<r><c x='1'><c><c x='1' y='1' z='1' w='1'/></c><c x='1' y='1'><c x='1' y='1'/></c></c></r>"
        { mergeMaxDepth := 10, mergeMaxColumns? := some 3 } = some (d, s, o) ∧
      e ∈ d.root.descendants ∧ isComplexPart s o.layout e = true ∧
      3 < columnsOf (brought s o.layout e) := by
  have hdepth := exists_built twinsSchema
    "<r><c><c><c><c><c x='1'/></c></c></c><c><c><c x='1'/></c><d x='1'/></c></c></r>"
    { mergeMaxDepth := 2 }
    (fun d s o e => isComplexPart s o.layout e && decide (2 < partDepth s o.layout e))
    (by decide +kernel)
  have hcolumns := exists_built twinsSchema
    "<r><c x='1'><c><c x='1' y='1' z='1' w='1'/></c><c x='1' y='1'><c x='1' y='1'/></c></c></r>"
    { mergeMaxDepth := 10, mergeMaxColumns? := some 3 }
    (fun d s o e => isComplexPart s o.layout e && decide (3 < columnsOf (brought s o.layout e)))
    (by decide +kernel)
  simp only [Bool.and_eq_true, decide_eq_true_eq] at hdepth hcolumns
  exact ⟨hdepth, hcolumns⟩

end Layout
end FeatureTables
