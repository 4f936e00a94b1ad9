import FeatureTables.Proofs.Layout.Placement
import FeatureTables.Proofs.Table.Growth

/-!
What an element brings to its row, read off the layout. It brings the fields of its attributes and of
its text, those of the parts of its row one step further down, a geometry for each child that is one,
and a link for each child with a row of its own (`Carries`). Collecting finds these fields and no
others (`collect_carries`).
-/

namespace FeatureTables

/-- The field without the type of the identifiers that a link refers to. -/
def Field.untyped : Field → Field
  | link l => link { l with type := .int }
  | f => f

@[simp] theorem Field.key_untyped (f : Field) : f.untyped.key = f.key := by
  cases f <;> rfl

theorem Field.grows_untyped (f : Field) : f.untyped.Grows f := by
  cases f with
  | link l => exact .link rfl rfl id id
  | column c => exact .refl _
  | backLink b => exact .refl _
  | geometry g => exact .refl _

theorem Field.untyped_under (step : String) (optional : Bool) (f : Field) :
    (f.under step optional).untyped = f.untyped.under step optional := by
  cases f <;> rfl

namespace Layout

open Xml Element

/-- What an element brings by itself: a column for each attribute, and one for its text. -/
theorem mem_ownFields {e : Element} {t : NodeTyping} {f : Field} (h : f ∈ ownFields e t) :
    (∃ name a, (name, a) ∈ t.attributes.entries ∧
      f = .column ⟨"@" ++ name, SqlType.ofKind a.kind, !a.required, false⟩) ∨
    ∃ kind, f = .column ⟨Key.text, SqlType.ofKind kind, false, false⟩ := by
  unfold ownFields at h
  split at h
  · rcases List.mem_append.1 h with h | h
    · obtain ⟨entry, hentry, rfl⟩ := List.mem_map.1 h
      exact Or.inl ⟨entry.1, entry.2, hentry, rfl⟩
    · exact Or.inr ⟨_, List.mem_singleton.1 h⟩
  · obtain ⟨entry, hentry, rfl⟩ := List.mem_map.1 h
    exact Or.inl ⟨entry.1, entry.2, hentry, rfl⟩

theorem untyped_own {e : Element} {t : NodeTyping} {f : Field} (h : f ∈ ownFields e t) :
    f.untyped = f := by
  rcases mem_ownFields h with ⟨_, _, -, rfl⟩ | ⟨_, rfl⟩ <;> rfl

/-! ### The fields of a layout -/

/-- The element brings the field to its row, links without the types of identifiers. -/
inductive Carries (s : Setting) (l : Layout) : Element → Field → Prop
  | own {e : Element} {t : NodeTyping} {f : Field} (ht : typingOf s e = .ok t)
      (hf : f ∈ ownFields e t) : Carries s l e f
  | geometry {e c : Element} {t : NodeTyping} (hc : c ∈ e.children)
      (hl : l.get? c.id = some .geometry) (ht : typingOf s c = .ok t) :
      Carries s l e (geometryField s.options c t.isOptional)
  | part {e c : Element} {t : NodeTyping} {f : Field} (hc : c ∈ e.children)
      (hl : Passes l c) (ht : typingOf s c = .ok t) (hf : Carries s l c f) :
      Carries s l e (f.under (keyStep e c) t.isOptional)
  | row {e c : Element} {t : NodeTyping} {target : String} (hc : c ∈ e.children)
      (hl : l.get? c.id = some (.table target)) (ht : typingOf s c = .ok t) :
      Carries s l e (linkField {} (keyStep e c) target t t.isOptional)

/-- What an element brings by one of its children. -/
def CarriesBy (s : Setting) (l : Layout) (e c : Element) (f : Field) : Prop :=
  ∃ t, typingOf s c = .ok t ∧
    (l.get? c.id = some .geometry ∧ f = geometryField s.options c t.isOptional ∨
      Passes l c ∧ (∃ g, Carries s l c g ∧ f = g.under (keyStep e c) t.isOptional) ∨
      ∃ target, l.get? c.id = some (.table target) ∧
        f = linkField {} (keyStep e c) target t t.isOptional)

section Carries

variable {s : Setting} {l l' : Layout} {e c : Element} {f : Field}

theorem carries_iff : Carries s l e f ↔
    (∃ t, typingOf s e = .ok t ∧ f ∈ ownFields e t) ∨ ∃ c ∈ e.children, CarriesBy s l e c f := by
  constructor
  · intro h
    cases h with
    | own ht hf => exact Or.inl ⟨_, ht, hf⟩
    | geometry hc hl ht => exact Or.inr ⟨_, hc, _, ht, Or.inl ⟨hl, rfl⟩⟩
    | part hc hl ht hf => exact Or.inr ⟨_, hc, _, ht, Or.inr (Or.inl ⟨hl, _, hf, rfl⟩)⟩
    | row hc hl ht => exact Or.inr ⟨_, hc, _, ht, Or.inr (Or.inr ⟨_, hl, rfl⟩)⟩
  · rintro (⟨t, ht, hf⟩ | ⟨c, hc, t, ht, ⟨hl, rfl⟩ | ⟨hl, g, hg, rfl⟩ | ⟨target, hl, rfl⟩⟩)
    · exact .own ht hf
    · exact .geometry hc hl ht
    · exact .part hc hl ht hg
    · exact .row hc hl ht

/-- Layouts that agree inside of an element have the same fields for it. -/
theorem Carries.congr (h : Carries s l e f) (heq : ∀ y ∈ e.inner, l'.get? y.id = l.get? y.id) :
    Carries s l' e f := by
  induction h with
  | own ht hf => exact .own ht hf
  | geometry hc hl ht => exact .geometry hc (by rw [heq _ (mem_inner_of_mem_children hc), hl]) ht
  | part hc hl ht _ ih =>
    have hmem := mem_inner_of_mem_children hc
    refine .part hc (by rwa [Passes, heq _ hmem]) ht (ih fun y hy => heq y ?_)
    exact mem_inner_of_descendants (mem_descendants_iff.2 (Or.inr hy)) hmem
  | row hc hl ht => exact .row hc (by rw [heq _ (mem_inner_of_mem_children hc), hl]) ht

theorem CarriesBy.congr (h : CarriesBy s l e c f)
    (heq : ∀ y ∈ c.descendants, l'.get? y.id = l.get? y.id) : CarriesBy s l' e c f := by
  obtain ⟨t, ht, h⟩ := h
  refine ⟨t, ht, ?_⟩
  unfold Passes
  rw [heq c (mem_descendants_self c)]
  rcases h with h | ⟨hl, g, hg, hf⟩ | h
  · exact Or.inl h
  · exact Or.inr (Or.inl ⟨hl, g,
      hg.congr fun y hy => heq y (mem_descendants_iff.2 (Or.inr hy)), hf⟩)
  · exact Or.inr (Or.inr h)

/-- An element that says nothing brings nothing. -/
theorem not_carries_of_void {t : NodeTyping} (ht : typingOf s e = .ok t) (hv : isVoid e t = true) :
    ¬ Carries s l e f := by
  simp only [isVoid, Bool.and_eq_true, List.isEmpty_iff, Option.isNone_iff_eq_none] at hv
  obtain ⟨⟨hattributes, hchildren⟩, htext⟩ := hv
  rw [carries_iff, hchildren]
  rintro (⟨t', ht', hf⟩ | ⟨c, hc, -⟩)
  · rw [ht] at ht'
    cases ht'
    simp [ownFields, hattributes, htext] at hf
  · cases hc

end Carries

/-! ### The fields one after the other -/

/-- The fields that a child brings; `own` are those that it has by itself. -/
def broughtBy (s : Setting) (l : Layout) (parent e : Element) (own : List Field) : List Field :=
  match s.typing.get? e.id, l.get? e.id with
  | some t, some .geometry => [geometryField s.options e t.isOptional]
  | some t, some .inlined | some t, some .empty =>
    own.map (Field.under (keyStep parent e) t.isOptional)
  | some t, some (.table target) => [linkField {} (keyStep parent e) target t t.isOptional]
  | _, _ => []

mutual
/-- The fields that an element brings to its row, as they are found, links without the types of
identifiers. -/
def brought (s : Setting) (l : Layout) : Element → List Field
  | ⟨i, name, attributes, text?, children, scope⟩ =>
    let e : Element := ⟨i, name, attributes, text?, children, scope⟩
    ((s.typing.get? i).map (ownFields e)).getD [] ++ broughtAmong s l e children
def broughtAmong (s : Setting) (l : Layout) (parent : Element) : List Element → List Field
  | [] => []
  | e :: es => broughtBy s l parent e (brought s l e) ++ broughtAmong s l parent es
end

section Brought

variable {s : Setting} {l l' : Layout} {parent e c : Element} {es : List Element} {f : Field}

theorem brought_eq (s : Setting) (l : Layout) (e : Element) : brought s l e =
    ((s.typing.get? e.id).map (ownFields e)).getD [] ++ broughtAmong s l e e.children := by
  cases e
  rw [brought]

theorem broughtAmong_eq (s : Setting) (l : Layout) (parent : Element) (es : List Element) :
    broughtAmong s l parent es = es.flatMap fun e => broughtBy s l parent e (brought s l e) := by
  induction es with
  | nil => rfl
  | cons e es ih => rw [broughtAmong, ih, List.flatMap_cons]

theorem mem_broughtBy_iff (h : ∀ g, g ∈ brought s l c ↔ Carries s l c g) :
    f ∈ broughtBy s l parent c (brought s l c) ↔ CarriesBy s l parent c f := by
  unfold broughtBy CarriesBy Passes
  simp only [typingOf_eq_ok_iff]
  cases ht : s.typing.get? c.id with
  | none => simp
  | some t =>
    cases hl : l.get? c.id with
    | none => simp
    | some p => cases p <;> simp [h, eq_comm]

/-- They are the fields that the element brings by the layout. -/
theorem mem_brought_iff : f ∈ brought s l e ↔ Carries s l e f := by
  induction e using induct_tree generalizing f with
  | h e ih =>
    rw [brought_eq, broughtAmong_eq, List.mem_append, List.mem_flatMap, carries_iff]
    refine or_congr ?_ (exists_congr fun c => and_congr_right fun hc => mem_broughtBy_iff fun g => ih c hc)
    simp only [typingOf_eq_ok_iff]
    cases s.typing.get? e.id <;> simp

theorem brought_congr (heq : ∀ y ∈ e.inner, l'.get? y.id = l.get? y.id) :
    brought s l' e = brought s l e := by
  induction e using induct_tree with
  | h e ih =>
    rw [brought_eq, brought_eq, broughtAmong_eq, broughtAmong_eq]
    congr 1
    refine List.flatMap_congr fun c hc => ?_
    have hinner : ∀ y ∈ c.inner, l'.get? y.id = l.get? y.id := fun y hy =>
      heq y (mem_inner_iff.2 ⟨c, hc, mem_descendants_iff.2 (Or.inr hy)⟩)
    rw [ih c hc hinner, broughtBy, broughtBy, heq c (mem_inner_of_mem_children hc)]

end Brought

/-! ### Collecting -/

section Collect

variable {s : Setting} {name : String} {parent e : Element} {b b' : Building} {fs : List Field}

theorem childFields_brought {c : Element} (hd : c.Distinct)
    (hcollect : ∀ {name b fs b'}, Leads (collect s name c) b fs b' →
      fs.map Field.untyped = brought s b'.layout c)
    (h : Leads (childFields s name parent c fun below => collect s below c) b fs b') :
    fs.map Field.untyped = broughtBy s b'.layout parent c (brought s b'.layout c) := by
  obtain ⟨t, ht, h⟩ := childFields_cases h
  have hself : ∀ p, (b.placed c p).layout.get? c.id = some p := fun p => by
    rw [Building.placed_layout, NodeMap.get?_put, if_pos rfl]
  have htyping := typingOf_eq_ok_iff.1 ht
  rcases h with ⟨rfl, rfl, -⟩ | ⟨hv, rfl, rfl, -⟩ | ⟨-, below, own, hown, rfl, -⟩ |
    ⟨-, target, natural, own, b₁, hown, rfl, rfl, -⟩
  · rw [broughtBy, htyping, hself]
    rfl
  · have hnone : brought s (b.placed c .empty).layout c = [] :=
      List.eq_nil_iff_forall_not_mem.2 fun f hf => not_carries_of_void ht hv (mem_brought_iff.1 hf)
    rw [broughtBy, htyping, hself, hnone]
    rfl
  · rw [broughtBy, htyping, collect_self hd hown, ← hcollect hown]
    simp only [List.map_map]
    exact List.map_congr_left fun f _ => Field.untyped_under _ _ f
  · rw [broughtBy, htyping, Building.extended_layout, collect_self hd hown]
    rfl

theorem collectAmong_brought {es : List Element} (hdistinct : ∀ c ∈ es, c.Distinct)
    (hnodup : ((es.flatMap descendants).map (·.id)).Nodup)
    (hchild : ∀ c ∈ es, ∀ {b fs b'},
      Leads (childFields s name parent c fun below => collect s below c) b fs b' →
      fs.map Field.untyped = broughtBy s b'.layout parent c (brought s b'.layout c))
    (h : Leads (collectAmong s name parent es) b fs b') :
    fs.map Field.untyped = broughtAmong s b'.layout parent es := by
  induction es generalizing b fs with
  | nil =>
    obtain ⟨rfl, -⟩ := leads_collectAmong_nil.1 h
    rfl
  | cons c es ih =>
    obtain ⟨first, b₁, rest, hfirst, hrest, rfl⟩ := leads_collectAmong_cons.1 h
    rw [List.flatMap_cons] at hnodup
    have hsep := collectAmong_separate hdistinct hnodup hfirst hrest
    rw [List.map_append, hchild c List.mem_cons_self hfirst,
      ih (fun d hd => hdistinct d (List.mem_cons_of_mem _ hd)) hsep.nodup
        (fun d hd => hchild d (List.mem_cons_of_mem _ hd)) hrest, broughtAmong]
    congr 1
    rw [broughtBy, broughtBy, hsep.same c (mem_descendants_self c),
      brought_congr fun y hy => hsep.same y (mem_descendants_iff.2 (Or.inr hy))]

/-- Collecting finds what the element brings by the layout in the end. -/
theorem collect_brought (hd : e.Distinct) (h : Leads (collect s name e) b fs b') :
    fs.map Field.untyped = brought s b'.layout e := by
  induction e using induct_tree generalizing name b fs b' with
  | h e ih =>
    obtain ⟨t, rest, ht, hrest, rfl⟩ := leads_collect.1 h
    have hown : (ownFields e t).map Field.untyped = ownFields e t :=
      (List.map_congr_left fun f hf => untyped_own hf).trans (List.map_id _)
    rw [brought_eq, typingOf_eq_ok_iff.1 ht, List.map_append, hown,
      collectAmong_brought (fun c hc => hd.child hc) hd.nodup_inner
        (fun c hc => childFields_brought (hd.child hc) (ih c hc (hd.child hc))) hrest]
    rfl

/-- The fields that are collected are those that the element brings by the layout in the end. -/
theorem collect_carries (hd : e.Distinct) (h : Leads (collect s name e) b fs b') (f : Field) :
    Carries s b'.layout e f ↔ f ∈ fs.map Field.untyped := by
  rw [collect_brought hd h, mem_brought_iff]

end Collect

end Layout

end FeatureTables
