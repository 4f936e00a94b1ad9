import FeatureTables.Proofs.Layout.Linked
import FeatureTables.Proofs.Layout.Steps

/-!
Where building places the elements of a document. Collecting the fields of an element places elements
inside of it and no others, and below rows and parts of rows only (`collect_lays`); the root is a row
or says nothing at all (`build_places`).
-/

namespace FeatureTables.Layout

open Xml Element

/-! ### Layouts of subtrees -/

/-- The layouts agree but for these elements. -/
def AgreeOutside (es : List Element) (l l' : Layout) : Prop :=
  ∀ i, (∀ x ∈ es, x.id ≠ i) → l'.get? i = l.get? i

section Layouts

variable {l l' l₁ : Layout} {e : Element} {es fs : List Element}

theorem AgreeOutside.refl (es : List Element) (l : Layout) : AgreeOutside es l l := fun _ _ => rfl

theorem AgreeOutside.append (h : AgreeOutside es l l₁) (h' : AgreeOutside fs l₁ l') :
    AgreeOutside (es ++ fs) l l' := by
  intro i hi
  rw [h' i fun x hx => hi x (List.mem_append_right _ hx),
    h i fun x hx => hi x (List.mem_append_left _ hx)]

/-- Elements apart from those where the layouts differ are placed alike. -/
theorem AgreeOutside.eq_of_nodup (h : AgreeOutside fs l l')
    (hnodup : ((es ++ fs).map (·.id)).Nodup) {x : Element} (hx : x ∈ es) :
    l'.get? x.id = l.get? x.id := by
  rw [List.map_append] at hnodup
  exact h x.id fun y hy hid =>
    List.disjoint_of_nodup_append hnodup (List.mem_map_of_mem hx) (hid ▸ List.mem_map_of_mem hy)

theorem Connected.congr (h : Connected l e) (heq : ∀ x ∈ e.descendants, l'.get? x.id = l.get? x.id) :
    Connected l' e := by
  intro y hy c hc hplaced
  have hcmem : c ∈ e.descendants :=
    mem_descendants_iff.2 (Or.inr (mem_inner_of_inner (mem_inner_of_mem_children hc) hy))
  unfold Passes
  rw [heq y hy]
  exact h y hy c hc (heq c hcmem ▸ hplaced)

theorem Connected.of_children (hopens : (∃ name, l.get? e.id = some (.table name)) ∨ Passes l e)
    (h : ∀ c ∈ e.children, Connected l c) : Connected l e := by
  intro y hy d hd hplaced
  rcases mem_descendants_iff.1 hy with rfl | hy
  · exact hopens
  · obtain ⟨c, hc, hy⟩ := mem_inner_iff.1 hy
    exact h c hc y hy d hd hplaced

theorem Connected.of_none (h : ∀ x ∈ e.inner, l.get? x.id = none) : Connected l e := by
  intro y hy c hc hplaced
  rw [h c (mem_inner_of_inner (mem_inner_of_mem_children hc) hy)] at hplaced
  cases hplaced

end Layouts

/-! ### What building places -/

/-- The layout after building an element: only what is inside of it has been placed, and the ways to
rows lead through rows and parts of rows. -/
structure Lays (e : Element) (l l' : Layout) : Prop where
  frame : AgreeOutside e.inner l l'
  connected : ((∃ name, l.get? e.id = some (.table name)) ∨ Passes l e) →
    (∀ x ∈ e.inner, l.get? x.id = none) → Connected l' e

/-- The layout after building a child, and its place with it. -/
structure LaysChild (c : Element) (l l' : Layout) : Prop where
  frame : AgreeOutside c.descendants l l'
  connected : (∀ x ∈ c.descendants, l.get? x.id = none) → Connected l' c

section Lays

variable {l l' : Layout} {c e : Element}

theorem inner_put (hd : c.Distinct) (hnone : ∀ x ∈ c.descendants, l.get? x.id = none) (p : Placement) :
    ∀ x ∈ c.inner, (l.put c.id p).get? x.id = none := by
  intro x hx
  rw [NodeMap.get?_put, if_neg (hd.id_ne hx)]
  exact hnone x (mem_descendants_iff.2 (Or.inr hx))

theorem agree_put (l : Layout) (c : Element) (p : Placement) :
    AgreeOutside [c] l (l.put c.id p) := by
  intro i hi
  rw [NodeMap.get?_put, if_neg fun h => hi c (List.mem_singleton_self c) h.symm]

/-- A row or a part of one, with what is inside of it. -/
theorem Lays.child {p : Placement} (h : Lays c (l.put c.id p) l') (hd : c.Distinct)
    (hp : (∃ name, p = .table name) ∨ p = .inlined) : LaysChild c l l' where
  frame := by
    rw [descendants_eq_inner]
    exact (agree_put l c p).append h.frame
  connected hnone := by
    refine h.connected ?_ (inner_put hd hnone p)
    unfold Passes
    rw [NodeMap.get?_put, if_pos rfl]
    rcases hp with ⟨name, rfl⟩ | rfl
    · exact Or.inl ⟨name, rfl⟩
    · exact Or.inr (Or.inl rfl)

/-- A child with nothing placed inside of it. -/
theorem laysChild_put (hd : c.Distinct) (p : Placement) : LaysChild c l (l.put c.id p) where
  frame := by
    rw [descendants_eq_inner]
    exact (agree_put l c p).append (AgreeOutside.refl c.inner _)
  connected hnone := .of_none (inner_put hd hnone p)

end Lays

section Building

variable {s : Setting} {name : String} {parent e : Element} {b b' : Building} {fs : List Field}

theorem childFields_lays {c : Element} (hd : c.Distinct)
    (hcollect : ∀ {name b fs b'}, Leads (collect s name c) b fs b' → Lays c b.layout b'.layout)
    (h : Leads (childFields s name parent c fun below => collect s below c) b fs b') :
    LaysChild c b.layout b'.layout := by
  obtain ⟨t, -, h⟩ := childFields_cases h
  rcases h with ⟨rfl, -⟩ | ⟨-, rfl, -⟩ | ⟨-, below, own, hown, -⟩ |
    ⟨-, target, natural, own, b₁, hown, rfl, -⟩
  · exact laysChild_put hd .geometry
  · exact laysChild_put hd .empty
  · exact (hcollect hown).child hd (Or.inr rfl)
  · have := hcollect hown
    rw [Building.placed_layout, Building.started_layout] at this
    exact this.child hd (Or.inl ⟨target, rfl⟩)

theorem collectAmong_lays {es : List Element}
    (hchild : ∀ c ∈ es, ∀ {b fs b'},
      Leads (childFields s name parent c fun below => collect s below c) b fs b' →
      LaysChild c b.layout b'.layout)
    (hnodup : ((es.flatMap descendants).map (·.id)).Nodup)
    (h : Leads (collectAmong s name parent es) b fs b') :
    AgreeOutside (es.flatMap descendants) b.layout b'.layout ∧
      ((∀ x ∈ es.flatMap descendants, b.layout.get? x.id = none) →
        ∀ c ∈ es, Connected b'.layout c) := by
  induction es generalizing b fs with
  | nil =>
    obtain ⟨-, rfl⟩ := leads_collectAmong_nil.1 h
    exact ⟨.refl _ _, fun _ c hc => by cases hc⟩
  | cons c es ih =>
    obtain ⟨first, b₁, rest, hfirst, hrest, -⟩ := leads_collectAmong_cons.1 h
    rw [List.flatMap_cons] at hnodup ⊢
    obtain ⟨hframe, hconnected⟩ := hchild c List.mem_cons_self hfirst
    have htail : ((es.flatMap descendants).map (·.id)).Nodup :=
      hnodup.sublist ((List.sublist_append_right _ _).map _)
    obtain ⟨hframe', hconnected'⟩ :=
      ih (fun d hd => hchild d (List.mem_cons_of_mem _ hd)) htail hrest
    refine ⟨hframe.append hframe', fun hnone => List.forall_mem_cons.2 ⟨?_, hconnected' ?_⟩⟩
    · exact (hconnected fun x hx => hnone x (List.mem_append_left _ hx)).congr
        fun x hx => hframe'.eq_of_nodup hnodup hx
    · intro x hx
      have hnodup' : ((es.flatMap descendants ++ c.descendants).map (·.id)).Nodup :=
        (List.perm_append_comm.map _).nodup hnodup
      rw [hframe.eq_of_nodup hnodup' hx]
      exact hnone x (List.mem_append_right _ hx)

/-- Collecting places elements inside of the element only, below rows and parts of rows. -/
theorem collect_lays (hd : e.Distinct) (h : Leads (collect s name e) b fs b') :
    Lays e b.layout b'.layout := by
  induction e using induct_tree generalizing name b fs b' with
  | h e ih =>
    obtain ⟨t, rest, -, hrest, -⟩ := leads_collect.1 h
    obtain ⟨hframe, hconnected⟩ := collectAmong_lays (fun c hc => childFields_lays (hd.child hc)
      fun h => ih c hc (hd.child hc) h) hd.nodup_inner hrest
    refine ⟨hframe, fun hopens hnone => .of_children ?_ (hconnected hnone)⟩
    have hself : b'.layout.get? e.id = b.layout.get? e.id :=
      hframe e.id fun x hx => hd.id_ne hx
    unfold Passes
    rw [hself]
    exact hopens

/-- An element keeps the place that it got before what is inside of it. -/
theorem collect_self {p : Placement} (hd : e.Distinct)
    (h : Leads (collect s name e) (b.placed e p) fs b') : b'.layout.get? e.id = some p := by
  rw [(collect_lays hd h).frame e.id fun x hx => hd.id_ne hx, Building.placed_layout,
    NodeMap.get?_put, if_pos rfl]

/-- A child and its later siblings, built one after the other, place nothing in each other. -/
structure Separate (c : Element) (es : List Element) (b b₁ b' : Building) : Prop where
  nodup : ((es.flatMap descendants).map (·.id)).Nodup
  fresh : (∀ x ∈ c.descendants ++ es.flatMap descendants, b.layout.get? x.id = none) →
    ∀ x ∈ es.flatMap descendants, b₁.layout.get? x.id = none
  same : ∀ x ∈ c.descendants, b'.layout.get? x.id = b₁.layout.get? x.id

theorem collectAmong_separate {c : Element} {es : List Element} {b₁ : Building} {rest : List Field}
    (hdistinct : ∀ d ∈ c :: es, d.Distinct)
    (hnodup : ((c.descendants ++ es.flatMap descendants).map (·.id)).Nodup)
    (hfirst : Leads (childFields s name parent c fun below => collect s below c) b fs b₁)
    (hrest : Leads (collectAmong s name parent es) b₁ rest b') : Separate c es b b₁ b' := by
  have hlays : ∀ d ∈ c :: es, ∀ {b b' : Building} {fs : List Field},
      Leads (childFields s name parent d fun below => collect s below d) b fs b' →
      LaysChild d b.layout b'.layout := fun d hd {b b' fs} h =>
    childFields_lays (hdistinct d hd) (fun h => collect_lays (hdistinct d hd) h) h
  have htail : ((es.flatMap descendants).map (·.id)).Nodup :=
    hnodup.sublist ((List.sublist_append_right _ _).map _)
  have hnodup' : ((es.flatMap descendants ++ c.descendants).map (·.id)).Nodup :=
    (List.perm_append_comm.map _).nodup hnodup
  refine ⟨htail, fun hnone x hx => ?_, fun x hx => ?_⟩
  · rw [(hlays c List.mem_cons_self hfirst).frame.eq_of_nodup hnodup' hx]
    exact hnone x (List.mem_append_right _ hx)
  · exact (collectAmong_lays (fun d hd => hlays d (List.mem_cons_of_mem _ hd)) htail
      hrest).1.eq_of_nodup hnodup hx

end Building

/-- The root is a row under its own name, or says nothing. -/
theorem build_root_eq {s : Setting} {m : Model} {root : Element} {o : Outcome} (hd : root.Distinct)
    (h : build s m root = .ok o) : ∃ t, typingOf s root = .ok t ∧
      o.layout.get? root.id = some (if isVoid root t then .empty else .table root.localName) := by
  obtain ⟨b, hb, hlayout, -⟩ := build_eq_ok_iff.1 h
  obtain ⟨t, ht, hcases⟩ := buildTable_cases hb
  refine ⟨t, ht, ?_⟩
  rw [hlayout]
  rcases hcases with ⟨hv, -, rfl⟩ | ⟨hv, -, fs, b₁, hcollect, rfl⟩
  · rw [if_pos hv, Building.placed_layout, NodeMap.get?_put, if_pos rfl]
  · rw [if_neg (by simp [hv]), Building.extended_layout, collect_self hd hcollect]

/-- The places of a document: those of the root, and of what is inside of it. -/
structure Places (l : Layout) (root : Element) (rootTable? : Option String) : Prop where
  connected : Connected l root
  table : ∀ name, rootTable? = some name → l.get? root.id = some (.table name)
  nothing : rootTable? = none → ∀ x ∈ root.descendants, ∀ name, l.get? x.id ≠ some (.table name)

theorem build_places {s : Setting} {m : Model} {root : Element} {o : Outcome} (hd : root.Distinct)
    (h : build s m root = .ok o) : Places o.layout root o.rootTable? := by
  obtain ⟨b, hb, hlayout, -⟩ := build_eq_ok_iff.1 h
  rw [hlayout]
  obtain ⟨t, -, ⟨hvoid, hnone, rfl⟩ | ⟨-, hsome, fs, b₁, hcollect, rfl⟩⟩ := buildTable_cases hb
  · have hchildren : root.children = [] := by
      simp only [isVoid, Bool.and_eq_true, List.isEmpty_iff] at hvoid
      exact hvoid.1.2
    have hself : (({ model := m } : Building).placed root .empty).layout.get? root.id =
        some .empty := by
      rw [Building.placed_layout, NodeMap.get?_put, if_pos rfl]
    refine ⟨.of_none fun x hx => ?_, fun name hname => ?_, fun _ x hx name => ?_⟩
    · rw [Element.inner, hchildren] at hx
      cases hx
    · rw [hnone] at hname
      cases hname
    · rw [descendants_eq_inner, Element.inner, hchildren] at hx
      rw [List.mem_singleton.1 hx, hself]
      exact fun h => by cases h
  · rw [Building.extended_layout]
    have hroot := collect_self hd hcollect
    have hlays := collect_lays hd hcollect
    rw [Building.placed_layout, Building.started_layout] at hlays
    obtain ⟨-, hconnected⟩ := hlays.child hd (Or.inl ⟨_, rfl⟩)
    refine ⟨hconnected fun x _ => rfl, fun name hname => ?_, fun hnone => ?_⟩
    · rw [hsome] at hname
      cases hname
      exact hroot
    · rw [hsome] at hnone
      cases hnone

end FeatureTables.Layout
