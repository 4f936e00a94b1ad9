import FeatureTables.Proofs.Layout.Provenance
import FeatureTables.Proofs.Typing

/-!
Which elements of a document are typed and which are placed: in both cases those that are not inside of
a geometry (`Typing.Reaching.isSome_iff`, `build_covers`). So building finds the typing of each element
that it comes to, unless it goes into a geometry; and it does so for the root only (`build_ok_iff`).
-/

namespace FeatureTables

open Schema Xml Element

/-! ### Typed elements -/

namespace Typing

/-- The typing says of an element that it is a geometry. -/
def HasGeometry (typing : Typing) (e : Element) : Prop :=
  ∃ t, typing.get? e.id = some t ∧ t.isGeometry = true

/-- An element stands inside of a geometry of the tree. -/
def InGeometry (typing : Typing) (e x : Element) : Prop :=
  ∃ g ∈ e.descendants, typing.HasGeometry g ∧ x ∈ g.inner

/-- A child is typed if its parent is, and is no geometry. -/
def Reaching (typing : Typing) (e : Element) : Prop :=
  ∀ w ∈ e.descendants, ∀ d ∈ w.children, (typing.get? d.id).isSome = true ↔
    ∃ t, typing.get? w.id = some t ∧ t.isGeometry = false

section Reaching

variable {c : Catalog} {typing typing' : Typing} {found : Catalog.ChildMatch} {e x : Element}

theorem Reaching.congr (h : typing.Reaching e)
    (heq : ∀ y ∈ e.descendants, typing'.get? y.id = typing.get? y.id) : typing'.Reaching e := by
  intro w hw d hd
  rw [heq w hw, heq d (mem_descendants_trans (mem_descendants_iff.2
    (Or.inr (mem_inner_of_mem_children hd))) hw)]
  exact h w hw d hd

theorem Reaching.child (h : typing.Reaching e) {d : Element} (hd : d ∈ e.children) :
    typing.Reaching d :=
  fun w hw => h w (mem_descendants_trans hw
    (mem_descendants_iff.2 (Or.inr (mem_inner_of_mem_children hd))))

theorem addChildren_reaching {parent : QName} {type : TypeDef} {es : List Element}
    (hnodup : ((es.flatMap descendants).map (·.id)).Nodup) (hdistinct : ∀ d ∈ es, d.Distinct)
    (hnode : ∀ d ∈ es, ∀ {found typing typing'}, (∀ y ∈ d.descendants, typing.get? y.id = none) →
      addNode c found typing d = .ok typing' → typing'.Reaching d)
    (hnone : ∀ y ∈ es.flatMap descendants, typing.get? y.id = none)
    (h : addChildren c parent type typing es = .ok typing') : ∀ d ∈ es, typing'.Reaching d := by
  induction es generalizing typing with
  | nil => exact fun d hd => by cases hd
  | cons d es ih =>
    simp only [addChildren, bind_eq_ok_iff] at h
    obtain ⟨found, -, typing₁, hd, h⟩ := h
    rw [List.flatMap_cons] at hnodup hnone
    have htail : ((es.flatMap descendants).map (·.id)).Nodup :=
      hnodup.sublist ((List.sublist_append_right _ _).map _)
    have htypes := addNode_types (hdistinct d List.mem_cons_self) hd
    obtain ⟨hframe, -, -⟩ := addChildren_types htail
      (fun x hx => addNode_types (hdistinct x (List.mem_cons_of_mem _ hx))) h
    -- the subtree of the first child and those of the others have no number in common
    rw [List.map_append] at hnodup
    have hdisjoint : ∀ x ∈ d.descendants, ∀ y ∈ es.flatMap descendants, y.id ≠ x.id := by
      intro x hx y hy hid
      exact List.disjoint_of_nodup_append hnodup (List.mem_map_of_mem hx)
        (hid ▸ List.mem_map_of_mem hy)
    refine List.forall_mem_cons.2 ⟨?_, ih htail (fun x hx => hdistinct x (List.mem_cons_of_mem _ hx))
      (fun x hx => hnode x (List.mem_cons_of_mem _ hx)) (fun y hy => ?_) h⟩
    · exact (hnode d List.mem_cons_self (fun y hy => hnone y (List.mem_append_left _ hy)) hd).congr
        fun x hx => hframe x.id (hdisjoint x hx)
    · rw [htypes.frame y.id fun x hx hid => hdisjoint x hx y hy hid.symm]
      exact hnone y (List.mem_append_right _ hy)

theorem addNode_reaching (hd : e.Distinct) (hnone : ∀ y ∈ e.descendants, typing.get? y.id = none)
    (h : addNode c found typing e = .ok typing') : typing'.Reaching e := by
  induction e using induct_tree generalizing found typing typing' with
  | h e ih =>
    have hself := (addNode_types hd h).self
    rw [addNode_eq, bind_eq_ok_iff] at h
    obtain ⟨t, -, h⟩ := h
    have hinner : ∀ y ∈ e.inner, (typing.put e.id t).get? y.id = none := by
      intro y hy
      rw [NodeMap.get?_put, if_neg (hd.id_ne hy)]
      exact hnone y (mem_descendants_iff.2 (Or.inr hy))
    have hput : (typing.put e.id t).get? e.id = some t := by rw [NodeMap.get?_put, if_pos rfl]
    cases hg : t.isGeometry with
    | true =>
      rw [hg, if_pos rfl] at h
      obtain rfl := Except.ok.inj h
      intro w hw d hdw
      rw [hinner d (mem_inner_of_inner (mem_inner_of_mem_children hdw) hw)]
      refine iff_of_false (by simp) ?_
      rintro ⟨tw, htw, hgw⟩
      rcases mem_descendants_iff.1 hw with rfl | hw
      · rw [hput] at htw
        cases htw
        rw [hg] at hgw
        cases hgw
      · rw [hinner w hw] at htw
        cases htw
    | false =>
      rw [hg, if_neg Bool.false_ne_true] at h
      have hreaching := addChildren_reaching hd.nodup_inner (fun d hdc => hd.child hdc)
        (fun d hdc _ _ _ hnone h => ih d hdc (hd.child hdc) hnone h) hinner h
      obtain ⟨hframe, hchildren, -⟩ := addChildren_types hd.nodup_inner
        (fun d hdc => addNode_types (hd.child hdc)) h
      have ht : typing'.get? e.id = some t := by
        rw [hframe e.id fun y hy => hd.id_ne hy, hput]
      intro w hw d hdw
      rcases mem_descendants_iff.1 hw with rfl | hw
      · obtain ⟨-, td, -, htd, -⟩ := hchildren d hdw
        exact ⟨fun _ => ⟨t, ht, hg⟩, fun _ => by rw [htd]; rfl⟩
      · obtain ⟨child, hchild, hw⟩ := mem_inner_iff.1 hw
        exact hreaching child hchild w hw d hdw

/-- Nothing is typed below an element that is not typed itself, or is a geometry. -/
theorem Reaching.eq_none (h : typing.Reaching e)
    (hself : ∀ t, typing.get? e.id = some t → t.isGeometry = true) (hx : x ∈ e.inner) :
    typing.get? x.id = none := by
  induction e using induct_tree with
  | h e ih =>
    obtain ⟨d, hd, hx⟩ := mem_inner_iff.1 hx
    have hnone : typing.get? d.id = none := by
      by_contra hne
      obtain ⟨t, ht, hg⟩ :=
        (h e (mem_descendants_self e) d hd).1 (Option.isSome_iff_ne_none.2 hne)
      rw [hself t ht] at hg
      cases hg
    rcases mem_descendants_iff.1 hx with rfl | hx
    · exact hnone
    · exact ih d hd (h.child hd) (fun t ht => by rw [hnone] at ht; cases ht) hx

/-- An element is typed unless it stands inside of a geometry. -/
theorem Reaching.isSome_iff (h : typing.Reaching e) (hd : e.Distinct)
    (hself : (typing.get? e.id).isSome = true) (hx : x ∈ e.descendants) :
    (typing.get? x.id).isSome = true ↔ ¬ typing.InGeometry e x := by
  induction e using induct_tree with
  | h e ih =>
    rcases mem_descendants_iff.1 hx with rfl | hx
    · refine iff_of_true hself ?_
      rintro ⟨g, hg, -, hx⟩
      exact hd.asymm (mem_descendants_self x) hx hg
    · obtain ⟨d, hdc, hxd⟩ := mem_inner_iff.1 hx
      obtain ⟨t, ht⟩ := Option.isSome_iff_exists.1 hself
      cases hg : t.isGeometry with
      | true =>
        rw [h.eq_none (fun t' ht' => by rw [ht] at ht'; cases ht'; exact hg) hx]
        refine iff_of_false (by simp) fun hno => hno ?_
        exact ⟨e, mem_descendants_self e, ⟨t, ht, hg⟩, hx⟩
      | false =>
        have hchild := (h e (mem_descendants_self e) d hdc).2 ⟨t, ht, hg⟩
        rw [ih d hdc (h.child hdc) (hd.child hdc) hchild hxd]
        refine not_congr ⟨?_, ?_⟩
        · rintro ⟨g, hgd, hgeometry, hxg⟩
          exact ⟨g, mem_descendants_iff.2 (Or.inr (mem_inner_iff.2 ⟨d, hdc, hgd⟩)), hgeometry, hxg⟩
        · rintro ⟨g, hge, hgeometry, hxg⟩
          rcases mem_descendants_iff.1 hge with rfl | hge
          · obtain ⟨t', ht', hg'⟩ := hgeometry
            rw [ht] at ht'
            cases ht'
            rw [hg] at hg'
            cases hg'
          · obtain ⟨d', hdc', hgd⟩ := mem_inner_iff.1 hge
            have hxd' := mem_descendants_trans (mem_descendants_iff.2 (Or.inr hxg)) hgd
            obtain rfl := hd.eq_child hdc hdc' hxd hxd'
            exact ⟨g, hgd, hgeometry, hxg⟩

/-- The typing of a document types its elements, and nothing else, as far as it reaches. -/
theorem ofRoot_reaching {root : Element} (hd : root.Distinct) (h : ofRoot c root = .ok typing) :
    (typing.get? root.id).isSome = true ∧ typing.Reaching root ∧
      ∀ i, (typing.get? i).isSome = true → ∃ x ∈ root.descendants, x.id = i := by
  unfold ofRoot at h
  cases hdecl : c.elements.get? root.name with
  | none =>
    rw [hdecl] at h
    cases h
  | some decl =>
    rw [hdecl] at h
    have htypes := addNode_types hd h
    obtain ⟨t, ht, -⟩ := htypes.self
    refine ⟨by rw [ht]; rfl, addNode_reaching hd (fun _ _ => rfl) h, fun i hi => ?_⟩
    by_contra hno
    rw [htypes.frame i fun y hy hid => hno ⟨y, hy, hid⟩] at hi
    cases hi

end Reaching

end Typing

namespace Layout

/-! ### Building that succeeds -/

section Total

variable {s : Setting} {m : Model} {name : String} {parent e : Element} {b : Building}

theorem typingOf_ok (h : (s.typing.get? e.id).isSome = true) : ∃ t, typingOf s e = .ok t := by
  obtain ⟨t, ht⟩ := Option.isSome_iff_exists.1 h
  exact ⟨t, typingOf_eq_ok_iff.2 ht⟩

theorem inlineCostAmong_ok (name : String) (parent : Element) {es : List Element} (cost : Cost)
    (hes : ∀ d ∈ es, (s.typing.get? d.id).isSome = true)
    (hnode : ∀ d ∈ es, ∀ name, ∃ r, inlineCost? s m name d = .ok r) :
    ∃ r, inlineCostAmong s m name parent cost es = .ok r := by
  induction es generalizing cost with
  | nil => exact ⟨cost, rfl⟩
  | cons d es ih =>
    obtain ⟨t, ht⟩ := typingOf_ok (hes d List.mem_cons_self)
    have hchild : ∃ r, childCost s name parent d (fun below => inlineCost? s m below d) cost =
        .ok r := by
      unfold childCost
      rw [ht]
      obtain ⟨r, hr⟩ := hnode d List.mem_cons_self (name ++ "_" ++ stepName (keyStep parent d))
      simp only [bind, Except.bind, hr]
      repeat' split
      all_goals exact ⟨_, rfl⟩
    obtain ⟨cost₁, hcost₁⟩ := hchild
    obtain ⟨r, hr⟩ := ih cost₁ (fun x hx => hes x (List.mem_cons_of_mem _ hx))
      fun x hx => hnode x (List.mem_cons_of_mem _ hx)
    refine ⟨r, ?_⟩
    rw [inlineCostAmong, hcost₁]
    exact hr

/-- The cost of a typed element can be told. -/
theorem inlineCost?_ok (h : s.typing.Reaching e) (he : (s.typing.get? e.id).isSome = true)
    (name : String) : ∃ r, inlineCost? s m name e = .ok r := by
  induction e using induct_tree generalizing name with
  | h e ih =>
    obtain ⟨t, ht⟩ := typingOf_ok he
    obtain ⟨id, qname, attributes, text?, children, scope⟩ := e
    rw [inlineCost?, ht]
    simp only [bind, Except.bind]
    split
    · exact ⟨none, rfl⟩
    · rename_i hinline
      have hg : t.isGeometry = false := by
        cases hg : t.isGeometry with
        | false => rfl
        | true => simp [hg] at hinline
      have hchildren : ∀ d ∈ children, (s.typing.get? d.id).isSome = true := fun d hd =>
        (h _ (mem_descendants_self _) d hd).2 ⟨t, typingOf_eq_ok_iff.1 ht, hg⟩
      obtain ⟨r, hr⟩ := inlineCostAmong_ok (m := m) name ⟨id, qname, attributes, text?, children, scope⟩
        ⟨1, t.attributes.size + if t.isSimple && text?.isSome then 1 else 0⟩ hchildren
        fun d hd name => ih d hd (h.child hd) (hchildren d hd) name
      rw [hr]
      exact ⟨some r, rfl⟩

theorem isInlined_ok (name : String) (t : NodeTyping) (h : s.typing.Reaching e)
    (he : (s.typing.get? e.id).isSome = true) : ∃ r, isInlined s m name e t = .ok r := by
  unfold isInlined
  obtain ⟨r, hr⟩ := inlineCost?_ok (m := m) h he name
  rw [hr]
  split
  · exact ⟨false, rfl⟩
  · split
    · exact ⟨true, rfl⟩
    · exact ⟨_, rfl⟩

/-- A row can be built if its fields can be collected. -/
theorem buildTable_total (name : String) {fields : BuildM (List Field)} {t : NodeTyping}
    (ht : typingOf s e = .ok t)
    (hfields : isVoid e t = false → ∀ b, ∃ fs b', Leads fields b fs b') :
    ∃ r b', Leads (buildTable s e name fields) b r b' := by
  simp only [buildTable, leads_bind, leads_lift]
  cases hv : isVoid e t with
  | true =>
    refine ⟨none, b.placed e .empty, t, b, ⟨ht, rfl⟩, ?_⟩
    simp only [hv, if_true, leads_bind, leads_place, leads_pure]
    exact ⟨(), _, rfl, trivial, rfl⟩
  | false =>
    obtain ⟨fs, b', hfs⟩ := hfields hv ((b.started name (hasNaturalId e t)).placed e (.table name))
    refine ⟨some name, b'.extended name fs, t, b, ⟨ht, rfl⟩, ?_⟩
    simp only [hv, Bool.false_eq_true, if_false, leads_bind, leads_startTable, leads_place,
      leads_addFields, leads_pure]
    exact ⟨(), _, rfl, (), _, rfl, fs, b', hfs, (), _, rfl, trivial, rfl⟩

theorem linkChild_total {t : NodeTyping} (step target : String) (optional : Bool)
    {fields : BuildM (List Field)} (ht : typingOf s e = .ok t)
    (hfields : ∀ b, ∃ fs b', Leads fields b fs b') :
    ∃ fs b', Leads (linkChild s e t step target optional fields) b fs b' := by
  obtain ⟨r, b', hr⟩ := buildTable_total (b := b) target ht fun _ b => hfields b
  simp only [linkChild, leads_bind]
  cases r with
  | none => exact ⟨[], b', none, b', hr, leads_pure.2 ⟨rfl, rfl⟩⟩
  | some made => exact ⟨_, b', some made, b', hr, leads_bind.2 ⟨b', b', leads_get.2 ⟨rfl, rfl⟩,
      leads_pure.2 ⟨rfl, rfl⟩⟩⟩

theorem childFields_total (name : String) (parent : Element) (h : s.typing.Reaching e)
    (he : (s.typing.get? e.id).isSome = true)
    (hfields : ∀ t, typingOf s e = .ok t → t.isGeometry = false →
      ∀ name b, ∃ fs b', Leads (collect s name e) b fs b') :
    ∃ fs b', Leads (childFields s name parent e fun below => collect s below e) b fs b' := by
  obtain ⟨t, ht⟩ := typingOf_ok he
  simp only [childFields, leads_bind, leads_lift]
  cases hg : t.isGeometry with
  | true =>
    refine ⟨[geometryField s.options e t.isOptional], b.placed e .geometry, t, b, ⟨ht, rfl⟩, ?_⟩
    simp only [hg, if_true, leads_bind, leads_place, leads_pure]
    exact ⟨(), _, rfl, rfl, rfl⟩
  | false =>
  cases hv : isVoid e t with
  | true =>
    refine ⟨[], b.placed e .empty, t, b, ⟨ht, rfl⟩, ?_⟩
    simp only [hg, hv, Bool.false_eq_true, if_false, if_true, leads_bind, leads_place, leads_pure]
    exact ⟨(), _, rfl, trivial, rfl⟩
  | false =>
    have hcollect := hfields t ht hg
    obtain ⟨inlined, hinlined⟩ := isInlined_ok (m := b.model)
      (name ++ "_" ++ stepName (keyStep parent e)) t h he
    cases inlined with
    | true =>
      obtain ⟨own, b', hown⟩ := hcollect (name ++ "_" ++ stepName (keyStep parent e))
        (b.placed e .inlined)
      refine ⟨own.map (Field.under (keyStep parent e) t.isOptional), b', t, b, ⟨ht, rfl⟩, ?_⟩
      simp only [hg, hv, Bool.false_eq_true, if_false, leads_bind, leads_get, leads_lift]
      refine ⟨b, b, ⟨rfl, rfl⟩, true, b, ⟨hinlined, rfl⟩, ?_⟩
      simp only [if_true, inlineChild, leads_bind, leads_place, leads_pure]
      exact ⟨(), _, rfl, own, b', hown, rfl, rfl⟩
    | false =>
      obtain ⟨fs, b', hfs⟩ := linkChild_total (b := b) (keyStep parent e)
        (if hasNaturalId e t then stepName (keyStep parent e)
          else name ++ "_" ++ stepName (keyStep parent e)) t.isOptional ht (hcollect _)
      refine ⟨fs, b', t, b, ⟨ht, rfl⟩, ?_⟩
      simp only [hg, hv, Bool.false_eq_true, if_false, leads_bind, leads_get, leads_lift]
      refine ⟨b, b, ⟨rfl, rfl⟩, false, b, ⟨hinlined, rfl⟩, ?_⟩
      simp only [Bool.false_eq_true, if_false]
      exact hfs

theorem collectAmong_total (name : String) (parent : Element) {es : List Element}
    (hreaching : ∀ d ∈ es, s.typing.Reaching d)
    (htyped : ∀ d ∈ es, (s.typing.get? d.id).isSome = true)
    (hcollect : ∀ d ∈ es, ∀ t, typingOf s d = .ok t → t.isGeometry = false →
      ∀ name b, ∃ fs b', Leads (collect s name d) b fs b') :
    ∃ fs b', Leads (collectAmong s name parent es) b fs b' := by
  induction es generalizing b with
  | nil => exact ⟨[], b, leads_collectAmong_nil.2 ⟨rfl, rfl⟩⟩
  | cons d es ih =>
    obtain ⟨first, b₁, hfirst⟩ := childFields_total (b := b) name parent
      (hreaching d List.mem_cons_self) (htyped d List.mem_cons_self) (hcollect d List.mem_cons_self)
    obtain ⟨rest, b', hrest⟩ := ih (b := b₁) (fun x hx => hreaching x (List.mem_cons_of_mem _ hx))
      (fun x hx => htyped x (List.mem_cons_of_mem _ hx))
      fun x hx => hcollect x (List.mem_cons_of_mem _ hx)
    exact ⟨_, b', leads_collectAmong_cons.2 ⟨first, b₁, rest, hfirst, hrest, rfl⟩⟩

/-- The fields of an element that is typed and no geometry can be collected. -/
theorem collect_total (h : s.typing.Reaching e) {t : NodeTyping} (ht : typingOf s e = .ok t)
    (hg : t.isGeometry = false) (name : String) (b : Building) :
    ∃ fs b', Leads (collect s name e) b fs b' := by
  induction e using induct_tree generalizing t name b with
  | h e ih =>
    obtain ⟨rest, b', hrest⟩ := collectAmong_total (b := b) name e
      (fun d hd => h.child hd)
      (fun d hd => (h e (mem_descendants_self e) d hd).2 ⟨t, typingOf_eq_ok_iff.1 ht, hg⟩)
      fun d hd td htd hgd name b => ih d hd (h.child hd) htd hgd name b
    exact ⟨_, b', leads_collect.2 ⟨t, rest, ht, hrest, rfl⟩⟩

end Total

/-! ### Placed elements -/

/-- The element is placed. -/
def Placed (l : Layout) (e : Element) : Prop := (l.get? e.id).isSome = true

theorem kept_placed (s : Setting) : Kept s fun b b' => ∀ x, Placed b.layout x → Placed b'.layout x where
  refl b x hx := hx
  trans h h' x hx := h' x (h x hx)
  placed b e p t _ _ x hx := by
    unfold Placed at hx ⊢
    rw [Building.placed_layout, NodeMap.get?_put]
    split
    · rfl
    · exact hx
  started b name natural x hx := by
    rw [Building.started_layout]
    exact hx
  extended b name fields x hx := hx

section Placed

variable {s : Setting} {name : String} {parent e : Element} {b b' : Building} {fs : List Field}

theorem placed_self (b : Building) (e : Element) (p : Placement) : Placed (b.placed e p).layout e := by
  unfold Placed
  rw [Building.placed_layout, NodeMap.get?_put, if_pos rfl]
  rfl

theorem childFields_placed (h : s.typing.Reaching e)
    (hcollect : ∀ {name b fs b'}, (∃ t, typingOf s e = .ok t ∧ t.isGeometry = false) →
      Leads (collect s name e) b fs b' →
      ∀ x ∈ e.inner, (s.typing.get? x.id).isSome = true → Placed b'.layout x)
    (hb : Leads (childFields s name parent e fun below => collect s below e) b fs b') :
    ∀ x ∈ e.descendants, (s.typing.get? x.id).isSome = true → Placed b'.layout x := by
  intro x hx htyped
  obtain ⟨t, ht, hcases⟩ := childFields_cases hb
  rcases mem_descendants_iff.1 hx with rfl | hx
  · rcases hcases with ⟨rfl, -⟩ | ⟨-, rfl, -⟩ | ⟨-, below, own, hown, -⟩ |
      ⟨-, target, natural, own, b₁, hown, rfl, -⟩
    · exact placed_self _ _ _
    · exact placed_self _ _ _
    · exact (kept_placed s).collect x hown x (placed_self _ _ _)
    · exact (kept_placed s).collect x hown x (placed_self _ _ _)
  · rcases hcases with ⟨-, -, hg⟩ | ⟨hv, -⟩ | ⟨-, below, own, hown, -, hg, -⟩ |
      ⟨-, target, natural, own, b₁, hown, rfl, -, hg, -⟩
    · -- nothing is typed inside of a geometry
      rw [h.eq_none (fun t' ht' => by
        rw [typingOf_eq_ok_iff.1 ht] at ht'
        cases ht'
        exact hg) hx] at htyped
      cases htyped
    · simp only [isVoid, Bool.and_eq_true, List.isEmpty_iff] at hv
      rw [Element.inner, hv.1.2] at hx
      cases hx
    · exact hcollect ⟨t, ht, hg⟩ hown x hx htyped
    · exact hcollect ⟨t, ht, hg⟩ hown x hx htyped

theorem collectAmong_placed {es : List Element}
    (hchild : ∀ d ∈ es, ∀ {b fs b'},
      Leads (childFields s name parent d fun below => collect s below d) b fs b' →
      ∀ x ∈ d.descendants, (s.typing.get? x.id).isSome = true → Placed b'.layout x)
    (hb : Leads (collectAmong s name parent es) b fs b') :
    ∀ x ∈ es.flatMap descendants, (s.typing.get? x.id).isSome = true → Placed b'.layout x := by
  induction es generalizing b fs with
  | nil => exact fun x hx => by cases hx
  | cons d es ih =>
    obtain ⟨first, b₁, rest, hfirst, hrest, -⟩ := leads_collectAmong_cons.1 hb
    intro x hx htyped
    rw [List.flatMap_cons, List.mem_append] at hx
    rcases hx with hx | hx
    · exact (kept_placed s).collectAmong (fun c _ => (kept_placed s).collect c) hrest x
        (hchild d List.mem_cons_self hfirst x hx htyped)
    · exact ih (fun c hc => hchild c (List.mem_cons_of_mem _ hc)) hrest x hx htyped

/-- Collecting places all that is typed inside of the element. -/
theorem collect_placed (h : s.typing.Reaching e) (hb : Leads (collect s name e) b fs b') :
    ∀ x ∈ e.inner, (s.typing.get? x.id).isSome = true → Placed b'.layout x := by
  induction e using induct_tree generalizing name b fs b' with
  | h e ih =>
    obtain ⟨t, rest, -, hrest, -⟩ := leads_collect.1 hb
    exact collectAmong_placed (fun d hd => childFields_placed (h.child hd)
      fun _ hown => ih d hd (h.child hd) hown) hrest

end Placed

/-! ### Documents -/

section Stops

variable {α β : Type} {b b₁ : Building} {err : Error}

/-- Building from `b` stops with an error. -/
def Stops (x : BuildM α) (b : Building) (err : Error) : Prop := x.run b = .error err

theorem stops_lift {x : Except Error α} (h : x = .error err) : Stops (liftM x) b err := by
  subst h
  rfl

theorem stops_bind {x : BuildM α} {f : α → BuildM β} (h : Stops x b err) : Stops (x >>= f) b err := by
  unfold Stops at h ⊢
  rw [StateT.run_bind, h]
  rfl

theorem stops_after {x : BuildM α} {f : α → BuildM β} {a : α} (hx : Leads x b a b₁)
    (h : Stops (f a) b₁ err) : Stops (x >>= f) b err := by
  unfold Stops Leads at *
  rw [StateT.run_bind, hx]
  exact h

end Stops

section Build

variable {c : Catalog} {typing : Typing} {options : BuildOptions} {m : Model} {root : Element}

/-- What is inside of a root that is a geometry has no typing, and building stops at it. -/
theorem build_untyped (options : BuildOptions) (m : Model) (hd : root.Distinct)
    (h : Typing.ofRoot c root = .ok typing)
    (hgeometry : typing.HasGeometry root) {d : Element} {es : List Element}
    (hchildren : root.children = d :: es) : build ⟨typing, options⟩ m root =
      .error (.schemaResolution .untyped { tag? := some d.name.toText }) := by
  obtain ⟨-, hreaching, -⟩ := Typing.ofRoot_reaching hd h
  obtain ⟨t, ht, hg⟩ := hgeometry
  have hnone : typing.get? d.id = none := by
    refine hreaching.eq_none (fun t' ht' => ?_)
      (mem_inner_of_mem_children (hchildren ▸ List.mem_cons_self))
    rw [ht] at ht'
    cases ht'
    exact hg
  have htyping : typingOf ⟨typing, options⟩ root = .ok t := typingOf_eq_ok_iff.2 ht
  have huntyped : typingOf ⟨typing, options⟩ d =
      .error (.schemaResolution .untyped { tag? := some d.name.toText }) := by
    unfold typingOf
    rw [show (Setting.mk typing options).typing.get? d.id = none from hnone]
  have hcollect : ∀ b, Stops (collect ⟨typing, options⟩ root.localName root) b
      (.schemaResolution .untyped { tag? := some d.name.toText }) := by
    obtain ⟨id, qname, attributes, text?, children, scope⟩ := root
    obtain rfl : children = d :: es := hchildren
    intro b
    simp only [collect, collectAmong, childFields]
    refine stops_after (leads_lift.2 ⟨htyping, rfl⟩) (stops_bind (stops_bind (stops_bind ?_)))
    exact stops_lift huntyped
  have hvoid : isVoid root t = false := by simp [isVoid, hchildren]
  have hbuild : Stops (buildTable ⟨typing, options⟩ root root.localName
      (collect ⟨typing, options⟩ root.localName root)) { model := m }
      (.schemaResolution .untyped { tag? := some d.name.toText }) := by
    unfold buildTable
    refine stops_after (leads_lift.2 ⟨htyping, rfl⟩) ?_
    simp only [hvoid, Bool.false_eq_true, if_false]
    exact stops_after (a := ()) (leads_startTable.2 rfl) (stops_after (a := ()) (leads_place.2 rfl)
      (stops_bind (hcollect _)))
  unfold Stops at hbuild
  simp only [build, hbuild]
  rfl

/-- A document can be built unless its root is a geometry with something inside. -/
theorem build_ok_iff (options : BuildOptions) (m : Model) (hd : root.Distinct)
    (h : Typing.ofRoot c root = .ok typing) :
    (∃ o, build ⟨typing, options⟩ m root = .ok o) ↔
      ¬ (typing.HasGeometry root ∧ root.children ≠ []) := by
  obtain ⟨hself, hreaching, -⟩ := Typing.ofRoot_reaching hd h
  constructor
  · rintro ⟨o, ho⟩ ⟨hgeometry, hchildren⟩
    obtain ⟨d, es, hes⟩ := List.exists_cons_of_ne_nil hchildren
    rw [build_untyped options m hd h hgeometry hes] at ho
    cases ho
  · intro hno
    obtain ⟨t, ht⟩ := typingOf_ok (s := ⟨typing, options⟩) hself
    have hfields : ∀ b, ∃ fs b', Leads (collect ⟨typing, options⟩ root.localName root) b fs b' := by
      intro b
      cases hg : t.isGeometry with
      | false => exact collect_total hreaching ht hg root.localName b
      | true =>
        have hchildren : root.children = [] := by
          by_contra hne
          exact hno ⟨⟨t, typingOf_eq_ok_iff.1 ht, hg⟩, hne⟩
        exact ⟨_, b, leads_collect.2
          ⟨t, [], ht, hchildren ▸ leads_collectAmong_nil.2 ⟨rfl, rfl⟩, rfl⟩⟩
    obtain ⟨r, b, hr⟩ := buildTable_total (b := { model := m }) _ ht fun _ => hfields
    refine ⟨⟨({ b.model with rootTable? := b.model.rootTable?.or r } : Model).addBackLinks,
      b.layout, r⟩, build_eq_ok_iff.2 ⟨b, hr, rfl, rfl⟩⟩

/-- The elements that are placed are those that are not inside of a geometry. -/
theorem build_covers (hd : root.Distinct) (h : Typing.ofRoot c root = .ok typing) {o : Outcome}
    (ho : build ⟨typing, options⟩ m root = .ok o) (i : NodeId) : (o.layout.get? i).isSome = true ↔
      ∃ x ∈ root.descendants, x.id = i ∧ ¬ typing.InGeometry root x := by
  obtain ⟨hself, hreaching, honly⟩ := Typing.ofRoot_reaching hd h
  constructor
  · intro hi
    obtain ⟨p, hp⟩ := Option.isSome_iff_exists.1 hi
    obtain ⟨t, ht, -⟩ := build_typed ho hp
    have htyped : (typing.get? i).isSome = true := by
      rw [show typing.get? i = some t from ht]
      rfl
    obtain ⟨x, hx, rfl⟩ := honly i htyped
    exact ⟨x, hx, rfl, (hreaching.isSome_iff hd hself hx).1 htyped⟩
  · rintro ⟨x, hx, rfl, hout⟩
    have htyped := (hreaching.isSome_iff hd hself hx).2 hout
    obtain ⟨b, hb, hlayout, -⟩ := build_eq_ok_iff.1 ho
    rw [hlayout]
    obtain ⟨t, -, ⟨hv, -, rfl⟩ | ⟨-, -, fs, b₁, hcollect, rfl⟩⟩ := buildTable_cases hb
    · simp only [isVoid, Bool.and_eq_true, List.isEmpty_iff] at hv
      rw [descendants_eq_inner, Element.inner, hv.1.2] at hx
      rw [List.mem_singleton.1 hx]
      exact placed_self _ _ _
    · rcases mem_descendants_iff.1 hx with rfl | hx
      · exact (kept_placed _).collect x hcollect x (placed_self _ _ _)
      · exact collect_placed hreaching hcollect x hx htyped

end Build

end Layout

end FeatureTables
