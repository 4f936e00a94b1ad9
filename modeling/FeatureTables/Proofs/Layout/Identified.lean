import FeatureTables.Proofs.Layout.Coverage
import FeatureTables.Proofs.Layout.Judging

/-!
Where building places the elements that the document identifies. Such a child is no part of a row, and its
table has the name of the step to it, wherever the child stands and whatever tables there are
(`build_standsIn`). So it is placed in the same way each time that the document is built
(`identified_alike`), while other elements may become rows of their own as tables become more.
-/

namespace FeatureTables.Layout

open Xml Element

/-- The place of a child that the document identifies. -/
def standing (parent e : Element) (t : NodeTyping) : Placement :=
  if t.isGeometry then .geometry
  else if isVoid e t then .empty
  else .table (stepName (keyStep parent e))

/-- The child, if the document identifies it and it is placed, is where it stands on its own. -/
def Stands (s : Setting) (l : Layout) (parent e : Element) : Prop :=
  ∀ t p, typingOf s e = .ok t → hasNaturalId e t = true → l.get? e.id = some p →
    p = standing parent e t

section Stands

variable {s : Setting} {l l' : Layout} {name : String} {parent e c : Element} {t : NodeTyping}
  {es : List Element} {b b' : Building} {fs : List Field}

theorem isInlined_of_hasNaturalId (m : Model) (name : String) (h : hasNaturalId e t = true) :
    isInlined s m name e t = .ok false := by
  unfold isInlined
  rw [h, Bool.or_true, Bool.true_or, if_pos rfl]
  rfl

theorem Stands.congr (h : Stands s l parent c) (heq : l'.get? c.id = l.get? c.id) :
    Stands s l' parent c := fun t p ht hnatural hp => h t p ht hnatural (heq ▸ hp)

theorem stands_of_none (h : l.get? c.id = none) : Stands s l parent c := by
  intro t p _ _ hp
  rw [h] at hp
  cases hp

/-- A child that is built stands on its own, if the document identifies it. -/
theorem childFields_stands (hd : c.Distinct)
    (h : Leads (childFields s name parent c fun below => collect s below c) b fs b') :
    Stands s b'.layout parent c := by
  intro t p ht hnatural hp
  obtain ⟨t', ht', h⟩ := childFields_judged h
  obtain rfl : t = t' := Except.ok.inj (ht.symm.trans ht')
  have hput : ∀ q, (b.placed c q).layout.get? c.id = some q := fun q => by
    rw [Building.placed_layout, NodeMap.get?_put, if_pos rfl]
  rcases h with ⟨hg, rfl, -⟩ | ⟨hg, hv, rfl, -⟩ | ⟨-, -, hinlined, -⟩ |
    ⟨hg, hv, -, target, own, b₁, rfl, hown, rfl, -⟩
  · rw [hput] at hp
    rw [standing, if_pos hg, ← Option.some.inj hp]
  · rw [hput] at hp
    rw [standing, if_neg (by simp [hg]), if_pos hv, ← Option.some.inj hp]
  · rw [isInlined_of_hasNaturalId _ _ hnatural] at hinlined
    cases hinlined
  · rw [Building.extended_layout, collect_self hd hown] at hp
    rw [standing, if_neg (by simp [hg]), if_neg (by simp [hv]), ← Option.some.inj hp, hnatural,
      nextName, if_pos rfl]

/-- The children of each element in the tree stand on their own. -/
def StandsIn (s : Setting) (l : Layout) (e : Element) : Prop :=
  ∀ y ∈ e.descendants, ∀ c ∈ y.children, Stands s l y c

theorem StandsIn.congr (h : StandsIn s l e) (heq : ∀ y ∈ e.inner, l'.get? y.id = l.get? y.id) :
    StandsIn s l' e := fun y hy c hc =>
  (h y hy c hc).congr (heq c (mem_inner_of_inner (mem_inner_of_mem_children hc) hy))

theorem standsIn_of_none (h : ∀ y ∈ e.inner, l.get? y.id = none) : StandsIn s l e :=
  fun _ hy c hc => stands_of_none (h c (mem_inner_of_inner (mem_inner_of_mem_children hc) hy))

theorem standsIn_of_children (h : ∀ c ∈ e.children, Stands s l e c ∧ StandsIn s l c) :
    StandsIn s l e := by
  intro y hy c hc
  rcases mem_descendants_iff.1 hy with rfl | hy
  · exact (h c hc).1
  · obtain ⟨d, hd, hy⟩ := mem_inner_iff.1 hy
    exact (h d hd).2 y hy c hc

theorem childFields_standsIn (hd : c.Distinct)
    (hnone : ∀ y ∈ c.descendants, b.layout.get? y.id = none)
    (hcollect : ∀ {name b fs b'}, (∀ y ∈ c.inner, b.layout.get? y.id = none) →
      Leads (collect s name c) b fs b' → StandsIn s b'.layout c)
    (h : Leads (childFields s name parent c fun below => collect s below c) b fs b') :
    StandsIn s b'.layout c := by
  obtain ⟨t, -, h⟩ := childFields_judged h
  rcases h with ⟨-, rfl, -⟩ | ⟨-, -, rfl, -⟩ | ⟨-, -, -, own, hown, -⟩ |
    ⟨-, -, -, target, own, b₁, -, hown, rfl, -⟩
  · exact standsIn_of_none (inner_put hd hnone .geometry)
  · exact standsIn_of_none (inner_put hd hnone .empty)
  · exact hcollect (inner_put hd hnone .inlined) hown
  · rw [Building.extended_layout]
    exact hcollect (inner_row hd hnone _ _) hown

theorem collectAmong_standsIn (hdistinct : ∀ c ∈ es, c.Distinct)
    (hnodup : ((es.flatMap descendants).map (·.id)).Nodup)
    (hnone : ∀ y ∈ es.flatMap descendants, b.layout.get? y.id = none)
    (hchild : ∀ c ∈ es, ∀ {b fs b'}, (∀ y ∈ c.descendants, b.layout.get? y.id = none) →
      Leads (childFields s name parent c fun below => collect s below c) b fs b' →
      Stands s b'.layout parent c ∧ StandsIn s b'.layout c)
    (h : Leads (collectAmong s name parent es) b fs b') :
    ∀ c ∈ es, Stands s b'.layout parent c ∧ StandsIn s b'.layout c := by
  induction es generalizing b fs with
  | nil => simp
  | cons c es ih =>
    obtain ⟨first, b₁, rest, hfirst, hrest, -⟩ := leads_collectAmong_cons.1 h
    rw [List.flatMap_cons] at hnodup hnone
    have hsep := collectAmong_separate hdistinct hnodup hfirst hrest
    obtain ⟨hself, hinside⟩ :=
      hchild c List.mem_cons_self (fun y hy => hnone y (List.mem_append_left _ hy)) hfirst
    refine List.forall_mem_cons.2 ⟨⟨hself.congr (hsep.same c (mem_descendants_self c)),
      hinside.congr fun y hy => hsep.same y (mem_descendants_iff.2 (Or.inr hy))⟩, ?_⟩
    exact ih (fun d hd => hdistinct d (List.mem_cons_of_mem _ hd)) hsep.nodup (hsep.fresh hnone)
      (fun d hd => hchild d (List.mem_cons_of_mem _ hd)) hrest

theorem collect_standsIn (hd : e.Distinct) (hnone : ∀ y ∈ e.inner, b.layout.get? y.id = none)
    (h : Leads (collect s name e) b fs b') : StandsIn s b'.layout e := by
  induction e using induct_tree generalizing name b fs b' with
  | h e ih =>
    obtain ⟨t, rest, -, hrest, -⟩ := leads_collect.1 h
    exact standsIn_of_children (collectAmong_standsIn (fun c hc => hd.child hc) hd.nodup_inner hnone
      (fun c hc {b fs b'} hnone h => ⟨childFields_stands (hd.child hc) h,
        childFields_standsIn (hd.child hc) hnone (fun hnone h => ih c hc (hd.child hc) hnone h) h⟩)
      hrest)

end Stands

/-! ### Documents -/

section Build

variable {s : Setting} {m m' : Model} {root x : Element} {o o' : Outcome}

theorem build_standsIn (hd : root.Distinct) (h : build s m root = .ok o) : StandsIn s o.layout root := by
  obtain ⟨b, hb, hlayout, -⟩ := build_eq_ok_iff.1 h
  rw [hlayout]
  obtain ⟨t, -, ⟨-, -, rfl⟩ | ⟨-, -, fs, b₁, hcollect, rfl⟩⟩ := buildTable_cases hb
  · exact standsIn_of_none (inner_put hd (fun _ _ => rfl) .empty)
  · rw [Building.extended_layout]
    exact collect_standsIn hd (inner_row hd (fun _ _ => rfl) _ _) hcollect

/-- An element with an identifier is placed in the same way in each model. -/
theorem identified_alike {c : Schema.Catalog} (hd : root.Distinct)
    (htyping : Typing.ofRoot c root = .ok s.typing) (h : build s m root = .ok o)
    (h' : build s m' root = .ok o') (hx : x ∈ root.descendants)
    (hid : (x.attribute? "id").isSome = true) : o'.layout.get? x.id = o.layout.get? x.id := by
  rcases mem_descendants_iff.1 hx with rfl | hinner
  · obtain ⟨t, ht, hroot⟩ := build_root_eq hd h
    obtain ⟨t', ht', hroot'⟩ := build_root_eq hd h'
    obtain rfl : t = t' := Except.ok.inj (ht.symm.trans ht')
    rw [hroot, hroot']
  · have hcovers := build_covers hd htyping h x.id
    rw [← build_covers hd htyping h' x.id] at hcovers
    obtain ⟨y, hy, hxy⟩ : ∃ y ∈ root.descendants, x ∈ y.children := exists_parent hinner
    cases hp : o.layout.get? x.id with
    | none => simpa [hp] using hcovers
    | some p =>
      obtain ⟨p', hp'⟩ := Option.isSome_iff_exists.1 (hcovers.1 (by rw [hp]; rfl))
      obtain ⟨t, ht, -⟩ := build_typed h hp
      have hnatural : hasNaturalId x t = true := by rw [hasNaturalId, hid, Bool.or_true]
      have ht := typingOf_eq_ok_iff.2 ht
      rw [hp', build_standsIn hd h y hy x hxy t p ht hnatural hp,
        build_standsIn hd h' y hy x hxy t p' ht hnatural hp']

end Build

end FeatureTables.Layout
