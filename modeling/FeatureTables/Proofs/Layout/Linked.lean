import FeatureTables.Layout.Selection
import FeatureTables.Proofs.Xml.Tree
import Mathlib.Data.List.Flatten

/-!
The elements with rows of their own that are next below an element, with only parts of its row in
between. Each element with a row is next below one other at most (`eq_of_linked`), and the keys of an
element select among those next below it (`mem_selectNodes`).
-/

namespace FeatureTables.Layout

open Xml Element

/-! ### Rows next below a row -/

mutual
/-- The elements with rows of their own next below an element. -/
def linked (l : Layout) : Element → List Element
  | ⟨_, _, _, _, children, _⟩ => linkedAmong l children
def linkedAmong (l : Layout) : List Element → List Element
  | [] => []
  | e :: es =>
    match l.get? e.id with
    | some (.table _) => e :: linkedAmong l es
    | some .inlined | some .empty => linked l e ++ linkedAmong l es
    | _ => linkedAmong l es
end

/-- An element is part of the row of another one. -/
def Passes (l : Layout) (e : Element) : Prop :=
  l.get? e.id = some .inlined ∨ l.get? e.id = some .empty

section Linked

variable {l : Layout} {e x y : Element}

theorem linkedAmong_eq (es : List Element) : linkedAmong l es = es.flatMap fun c =>
    match l.get? c.id with
    | some (.table _) => [c]
    | some .inlined | some .empty => linked l c
    | _ => [] := by
  induction es with
  | nil => simp [linkedAmong]
  | cons c es ih =>
    rw [List.flatMap_cons, ← ih, linkedAmong]
    split <;> rfl

theorem mem_linked_iff : x ∈ linked l e ↔ ∃ c ∈ e.children,
    ((∃ name, l.get? c.id = some (.table name)) ∧ x = c) ∨ Passes l c ∧ x ∈ linked l c := by
  have heq : linked l e = linkedAmong l e.children := by
    cases e
    rw [linked]
  rw [heq, linkedAmong_eq, List.mem_flatMap]
  refine exists_congr fun c => and_congr_right fun _ => ?_
  unfold Passes
  cases h : l.get? c.id with
  | none => simp
  | some p => cases p <;> simp

theorem table_of_linked (h : x ∈ linked l e) : ∃ name, l.get? x.id = some (.table name) := by
  induction e using induct_tree with
  | h e ih =>
    obtain ⟨c, hc, ⟨hname, rfl⟩ | ⟨-, hx⟩⟩ := mem_linked_iff.1 h
    · exact hname
    · exact ih c hc hx

theorem linked_inner (h : x ∈ linked l e) : x ∈ e.inner := by
  induction e using induct_tree with
  | h e ih =>
    obtain ⟨c, hc, ⟨-, rfl⟩ | ⟨-, hx⟩⟩ := mem_linked_iff.1 h
    · exact mem_inner_of_mem_children hc
    · exact mem_inner_of_inner (ih c hc hx)
        (mem_descendants_iff.2 (Or.inr (mem_inner_of_mem_children hc)))

theorem Passes.isSome (h : Passes l e) : (l.get? e.id).isSome = true := by
  rcases h with h | h <;> rw [h] <;> rfl

theorem not_passes_of_table {name : String} (h : l.get? e.id = some (.table name)) :
    ¬ Passes l e := by
  simp [Passes, h]

/-- What stands between an element and a row next below it is part of the row of the element. -/
theorem passes_between (hd : e.Distinct) (hx : x ∈ linked l e) (hy : y ∈ e.inner)
    (hxy : x ∈ y.inner) : Passes l y := by
  induction e using induct_tree with
  | h e ih =>
    obtain ⟨d, hd', hyd⟩ := mem_inner_iff.1 hy
    have hxd : x ∈ d.inner := mem_inner_of_inner hxy hyd
    obtain ⟨c, hc, ⟨-, rfl⟩ | ⟨hpasses, hx⟩⟩ := mem_linked_iff.1 hx
    · obtain rfl := hd.eq_child hc hd' (mem_descendants_self x)
        (mem_descendants_iff.2 (Or.inr hxd))
      exact absurd hxd (hd.child hc).not_mem_inner
    · obtain rfl := hd.eq_child hc hd' (mem_descendants_iff.2 (Or.inr (linked_inner hx)))
        (mem_descendants_iff.2 (Or.inr hxd))
      rcases mem_descendants_iff.1 hyd with rfl | hyc
      · exact hpasses
      · exact ih c hc (hd.child hc) hx hyc

/-- A row is next below one row at most. -/
theorem eq_of_linked {root a b : Element} (hd : root.Distinct) (ha : a ∈ root.descendants)
    (hb : b ∈ root.descendants) (hta : ¬ Passes l a) (htb : ¬ Passes l b) (hxa : x ∈ linked l a)
    (hxb : x ∈ linked l b) : a = b := by
  rcases hd.comparable ha hb (mem_descendants_iff.2 (Or.inr (linked_inner hxa)))
    (mem_descendants_iff.2 (Or.inr (linked_inner hxb))) with h | h
  · rcases mem_descendants_iff.1 h with rfl | h
    · rfl
    · exact absurd (passes_between (hd.of_mem hb) hxb h (linked_inner hxa)) hta
  · rcases mem_descendants_iff.1 h with rfl | h
    · rfl
    · exact absurd (passes_between (hd.of_mem ha) hxa h (linked_inner hxb)) htb

/-- The subtrees of two rows next below an element have nothing in common. -/
theorem eq_linked (hd : e.Distinct) (hx : x ∈ linked l e) (hy : y ∈ linked l e) {z : Element}
    (hzx : z ∈ x.descendants) (hzy : z ∈ y.descendants) : x = y := by
  have hmem : ∀ w ∈ linked l e, w ∈ e.descendants := fun w hw =>
    mem_descendants_iff.2 (Or.inr (linked_inner hw))
  have hpasses : ∀ w ∈ linked l e, ¬ Passes l w := fun w hw => by
    obtain ⟨name, hname⟩ := table_of_linked hw
    exact not_passes_of_table hname
  rcases hd.comparable (hmem x hx) (hmem y hy) hzx hzy with h | h
  · rcases mem_descendants_iff.1 h with rfl | h
    · rfl
    · exact absurd (passes_between hd hx (linked_inner hy) h) (hpasses y hy)
  · rcases mem_descendants_iff.1 h with rfl | h
    · rfl
    · exact absurd (passes_between hd hy (linked_inner hx) h) (hpasses x hx)

/-- The way to each row leads through rows and parts of rows. -/
def Connected (l : Layout) (e : Element) : Prop :=
  ∀ y ∈ e.descendants, ∀ c ∈ y.children, (l.get? c.id).isSome = true →
    (∃ name, l.get? y.id = some (.table name)) ∨ Passes l y

theorem Connected.child (h : Connected l e) {c : Element} (hc : c ∈ e.children) : Connected l c :=
  fun y hy => h y (mem_descendants_trans hy
    (mem_descendants_iff.2 (Or.inr (mem_inner_of_mem_children hc))))

/-- Nothing is placed inside of an element that is neither a row nor a part of one. -/
theorem Connected.eq_none (h : Connected l e) (htable : ∀ name, l.get? e.id ≠ some (.table name))
    (hpasses : ¬ Passes l e) : ∀ x ∈ e.inner, l.get? x.id = none := by
  induction e using induct_tree with
  | h e ih =>
    intro x hx
    obtain ⟨c, hc, hx⟩ := mem_inner_iff.1 hx
    have hnone : l.get? c.id = none := by
      by_contra hne
      rcases h e (mem_descendants_self e) c hc (Option.isSome_iff_ne_none.2 hne) with
        ⟨name, hname⟩ | hp
      · exact htable name hname
      · exact hpasses hp
    rcases mem_descendants_iff.1 hx with rfl | hx
    · exact hnone
    · exact ih c hc (h.child hc) (by simp [hnone]) (by simp [Passes, hnone]) x hx

/-- Each row inside of an element is next below it, or inside of such a row. -/
theorem Connected.linked_cases (h : Connected l e) (hx : x ∈ e.inner) {name : String}
    (hname : l.get? x.id = some (.table name)) : ∃ y ∈ linked l e, x ∈ y.descendants := by
  induction e using induct_tree with
  | h e ih =>
    obtain ⟨c, hc, hxc⟩ := mem_inner_iff.1 hx
    by_cases htable : ∃ name, l.get? c.id = some (.table name)
    · exact ⟨c, mem_linked_iff.2 ⟨c, hc, Or.inl ⟨htable, rfl⟩⟩, hxc⟩
    · rcases mem_descendants_iff.1 hxc with rfl | hxc
      · exact absurd ⟨name, hname⟩ htable
      · by_cases hpasses : Passes l c
        · obtain ⟨y, hy, hxy⟩ := ih c hc (h.child hc) hxc
          exact ⟨y, mem_linked_iff.2 ⟨c, hc, Or.inr ⟨hpasses, hy⟩⟩, hxy⟩
        · have := (h.child hc).eq_none (fun name hname => htable ⟨name, hname⟩) hpasses x hxc
          rw [hname] at this
          cases this

end Linked

/-! ### What keys select -/

section Selection

variable {l : Layout} {e x : Element}

theorem mem_stepFrom {rows first : Bool} {name : String} (h : x ∈ stepFrom l rows first name e) :
    x ∈ e.children ∧ hasTag x name = true ∧ admits rows (l.get? x.id) = true := by
  have hmem : x ∈ e.children.filter fun c => hasTag c name && admits rows (l.get? c.id) := by
    unfold stepFrom at h
    split at h
    · exact List.mem_of_mem_take h
    · exact h
  simpa using List.mem_filter.1 hmem

theorem stepFrom_sublist (l : Layout) (rows first : Bool) (name : String) (e : Element) :
    (stepFrom l rows first name e).Sublist e.children := by
  unfold stepFrom
  split
  · exact (List.take_sublist _ _).trans List.filter_sublist
  · exact List.filter_sublist

theorem admits_true_iff {p? : Option Placement} :
    admits true p? = true ↔ ∃ name, p? = some (.table name) := by
  cases p? with
  | none => simp [admits]
  | some p => cases p <;> simp [admits]

theorem admits_false_iff {p? : Option Placement} :
    admits false p? = true ↔ p? = some .inlined ∨ p? = some .empty := by
  cases p? with
  | none => simp [admits]
  | some p => cases p <;> simp [admits]

theorem descend_tag {rows first : Bool} {name : String} {steps : List Key.Step}
    {es : List Element} : descend l rows (.tag name first :: steps) es =
      descend l rows steps (es.flatMap (stepFrom l (rows && steps.isEmpty) first name)) := by
  rw [descend]

theorem mem_descend {steps : List Key.Step} {es : List Element} (h : x ∈ descend l true steps es) :
    steps = [] ∧ x ∈ es ∨ steps ≠ [] ∧ ∃ e ∈ es, x ∈ linked l e := by
  induction steps generalizing es with
  | nil => exact Or.inl ⟨rfl, h⟩
  | cons step steps ih =>
    refine Or.inr ⟨List.cons_ne_nil _ _, ?_⟩
    cases step with
    | tag name first =>
      rw [descend_tag] at h
      rcases ih h with ⟨rfl, hx⟩ | ⟨hne, c, hc, hx⟩
      · obtain ⟨e, he, hx⟩ := List.mem_flatMap.1 hx
        obtain ⟨hchild, -, hadmits⟩ := mem_stepFrom hx
        exact ⟨e, he, mem_linked_iff.2 ⟨x, hchild, Or.inl ⟨admits_true_iff.1 hadmits, rfl⟩⟩⟩
      · obtain ⟨e, he, hc⟩ := List.mem_flatMap.1 hc
        obtain ⟨hchild, -, hadmits⟩ := mem_stepFrom hc
        rw [show (true && steps.isEmpty) = false by simpa using hne] at hadmits
        exact ⟨e, he, mem_linked_iff.2 ⟨c, hchild, Or.inr ⟨admits_false_iff.1 hadmits, hx⟩⟩⟩
    | attr name => simp [descend] at h
    | text => simp [descend] at h
    | geometry => simp [descend] at h

/-- A link leads to rows next below the element, or to the element itself if its key has no steps. -/
theorem mem_selectNodes {key : String} (h : x ∈ selectNodes l key e) :
    Key.steps key = [] ∧ x = e ∨ x ∈ linked l e := by
  rcases mem_descend h with ⟨hsteps, hx⟩ | ⟨-, y, hy, hx⟩
  · exact Or.inl ⟨hsteps, List.mem_singleton.1 hx⟩
  · exact Or.inr (List.mem_singleton.1 hy ▸ hx)

theorem descend_sublist {rows : Bool} (steps : List Key.Step) (es : List Element) :
    ((descend l rows steps es).flatMap descendants).Sublist (es.flatMap descendants) := by
  induction steps generalizing es with
  | nil => exact List.Sublist.refl _
  | cons step steps ih =>
    cases step with
    | tag name first =>
      rw [descend_tag]
      refine (ih _).trans ?_
      rw [List.flatMap_assoc]
      refine List.Sublist.flatMap_right _ fun e _ => ?_
      rw [descendants_eq_inner e]
      exact ((stepFrom_sublist l _ first name e).flatMap _).cons e
    | attr name => simp [descend]
    | text => simp [descend]
    | geometry => simp [descend]

theorem sublist_flatMap_descendants (es : List Element) : es.Sublist (es.flatMap descendants) := by
  induction es with
  | nil => exact List.Sublist.refl _
  | cons e es ih =>
    rw [List.flatMap_cons, descendants_eq_inner]
    exact (ih.trans (List.sublist_append_right _ _)).cons_cons e

/-- A key selects no element twice. -/
theorem nodup_selectNodes (hd : e.Distinct) (key : String) :
    ((selectNodes l key e).map (·.id)).Nodup := by
  have h : ((selectNodes l key e).flatMap descendants).Sublist ([e].flatMap descendants) :=
    descend_sublist (Key.steps key) [e]
  rw [List.flatMap_singleton] at h
  exact hd.sublist (List.Sublist.map _ ((sublist_flatMap_descendants _).trans h))

end Selection

end FeatureTables.Layout
