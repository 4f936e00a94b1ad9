import FeatureTables.Xml.Element
import Mathlib.Data.List.Pairwise
import Mathlib.Data.List.Nodup

/-!
Subtrees of elements. An element of a document is told from others by its number; two subtrees of a
document that meet are one inside of the other.
-/

namespace FeatureTables.Xml.Element

mutual
theorem induct_tree {P : Element → Prop} (h : ∀ e, (∀ c ∈ e.children, P c) → P e) : ∀ e, P e
  | ⟨id, name, attributes, text?, children, scope⟩ =>
    h ⟨id, name, attributes, text?, children, scope⟩ (induct_trees h children)
theorem induct_trees {P : Element → Prop} (h : ∀ e, (∀ c ∈ e.children, P c) → P e) :
    ∀ es : List Element, ∀ c ∈ es, P c
  | [] => by simp
  | e :: es => List.forall_mem_cons.2 ⟨induct_tree h e, induct_trees h es⟩
end

/-- The elements inside of an element. -/
def inner (e : Element) : List Element := e.children.flatMap descendants

section Inner

variable {e x y : Element}

theorem descendants_eq_inner (e : Element) : e.descendants = e :: e.inner := descendants_eq e

theorem mem_inner_iff : x ∈ e.inner ↔ ∃ c ∈ e.children, x ∈ c.descendants := List.mem_flatMap

theorem mem_descendants_iff : x ∈ e.descendants ↔ x = e ∨ x ∈ e.inner := by
  rw [descendants_eq_inner, List.mem_cons]

theorem mem_descendants_self (e : Element) : e ∈ e.descendants := mem_descendants_iff.2 (Or.inl rfl)

theorem mem_inner_of_mem_children {c : Element} (h : c ∈ e.children) : c ∈ e.inner :=
  mem_inner_iff.2 ⟨c, h, mem_descendants_self c⟩

theorem sublist_inner_of_child {c : Element} (hc : c ∈ e.children) :
    c.descendants.Sublist e.inner := by
  unfold inner
  rw [List.flatMap_def]
  exact List.sublist_flatten_of_mem (List.mem_map_of_mem hc)

/-- A subtree of a subtree is a subtree. -/
theorem sublist_descendants (h : x ∈ e.descendants) : x.descendants.Sublist e.descendants := by
  induction e using induct_tree with
  | h e ih =>
    rcases mem_descendants_iff.1 h with rfl | h
    · exact List.Sublist.refl _
    · obtain ⟨c, hc, hx⟩ := mem_inner_iff.1 h
      rw [descendants_eq_inner e]
      exact List.Sublist.cons _ ((ih c hc hx).trans (sublist_inner_of_child hc))

theorem length_descendants_lt (h : x ∈ e.inner) : x.descendants.length < e.descendants.length := by
  obtain ⟨c, hc, hx⟩ := mem_inner_iff.1 h
  rw [descendants_eq_inner e, List.length_cons, Nat.lt_succ_iff]
  exact ((sublist_descendants hx).trans (sublist_inner_of_child hc)).length_le

theorem mem_descendants_trans (hy : y ∈ x.descendants) (hx : x ∈ e.descendants) :
    y ∈ e.descendants := (sublist_descendants hx).subset hy

theorem mem_inner_of_descendants (hy : y ∈ x.descendants) (hx : x ∈ e.inner) : y ∈ e.inner := by
  obtain ⟨c, hc, hx⟩ := mem_inner_iff.1 hx
  exact mem_inner_iff.2 ⟨c, hc, mem_descendants_trans hy hx⟩

theorem mem_inner_of_inner (hy : y ∈ x.inner) (hx : x ∈ e.descendants) : y ∈ e.inner := by
  rcases mem_descendants_iff.1 hx with rfl | hx
  · exact hy
  · exact mem_inner_of_descendants (mem_descendants_iff.2 (Or.inr hy)) hx

/-- An element inside of another one has a parent there. -/
theorem exists_parent (h : x ∈ e.inner) : ∃ w ∈ e.descendants, x ∈ w.children := by
  induction e using induct_tree with
  | h e ih =>
    obtain ⟨c, hc, hx⟩ := mem_inner_iff.1 h
    rcases mem_descendants_iff.1 hx with rfl | hx
    · exact ⟨e, mem_descendants_self e, hc⟩
    · obtain ⟨w, hw, hxw⟩ := ih c hc hx
      exact ⟨w, mem_descendants_trans hw
        (mem_descendants_iff.2 (Or.inr (mem_inner_of_mem_children hc))), hxw⟩

end Inner

/-! ### Distinct numbers -/

/-- No two elements of the tree have one number. -/
def Distinct (e : Element) : Prop := (e.descendants.map (·.id)).Nodup

section Distinct

variable {e x y a b c d : Element}

theorem Distinct.of_mem (h : e.Distinct) (hx : x ∈ e.descendants) : x.Distinct :=
  h.sublist ((sublist_descendants hx).map _)

theorem Distinct.child (h : e.Distinct) (hc : c ∈ e.children) : c.Distinct :=
  h.of_mem (mem_descendants_iff.2 (Or.inr (mem_inner_of_mem_children hc)))

theorem Distinct.nodup (h : e.Distinct) : e.descendants.Nodup := h.of_map

theorem Distinct.eq_of_id (h : e.Distinct) (hx : x ∈ e.descendants) (hy : y ∈ e.descendants)
    (hid : x.id = y.id) : x = y := List.inj_on_of_nodup_map h hx hy hid

theorem Distinct.not_mem_inner (h : e.Distinct) : e ∉ e.inner := by
  have := h.nodup
  rw [descendants_eq_inner, List.nodup_cons] at this
  exact this.1

theorem Distinct.nodup_inner (h : e.Distinct) : (e.inner.map (·.id)).Nodup := by
  unfold Distinct at h
  rw [descendants_eq_inner] at h
  exact h.sublist ((List.sublist_cons_self _ _).map _)

theorem Distinct.id_ne (h : e.Distinct) (hx : x ∈ e.inner) : x.id ≠ e.id := fun hid => by
  have := h.eq_of_id (mem_descendants_iff.2 (Or.inr hx)) (mem_descendants_self e) hid
  exact h.not_mem_inner (this ▸ hx)

/-- No element is inside of itself, nor are two inside of each other. -/
theorem Distinct.asymm (h : e.Distinct) (hx : x ∈ e.descendants) (hxy : x ∈ y.inner) :
    y ∉ x.descendants := fun hyx =>
  (h.of_mem hx).not_mem_inner (mem_inner_of_inner hxy hyx)

/-- The subtrees of two children have nothing in common. -/
theorem Distinct.eq_child (h : e.Distinct) (hc : c ∈ e.children) (hd : d ∈ e.children)
    (hxc : x ∈ c.descendants) (hxd : x ∈ d.descendants) : c = d := by
  by_contra hne
  have hinner : e.inner.Nodup := h.nodup_inner.of_map
  have hdisjoint := (List.nodup_flatMap.1 hinner).2
  have : Std.Symm (Function.onFun List.Disjoint descendants) := 
    ⟨fun _ _ h _ hx hx' => h hx' hx⟩
  exact hdisjoint.forall hc hd hne hxc hxd

/-- Of two elements above one, one is above the other. -/
theorem Distinct.comparable (h : e.Distinct) (ha : a ∈ e.descendants) (hb : b ∈ e.descendants)
    (hxa : x ∈ a.descendants) (hxb : x ∈ b.descendants) :
    a ∈ b.descendants ∨ b ∈ a.descendants := by
  induction e using induct_tree with
  | h e ih =>
    rcases mem_descendants_iff.1 ha with rfl | ha
    · exact Or.inr hb
    · rcases mem_descendants_iff.1 hb with rfl | hb
      · exact Or.inl (mem_descendants_iff.2 (Or.inr ha))
      · obtain ⟨c, hc, ha⟩ := mem_inner_iff.1 ha
        obtain ⟨d, hd, hb⟩ := mem_inner_iff.1 hb
        obtain rfl := h.eq_child hc hd (mem_descendants_trans hxa ha) (mem_descendants_trans hxb hb)
        exact ih c hc (h.child hc) ha hb

end Distinct

end FeatureTables.Xml.Element
