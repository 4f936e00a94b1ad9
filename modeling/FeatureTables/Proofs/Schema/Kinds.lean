import FeatureTables.Proofs.OrderedMap
import FeatureTables.Schema.Catalog
import Mathlib.Data.Finset.Card
import Mathlib.Logic.Relation

/-!
The values of types. The search for them goes from a list to the type of its items, and to the items
of that one. It ends for all types but those from which a list of itself is come to (`Circular`), and
its bound is no bound to it: what is found with any number of steps is found (`kind?_eq_some_iff`).
-/

namespace FeatureTables.Schema

/-! ### The parts of a type -/

theorem TypeDef.mem_parts_self (t : TypeDef) : t ∈ t.parts := by
  rcases t with ⟨⟨⟩⟩ | ⟨⟨⟩⟩ <;> rw [TypeDef.parts] <;> exact List.mem_cons_self

mutual

theorem TypeDef.parts_subset {u : TypeDef} : (t : TypeDef) → u ∈ t.parts → u.parts ⊆ t.parts
  | .simple ⟨site, name?, base?, variety⟩, h => by
    rw [TypeDef.parts, List.mem_cons, List.mem_append] at h
    rcases h with rfl | h | h
    · exact List.Subset.refl _
    · have := TypeRef.partsOf_subset base? h
      rw [TypeDef.parts]
      exact fun x hx => List.mem_cons_of_mem _ (List.mem_append_left _ (this hx))
    · have := Variety.parts_subset variety h
      rw [TypeDef.parts]
      exact fun x hx => List.mem_cons_of_mem _ (List.mem_append_right _ (this hx))
  | .complex ⟨site, name?, base?, d, content, particle?, uses, groups, any, isAbstract⟩, h => by
    rw [TypeDef.parts, List.mem_cons] at h
    rcases h with rfl | h
    · exact List.Subset.refl _
    · have := TypeRef.partsOf_subset base? h
      rw [TypeDef.parts]
      exact fun x hx => List.mem_cons_of_mem _ (this hx)

theorem TypeRef.parts_subset {u : TypeDef} : (ref : TypeRef) → u ∈ ref.parts → u.parts ⊆ ref.parts
  | .named _, h => by simp [TypeRef.parts] at h
  | .anonymous t, h => TypeDef.parts_subset t h

theorem TypeRef.partsOf_subset {u : TypeDef} : (ref? : Option TypeRef) → u ∈ TypeRef.partsOf ref? →
    u.parts ⊆ TypeRef.partsOf ref?
  | none, h => by simp [TypeRef.partsOf] at h
  | some ref, h => TypeRef.parts_subset ref h

theorem Variety.parts_subset {u : TypeDef} : (v : Variety) → u ∈ v.parts → u.parts ⊆ v.parts
  | .atomic, h => by simp [Variety.parts] at h
  | .union, h => by simp [Variety.parts] at h
  | .list item, h => TypeRef.parts_subset item h

end

theorem Builtin.mem_types {name : String} {t : TypeDef} (h : Builtin.type? name = some t) :
    t ∈ Builtin.types := by
  refine List.mem_filterMap.2 ⟨name, ?_, h⟩
  unfold Builtin.type? at h
  split at h
  · next hany => exact hany ▸ List.mem_cons_self
  · refine List.mem_cons_of_mem _ (List.mem_append.2 ?_)
    split at h
    · next hbase =>
      exact Or.inl (List.mem_map_of_mem (OrderedMap.mem_entries_of_get? (m := ⟨bases⟩) hbase))
    · obtain ⟨item, hitem, -⟩ := Option.map_eq_some_iff.1 h
      exact Or.inr (List.mem_map_of_mem (OrderedMap.mem_entries_of_get? (m := ⟨items⟩) hitem))

namespace Catalog

variable {c : Catalog} {s t u : TypeDef}

/-! ### The types that the search comes to -/

theorem mem_typesFrom_self : t ∈ c.typesFrom t :=
  List.mem_append_left _ t.mem_parts_self

theorem parts_subset_typesFrom (h : s ∈ c.typesFrom t) : s.parts ⊆ c.typesFrom t := by
  rcases List.mem_append.1 h with h | h
  · exact fun x hx => List.mem_append_left _ (TypeDef.parts_subset t h hx)
  · obtain ⟨v, hv, h⟩ := List.mem_flatMap.1 h
    exact fun x hx => List.mem_append_right _
      (List.mem_flatMap.2 ⟨v, hv, TypeDef.parts_subset v h hx⟩)

theorem mem_typesFrom_of_type? {name : QName} (h : c.type? name = some s) : s ∈ c.typesFrom t := by
  refine List.mem_append_right _ (List.mem_flatMap.2 ⟨s, List.mem_append.2 ?_, s.mem_parts_self⟩)
  unfold type? at h
  split at h
  · exact Or.inr (Builtin.mem_types h)
  · exact Or.inl (List.mem_map_of_mem (OrderedMap.mem_entries_of_get? h))

/-- What a type among these refers to is among them. -/
theorem mem_typesFrom_of_ref {ref : TypeRef} (hs : ref.parts ⊆ c.typesFrom t)
    (h : c.resolveType ref = .ok u) : u ∈ c.typesFrom t := by
  cases ref with
  | anonymous v =>
    obtain rfl := Except.ok.inj h
    exact hs v.mem_parts_self
  | named name =>
    rw [resolveType] at h
    split at h
    · next hname => exact Except.ok.inj h ▸ mem_typesFrom_of_type? hname
    · cases h

theorem base_parts_subset {ref : TypeRef} (h : t.base? = some ref) : ref.parts ⊆ t.parts := by
  rcases t with ⟨⟨⟩⟩ | ⟨⟨⟩⟩ <;> cases h <;> rw [TypeDef.parts, TypeRef.partsOf]
  · exact fun x hx => List.mem_cons_of_mem _ (List.mem_append_left _ hx)
  · exact fun x hx => List.mem_cons_of_mem _ hx

theorem chainFrom_subset {n : Nat} (h : s ∈ c.typesFrom t) : (c.chainFrom n s).1 ⊆ c.typesFrom t := by
  induction n generalizing s with
  | zero => exact List.cons_subset.2 ⟨h, List.nil_subset _⟩
  | succ n ih =>
    rw [chainFrom]
    split
    · exact List.cons_subset.2 ⟨h, List.nil_subset _⟩
    · next b hb =>
      have hparts := List.Subset.trans (base_parts_subset hb) (parts_subset_typesFrom h)
      exact List.cons_subset.2 ⟨h, ih (mem_typesFrom_of_ref hparts rfl)⟩
    · next name hb =>
      split
      · exact List.cons_subset.2 ⟨h, List.nil_subset _⟩
      · next b hname => exact List.cons_subset.2 ⟨h, ih (mem_typesFrom_of_type? hname)⟩

theorem parts_of_decisive? {item : TypeRef} (h : decisive? t = some (.list item)) :
    item.parts ⊆ t.parts := by
  rcases t with ⟨⟨site, name?, base?, variety⟩⟩ | ⟨⟨⟩⟩
  · cases variety with
    | list item' =>
      cases h
      rw [TypeDef.parts, Variety.parts]
      exact fun x hx => List.mem_cons_of_mem _ (List.mem_append_right _ hx)
    | atomic =>
      simp [decisive?] at h
    | union => cases h
  · simp [decisive?] at h

/-! ### From a list to its items -/

/-- The type of the items of a type whose values are lists. -/
def item? (c : Catalog) (t : TypeDef) : Option TypeDef :=
  if t.hasSimpleContent then
    match (c.chain t).1.findSome? decisive? with
    | some (.list item) => (c.resolveType item).toOption
    | _ => none
  else none

/-- The values of `t` are lists of values of `u`. -/
def ListOf (c : Catalog) (t u : TypeDef) : Prop := c.item? t = some u

/-- A list of itself, or a list whose items come to one. -/
def Circular (c : Catalog) (t : TypeDef) : Prop :=
  ∃ u, Relation.ReflTransGen c.ListOf t u ∧ Relation.TransGen c.ListOf u u

theorem ListOf.mem_typesFrom (h : c.ListOf s u) (hs : s ∈ c.typesFrom t) : u ∈ c.typesFrom t := by
  unfold ListOf item? at h
  split at h
  · split at h
    · next item hitem =>
      obtain ⟨v, hv, hdecisive⟩ := List.exists_of_findSome?_eq_some hitem
      have hparts := parts_subset_typesFrom (chainFrom_subset hs hv)
      exact mem_typesFrom_of_ref (List.Subset.trans (parts_of_decisive? hdecisive) hparts)
        (toOption_eq_some_iff.1 h)
    · cases h
  · cases h

/-- The search ends at a type that is no list, and goes on with the items of one that is. -/
theorem kindBy_cases (c : Catalog) (t : TypeDef) :
    (c.item? t = none ∧ ∃ k, ∀ f, c.kindBy f t = some k) ∨
      ∃ u, c.ListOf t u ∧
        ∀ f, c.kindBy f t = (f u).map fun k => some (.list (itemName k)) := by
  cases hsimple : t.hasSimpleContent with
  | false => exact Or.inl ⟨by simp [item?, hsimple], none, fun f => by simp [kindBy, hsimple]⟩
  | true =>
    cases hfirst : (c.chain t).1.findSome? decisive? with
    | none =>
      exact Or.inl ⟨by simp [item?, hsimple, hfirst], some .string,
        fun f => by simp [kindBy, hsimple, hfirst]⟩
    | some first =>
      cases first with
      | list item =>
        cases hitem : c.resolveType item with
        | error e =>
          exact Or.inl ⟨by simp [item?, hsimple, hfirst, hitem, Except.toOption],
            some (.list "string"), fun f => by simp [kindBy, hsimple, hfirst, hitem]⟩
        | ok u =>
          exact Or.inr ⟨u, by simp [ListOf, item?, hsimple, hfirst, hitem, Except.toOption],
            fun f => by simp [kindBy, hsimple, hfirst, hitem]⟩
      | union =>
        exact Or.inl ⟨by simp [item?, hsimple, hfirst], some .union,
          fun f => by simp [kindBy, hsimple, hfirst]⟩
      | builtin name =>
        exact Or.inl ⟨by simp [item?, hsimple, hfirst], some (.atomic name),
          fun f => by simp [kindBy, hsimple, hfirst]⟩

theorem kindWithin_mono {m n : Nat} {k : Option SimpleKind} (hmn : m ≤ n)
    (h : c.kindWithin m t = some k) : c.kindWithin n t = some k := by
  induction m generalizing n t k with
  | zero =>
    rcases kindBy_cases c t with ⟨-, k', hk'⟩ | ⟨u, -, hlist⟩
    · rw [kindWithin, hk'] at h
      cases n <;> rw [kindWithin, hk', h]
    · rw [kindWithin, hlist] at h
      cases h
  | succ m ih =>
    obtain ⟨n, rfl⟩ := Nat.exists_eq_add_of_le' (Nat.le_trans (Nat.succ_le_succ (Nat.zero_le m)) hmn)
    rw [kindWithin] at h ⊢
    rcases kindBy_cases c t with ⟨-, k', hk'⟩ | ⟨u, -, hlist⟩
    · rw [hk'] at h ⊢
      exact h
    · rw [hlist, Option.map_eq_some_iff] at h ⊢
      obtain ⟨k', hk', hk⟩ := h
      exact ⟨k', ih (Nat.le_of_succ_le_succ hmn) hk', hk⟩

/-! ### Where the search ends -/

/-- The types that the search comes to, one after the other. -/
def itemAt (c : Catalog) : Nat → TypeDef → Option TypeDef
  | 0, t => some t
  | n + 1, t => (c.item? t).bind (c.itemAt n)

theorem itemAt_succ {n : Nat} (h : c.ListOf t u) : c.itemAt (n + 1) t = c.itemAt n u := by
  rw [itemAt, show c.item? t = some u from h, Option.bind_some]

/-- The search is cut off just when there is a list left. -/
theorem kindWithin_eq_none_iff {n : Nat} :
    c.kindWithin n t = none ↔ (c.itemAt (n + 1) t).isSome = true := by
  induction n generalizing t with
  | zero =>
    rw [kindWithin]
    rcases kindBy_cases c t with ⟨hitem, k, hk⟩ | ⟨u, hu, hlist⟩
    · simp [itemAt, hitem, hk]
    · rw [hlist, itemAt_succ hu]
      simp [itemAt]
  | succ n ih =>
    rw [kindWithin]
    rcases kindBy_cases c t with ⟨hitem, k, hk⟩ | ⟨u, hu, hlist⟩
    · simp [itemAt, hitem, hk]
    · rw [hlist, Option.map_eq_none_iff, ih, itemAt_succ hu]

theorem itemAt_add {m n : Nat} : c.itemAt (m + n) t = (c.itemAt m t).bind (c.itemAt n) := by
  induction m generalizing t with
  | zero => simp [itemAt]
  | succ m ih =>
    rw [Nat.succ_add, itemAt, itemAt, Option.bind_assoc]
    exact congrArg _ (funext fun u => ih)

theorem reflTransGen_of_itemAt {n : Nat} (h : c.itemAt n t = some u) :
    Relation.ReflTransGen c.ListOf t u := by
  induction n generalizing t with
  | zero =>
    obtain rfl := Option.some.inj h
    exact .refl
  | succ n ih =>
    obtain ⟨s, hs, hn⟩ := Option.bind_eq_some_iff.1 h
    exact .head hs (ih hn)

theorem transGen_of_itemAt {n : Nat} (h : c.itemAt (n + 1) t = some u) :
    Relation.TransGen c.ListOf t u := by
  obtain ⟨s, hs, hn⟩ := Option.bind_eq_some_iff.1 h
  exact .head' hs (reflTransGen_of_itemAt hn)

theorem itemAt_mem {n : Nat} (hs : s ∈ c.typesFrom t) (h : c.itemAt n s = some u) :
    u ∈ c.typesFrom t := by
  induction n generalizing s with
  | zero =>
    obtain rfl := Option.some.inj h
    exact hs
  | succ n ih =>
    obtain ⟨v, hv, hn⟩ := Option.bind_eq_some_iff.1 h
    exact ih (ListOf.mem_typesFrom hv hs) hn

theorem isSome_itemAt_of_le {m n : Nat} (hmn : m ≤ n) (h : (c.itemAt n t).isSome = true) :
    ∃ u, c.itemAt m t = some u := by
  obtain ⟨k, rfl⟩ := Nat.exists_eq_add_of_le hmn
  rw [itemAt_add] at h
  obtain ⟨w, hw⟩ := Option.isSome_iff_exists.1 h
  obtain ⟨u, hu, -⟩ := Option.bind_eq_some_iff.1 hw
  exact ⟨u, hu⟩

/-- Lists that are nested as deep as there are types have one of these twice. -/
theorem circular_of_kind?_eq_none (h : c.kind? t = none) : c.Circular t := by
  classical
  have hsome := kindWithin_eq_none_iff.1 h
  have hat : ∀ i ≤ (c.typesFrom t).length, ∃ u, c.itemAt i t = some u := fun i hi =>
    isSome_itemAt_of_le (Nat.le_succ_of_le hi) hsome
  have hmaps : Set.MapsTo (fun i => (c.itemAt i t).getD t)
      (Finset.range ((c.typesFrom t).length + 1)) (c.typesFrom t).toFinset := by
    intro i hi
    obtain ⟨u, hu⟩ := hat i (Nat.le_of_lt_succ (Finset.mem_range.1 hi))
    simpa [hu] using itemAt_mem mem_typesFrom_self hu
  have hcard : (c.typesFrom t).toFinset.card < (Finset.range ((c.typesFrom t).length + 1)).card := by
    rw [Finset.card_range]
    exact Nat.lt_succ_of_le (List.toFinset_card_le _)
  obtain ⟨i, hi, j, hj, hne, heq⟩ := Finset.exists_ne_map_eq_of_card_lt_of_maps_to hcard hmaps
  wlog hij : i < j generalizing i j
  · exact this j hj i hi hne.symm heq.symm (by omega)
  obtain ⟨u, hu⟩ := hat i (Nat.le_of_lt_succ (Finset.mem_range.1 hi))
  obtain ⟨v, hv⟩ := hat j (Nat.le_of_lt_succ (Finset.mem_range.1 hj))
  obtain rfl : u = v := by simpa [hu, hv] using heq
  obtain ⟨d, rfl⟩ := Nat.exists_eq_add_of_lt hij
  rw [Nat.add_assoc, itemAt_add, hu, Option.bind_some] at hv
  exact ⟨u, reflTransGen_of_itemAt hu, transGen_of_itemAt hv⟩

theorem Circular.next (h : c.Circular t) : ∃ u, c.ListOf t u ∧ c.Circular u := by
  obtain ⟨w, hto, hcycle⟩ := h
  rcases Relation.ReflTransGen.cases_head hto with rfl | ⟨u, hu, hto⟩
  · obtain ⟨u, hu, hback⟩ := Relation.TransGen.head'_iff.1 hcycle
    exact ⟨u, hu, _, hback, hcycle⟩
  · exact ⟨u, hu, w, hto, hcycle⟩

/-- From a circular type the search goes on whatever its bound is. -/
theorem Circular.kindWithin_eq_none (h : c.Circular t) (n : Nat) : c.kindWithin n t = none := by
  rw [kindWithin_eq_none_iff]
  induction n generalizing t with
  | zero =>
    obtain ⟨u, hu, -⟩ := h.next
    rw [itemAt_succ hu]
    rfl
  | succ n ih =>
    obtain ⟨u, hu, h⟩ := h.next
    rw [itemAt_succ hu]
    exact ih h

theorem kind?_eq_none_iff : c.kind? t = none ↔ c.Circular t :=
  ⟨circular_of_kind?_eq_none, fun h => h.kindWithin_eq_none _⟩

/-- The bound hides nothing: what is found within any bound is found. -/
theorem kind?_eq_some_iff {k : Option SimpleKind} :
    c.kind? t = some k ↔ ∃ n, c.kindWithin n t = some k := by
  refine ⟨fun h => ⟨_, h⟩, fun ⟨n, hn⟩ => ?_⟩
  cases h : c.kind? t with
  | none =>
    rw [(circular_of_kind?_eq_none h).kindWithin_eq_none n] at hn
    cases hn
  | some k' =>
    have h := kindWithin_mono (Nat.le_max_left _ n) h
    rw [kindWithin_mono (Nat.le_max_right (c.typesFrom t).length n) hn] at h
    exact h.symm

/-- The kind of a list follows from that of its items, without any bound. -/
theorem kind?_eq (c : Catalog) (t : TypeDef) : c.kind? t = c.kindBy c.kind? t := by
  rcases kindBy_cases c t with ⟨-, k, hk⟩ | ⟨u, -, hlist⟩
  · rw [hk, kind?_eq_some_iff]
    exact ⟨0, hk _⟩
  · refine Option.ext fun k => ?_
    rw [hlist]
    simp only [kind?_eq_some_iff, Option.map_eq_some_iff]
    constructor
    · rintro ⟨n, hn⟩
      cases n with
      | zero =>
        rw [kindWithin, hlist] at hn
        cases hn
      | succ n =>
        rw [kindWithin, hlist, Option.map_eq_some_iff] at hn
        obtain ⟨k', hk', hk⟩ := hn
        exact ⟨k', ⟨n, hk'⟩, hk⟩
    · rintro ⟨k', ⟨n, hn⟩, hk⟩
      exact ⟨n + 1, by rw [kindWithin, hlist, hn, Option.map_some, hk]⟩

end Catalog
end FeatureTables.Schema
