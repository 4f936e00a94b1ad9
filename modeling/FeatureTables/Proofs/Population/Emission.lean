import FeatureTables.Proofs.Layout.Linked
import FeatureTables.Proofs.Population.Rows

/-!
Which elements are visited, and how often. The visits below one that made a row are those of the
elements that the keys of its table select (`Follows.visits_elements`). If each row next below a row is
selected under one key (`Selective`), each row of a document is visited once, unless it is inside of an
element whose row was there; and otherwise one of them is not (`emitsOnce_iff`).
-/

namespace FeatureTables.Population

open Xml Element Layout

/-! ### The elements of visits -/

/-- The elements that a field leads to. -/
def reached (s : Setting) (e : Element) : Field → List Element
  | .link l => s.layout.selectNodes l.key e
  | _ => []

/-- The keys of a table, other than that of the identifier, that lead from one element to another. -/
def keysTo (s : Setting) (t : Table) (e x : Element) : List String :=
  ((t.fields.entries.filter (·.1 ≠ t.uid)).filter fun field =>
    x.id ∈ (reached s e field.2).map (·.id)).map (·.1)

section Elements

variable {s : Setting} {v w : Visit} {t : Table} {e x : Element} {id : Value}
  {parent? : Option Parent}

theorem map_eq_of_forall₂ {α β : Type} {R : α → β → Prop} {f : β → α} {xs : List α} {ys : List β}
    (h : List.Forall₂ R xs ys) (hf : ∀ x y, R x y → f y = x) : ys.map f = xs := by
  induction h with
  | nil => rfl
  | cons hxy _ ih => rw [List.map_cons, ih, hf _ _ hxy]

theorem Fills.elements {key : String} {found : List (String × Value) × List Visit} {f : Field}
    (h : Fills s e t id parent? key found f) : found.2.map (·.element) = reached s e f := by
  cases f with
  | column c => rw [h.1]; rfl
  | backLink b => rw [h.1]; rfl
  | geometry g => rw [h.1]; rfl
  | link l => exact map_eq_of_forall₂ h.1 fun _ _ h => h.1

theorem elements_flatten {fields : List (String × Field)}
    {founds : List (List (String × Value) × List Visit)}
    (h : List.Forall₂ (fun field found => Fills s e t id parent? field.1 found field.2) fields
      founds) :
    (founds.map (·.2)).flatten.map (·.element) = fields.flatMap fun field => reached s e field.2 := by
  induction h with
  | nil => rfl
  | cons hfills _ ih =>
    rw [List.map_cons, List.flatten_cons, List.map_append, List.flatMap_cons, hfills.elements, ih]

/-- The visits below a row, by their elements. -/
theorem Follows.visits_elements (h : Follows s v) (hmade : v.row?.isSome = true)
    (ht : s.model.table? v.table = some t) : v.visits.map (·.element) =
      (t.fields.entries.filter (·.1 ≠ t.uid)).flatMap fun field => reached s v.element field.2 := by
  obtain ⟨row, hrow⟩ := Option.isSome_iff_exists.1 hmade
  obtain ⟨t', found, ht', -, hfound, -, hvisits⟩ := h.of_row hrow
  rw [ht] at ht'
  cases ht'
  rw [hvisits]
  exact elements_flatten hfound

theorem countP_reached (hd : e.Distinct) (f : Field) (x : Element) :
    (reached s e f).countP (·.id = x.id) =
      if x.id ∈ (reached s e f).map (·.id) then 1 else 0 := by
  have hnodup : ((reached s e f).map (·.id)).Nodup := by
    cases f with
    | link l => exact nodup_selectNodes hd l.key
    | column c => exact List.nodup_nil
    | backLink b => exact List.nodup_nil
    | geometry g => exact List.nodup_nil
  rw [← hnodup.count, List.count, List.countP_map]
  rfl

/-- An element is visited below a row once for each key that leads to it. -/
theorem Follows.count_visits (h : Follows s v) (hmade : v.row?.isSome = true)
    (ht : s.model.table? v.table = some t) (hd : v.element.Distinct) (x : Element) :
    v.visits.countP (·.element.id = x.id) = (keysTo s t v.element x).length := by
  have hcount : v.visits.countP (·.element.id = x.id) =
      (v.visits.map (·.element)).countP (·.id = x.id) := by
    rw [List.countP_map]
    rfl
  rw [hcount, h.visits_elements hmade ht, keysTo, List.length_map]
  induction t.fields.entries.filter (·.1 ≠ t.uid) with
  | nil => rfl
  | cons field fields ih =>
    rw [List.flatMap_cons, List.countP_append, ih, countP_reached hd, List.filter_cons]
    by_cases hx : x.id ∈ (reached s v.element field.2).map (·.id)
    · simp only [hx, if_true, decide_true, List.length_cons, Nat.add_comm]
    · simp only [hx, if_false, decide_false, Bool.false_eq_true, Nat.zero_add]

theorem mem_keysTo {key : String} {l : Link} (hl : t.fields.get? key = some (.link l))
    (hkey : l.key = key) (huid : key ≠ t.uid) (hx : x ∈ s.layout.selectNodes key e) :
    key ∈ keysTo s t e x := by
  have hentry := OrderedMap.mem_entries_of_get? hl
  have hreached : x.id ∈ (reached s e (.link l)).map (·.id) := by
    rw [reached, hkey]
    exact List.mem_map_of_mem hx
  refine List.mem_map.2 ⟨(key, .link l), List.mem_filter.2 ⟨?_, decide_eq_true hreached⟩, rfl⟩
  exact List.mem_filter.2 ⟨hentry, decide_eq_true huid⟩

/-! ### Where visits are -/

/-- A visit is in the table in which its element was placed. -/
def Visit.Placed (s : Setting) (v : Visit) : Prop :=
  s.layout.get? v.element.id = some (.table v.table)

/-- A visit below another one is of a row next below it, or of the same element again. -/
theorem Follows.visit_cases (h : Follows s v) (hplaced : v.Placed s) (hw : w ∈ v.visits) :
    (w.element = v.element ∨ w.element ∈ linked s.layout v.element) ∧ w.Placed s := by
  obtain ⟨-, -, l, hselect, htable⟩ := h.below hw
  have htarget : ∀ name, s.layout.get? w.element.id = some (.table name) → w.table = name := by
    intro name hname
    rw [htable, targetOf, hname]
  rcases mem_selectNodes hselect with ⟨-, heq⟩ | hlinked
  · refine ⟨Or.inl heq, ?_⟩
    unfold Visit.Placed at hplaced ⊢
    rw [← heq] at hplaced
    rw [htarget _ hplaced]
    exact hplaced
  · obtain ⟨name, hname⟩ := table_of_linked hlinked
    refine ⟨Or.inr hlinked, ?_⟩
    unfold Visit.Placed
    rw [htarget name hname]
    exact hname

/-- The visits of a subtree: from its root on, each one follows its table. -/
structure Visit.Tree (s : Setting) (v : Visit) : Prop where
  follows : ∀ w ∈ v.all, Follows s w
  placed : v.Placed s
  distinct : v.element.Distinct
  connected : Connected s.layout v.element

theorem mem_all_of_visits (hw : w ∈ v.visits) {u : Visit} (hu : u ∈ w.all) : u ∈ v.all := by
  rw [Visit.all_eq]
  exact List.mem_cons_of_mem _ (List.mem_flatMap.2 ⟨w, hw, hu⟩)

namespace Visit.Tree

theorem self (h : v.Tree s) : Follows s v := h.follows v (mem_all_self v)

theorem mem_descendants (h : v.Tree s) (hw : w ∈ v.visits) :
    w.element ∈ v.element.descendants := by
  rcases (h.self.visit_cases h.placed hw).1 with heq | hlinked
  · rw [heq]
    exact mem_descendants_self _
  · exact mem_descendants_iff.2 (Or.inr (linked_inner hlinked))

theorem below (h : v.Tree s) (hw : w ∈ v.visits) : w.Tree s where
  follows u hu := h.follows u (mem_all_of_visits hw hu)
  placed := (h.self.visit_cases h.placed hw).2
  distinct := h.distinct.of_mem (h.mem_descendants hw)
  connected y hy := h.connected y (mem_descendants_trans hy (h.mem_descendants hw))

theorem of_mem (h : v.Tree s) (hw : w ∈ v.all) : w.Tree s ∧ w.element ∈ v.element.descendants := by
  induction v using induct_tree with
  | h v ih =>
    rw [all_eq] at hw
    rcases List.mem_cons.1 hw with rfl | hw
    · exact ⟨h, mem_descendants_self _⟩
    · obtain ⟨u, hu, hw⟩ := List.mem_flatMap.1 hw
      obtain ⟨htree, hmem⟩ := ih u hu (h.below hu) hw
      exact ⟨htree, mem_descendants_trans hmem (h.mem_descendants hu)⟩

end Visit.Tree

end Elements

/-! ### Visits of an element -/

/-- The visits of an element. -/
def visitsAt (vs : List Visit) (x : Element) : List Visit := vs.filter (·.element.id = x.id)

/-- The element is inside of one whose row was there. -/
def hidden (vs : List Visit) (x : Element) : Bool :=
  vs.any fun w => w.row?.isNone && w.element.inner.any (·.id == x.id)

/-- Each element inside of `root` that has a row of its own is visited once, in the table of this row,
unless it is hidden. -/
def EmitsOnce (l : Layout) (vs : List Visit) (root : Element) : Prop :=
  ∀ x ∈ root.descendants, ∀ name, l.get? x.id = some (.table name) → hidden vs x = false →
    (visitsAt vs x).map (·.table) = [name]

/-- A visit that made a row: no key leads to its element again, and one key to each row next below. -/
def Selective (s : Setting) (v : Visit) : Prop :=
  ∀ t, s.model.table? v.table = some t → keysTo s t v.element v.element = [] ∧
    ∀ x ∈ linked s.layout v.element, ∃ key, keysTo s t v.element x = [key]

instance (s : Setting) (v : Visit) : Decidable (Selective s v) :=
  decidable_of_iff ((s.model.table? v.table).all (fun t =>
      (keysTo s t v.element v.element).isEmpty &&
        (linked s.layout v.element).all fun x => (keysTo s t v.element x).length == 1) = true) <| by
    unfold Selective
    cases s.model.table? v.table <;> simp [List.length_eq_one_iff]

section Once

variable {s : Setting} {v w : Visit} {x : Element}

theorem hidden_iff (h : v.Tree s) (hx : x ∈ v.element.descendants) :
    hidden v.all x = true ↔ ∃ w ∈ v.all, w.row? = none ∧ x ∈ w.element.inner := by
  simp only [hidden, List.any_eq_true, Bool.and_eq_true, Option.isNone_iff_eq_none, beq_iff_eq]
  refine exists_congr fun w => and_congr_right fun hw => and_congr_right fun _ => ?_
  constructor
  · rintro ⟨y, hy, hid⟩
    have hmem := mem_descendants_trans (mem_descendants_iff.2 (Or.inr hy)) (h.of_mem hw).2
    rwa [← h.distinct.eq_of_id hmem hx hid]
  · exact fun hx => ⟨x, hx, rfl⟩

theorem visitsAt_all (v : Visit) (x : Element) : visitsAt v.all x =
    (if v.element.id = x.id then [v] else []) ++ v.visits.flatMap fun w => visitsAt w.all x := by
  unfold visitsAt
  rw [Visit.all_eq, List.filter_cons, List.filter_flatMap]
  by_cases hid : v.element.id = x.id <;> simp [hid]

/-- No visit below one of an element is of an element elsewhere. -/
theorem visitsAt_eq_nil (h : v.Tree s) (hw : w ∈ v.all) (hx : x ∈ v.element.descendants)
    (hnot : x ∉ w.element.descendants) : visitsAt w.all x = [] := by
  refine List.filter_eq_nil_iff.2 fun u hu hid => hnot ?_
  obtain ⟨htree, hmem⟩ := h.of_mem hw
  have hmem' := (htree.of_mem hu).2
  rw [← h.distinct.eq_of_id (mem_descendants_trans hmem' hmem) hx (of_decide_eq_true hid)]
  exact hmem'

theorem hidden_of_visits (hw : w ∈ v.visits) (h : hidden v.all x = false) :
    hidden w.all x = false := by
  simp only [hidden, List.any_eq_false] at h ⊢
  exact fun u hu => h u (mem_all_of_visits hw hu)

theorem flatMap_eq_replicate {α β : Type} {p : α → Bool} {f : α → List β} {b : β} {xs : List α}
    (h : ∀ a ∈ xs, f a = if p a then [b] else []) :
    xs.flatMap f = List.replicate (xs.countP p) b := by
  induction xs with
  | nil => rfl
  | cons a xs ih =>
    rw [List.flatMap_cons, h a List.mem_cons_self,
      ih fun a ha => h a (List.mem_cons_of_mem _ ha), List.countP_cons]
    by_cases hp : p a <;> simp [hp, List.replicate_succ]

theorem Follows.visits_of_known (h : Follows s v) (hrow : v.row?.isSome = false) :
    v.visits = [] := by
  cases h with
  | known => rfl
  | made => cases hrow

/-- Where keys are selective, the visits below a row are of the rows next below it, and each of these
is visited. -/
theorem Selective.visits (h : v.Tree s) (hmade : v.row?.isSome = true) (hsel : Selective s v) :
    (∀ w ∈ v.visits, w.element ∈ linked s.layout v.element) ∧
      ∀ y ∈ linked s.layout v.element, v.visits.countP (·.element.id = y.id) = 1 := by
  obtain ⟨t, ht⟩ := h.self.table
  obtain ⟨hself, hbelow⟩ := hsel t ht
  constructor
  · intro w hw
    rcases (h.self.visit_cases h.placed hw).1 with heq | hlinked
    · have hcount := h.self.count_visits hmade ht h.distinct v.element
      rw [hself, List.length_nil, List.countP_eq_zero] at hcount
      exact absurd (by rw [heq]; exact decide_eq_true rfl) (hcount w hw)
    · exact hlinked
  · intro y hy
    obtain ⟨key, hkey⟩ := hbelow y hy
    rw [h.self.count_visits hmade ht h.distinct y, hkey]
    rfl

section Linked

variable (h : v.Tree s) (hlinked : ∀ w ∈ v.visits, w.element ∈ linked s.layout v.element)
include h hlinked

theorem visitsAt_self : visitsAt v.all v.element = [v] := by
  have hbelow : v.visits.flatMap (fun w => visitsAt w.all v.element) = [] := by
    refine List.flatMap_eq_nil_iff.2 fun w hw => ?_
    refine visitsAt_eq_nil h (mem_all_of_visits hw w.mem_all_self) (mem_descendants_self _) ?_
    exact h.distinct.asymm (h.mem_descendants hw) (linked_inner (hlinked w hw))
  rw [visitsAt_all, hbelow, if_pos rfl, List.append_nil]

/-- The visits of an element inside of a row next below are those below the visit of this row. -/
theorem visitsAt_inner {y : Element} (hy : y ∈ linked s.layout v.element)
    (honce : v.visits.countP (·.element.id = y.id) = 1) (hxy : x ∈ y.descendants) {name : String}
    (hbelow : ∀ w ∈ v.visits, w.element = y → (visitsAt w.all x).map (·.table) = [name]) :
    (visitsAt v.all x).map (·.table) = [name] := by
  have hinner := mem_inner_of_descendants hxy (linked_inner hy)
  have heach : ∀ w ∈ v.visits, (visitsAt w.all x).map (·.table) =
      if decide (w.element.id = y.id) then [name] else [] := by
    intro w hw
    by_cases hid : w.element.id = y.id
    · have hyd := mem_descendants_iff.2 (Or.inr (linked_inner hy))
      rw [if_pos (decide_eq_true hid)]
      exact hbelow w hw (h.distinct.eq_of_id (h.mem_descendants hw) hyd hid)
    · have hnot : x ∉ w.element.descendants := fun hmem =>
        hid (by rw [eq_linked h.distinct (hlinked w hw) hy hmem hxy])
      rw [if_neg (by simpa using hid), visitsAt_eq_nil h (mem_all_of_visits hw w.mem_all_self)
        (mem_descendants_iff.2 (Or.inr hinner)) hnot]
      rfl
  rw [visitsAt_all, if_neg (Ne.symm (h.distinct.id_ne hinner)), List.nil_append, List.map_flatMap,
    flatMap_eq_replicate heach, honce]
  rfl

end Linked

theorem Visit.Tree.table_eq (h : v.Tree s) {name : String}
    (hname : s.layout.get? v.element.id = some (.table name)) : v.table = name := by
  have := h.placed
  unfold Visit.Placed at this
  rw [hname] at this
  cases this
  rfl

/-- If the keys are selective, each row is visited once. -/
theorem emitsOnce_of_selective (h : v.Tree s)
    (hsel : ∀ w ∈ v.all, w.row?.isSome = true → Selective s w) :
    EmitsOnce s.layout v.all v.element := by
  induction v using Visit.induct_tree with
  | h v ih =>
    intro x hx name hname hhidden
    cases hmade : v.row?.isSome with
    | false =>
      have hinner : x ∉ v.element.inner := fun hx' => by
        have := (hidden_iff h hx).2 ⟨v, v.mem_all_self, by simpa using hmade, hx'⟩
        rw [hhidden] at this
        cases this
      obtain rfl := (mem_descendants_iff.1 hx).resolve_right hinner
      rw [visitsAt_self h (by simp [h.self.visits_of_known hmade]), List.map_singleton,
        h.table_eq hname]
    | true =>
      obtain ⟨hlinked, honce⟩ := (hsel v v.mem_all_self hmade).visits h hmade
      rcases mem_descendants_iff.1 hx with rfl | hinner
      · rw [visitsAt_self h hlinked, List.map_singleton, h.table_eq hname]
      · obtain ⟨y, hy, hxy⟩ := h.connected.linked_cases hinner hname
        refine visitsAt_inner h hlinked hy (honce y hy) hxy fun w hw heq => ?_
        exact ih w hw (h.below hw) (fun u hu => hsel u (mem_all_of_visits hw hu)) x
          (heq ▸ hxy) name hname (hidden_of_visits hw hhidden)

/-! ### Selective keys are needed -/

/-- Above the element of a visit, each row of the document has been made. -/
theorem exists_made_above (h : v.Tree s) {u : Visit} (hu : u ∈ v.all) {a : Element}
    (ha : a ∈ v.element.descendants) {name : String}
    (hname : s.layout.get? a.id = some (.table name)) (hua : u.element ∈ a.inner) :
    ∃ w ∈ v.all, w.row?.isSome = true ∧ w.element = a := by
  induction v using Visit.induct_tree with
  | h v ih =>
    rw [Visit.all_eq] at hu
    rcases List.mem_cons.1 hu with rfl | hu
    · exact absurd ha (h.distinct.asymm (mem_descendants_self _) hua)
    · obtain ⟨w, hw, hu⟩ := List.mem_flatMap.1 hu
      have hbelow : a ∈ w.element.descendants → ∃ w ∈ v.all, w.row?.isSome = true ∧ w.element = a := by
        intro ha
        obtain ⟨w', hw', hmade, heq⟩ := ih w hw (h.below hw) hu ha
        exact ⟨w', mem_all_of_visits hw hw', hmade, heq⟩
      have huw := ((h.below hw).of_mem hu).2
      rcases h.distinct.comparable ha (h.mem_descendants hw) (mem_descendants_iff.2 (Or.inr hua))
        huw with ha' | hwa
      · exact hbelow ha'
      · rcases mem_descendants_iff.1 hwa with heq | hwa
        · exact hbelow (heq ▸ mem_descendants_self _)
        · rcases mem_descendants_iff.1 ha with rfl | ha'
          · exact ⟨v, v.mem_all_self, (h.self.below hw).1, rfl⟩
          · rcases (h.self.visit_cases h.placed hw).1 with heq | hlinked
            · exact absurd (heq ▸ ha) (h.distinct.asymm (h.mem_descendants hw) hwa)
            · exact absurd (passes_between h.distinct hlinked ha' hwa) (not_passes_of_table hname)

theorem sublist_all (hw : w ∈ v.all) : w.all.Sublist v.all := by
  induction v using Visit.induct_tree with
  | h v ih =>
    rw [Visit.all_eq] at hw
    rcases List.mem_cons.1 hw with rfl | hw
    · exact List.Sublist.refl _
    · obtain ⟨u, hu, hw⟩ := List.mem_flatMap.1 hw
      rw [Visit.all_eq v, List.flatMap_def]
      exact ((ih u hu hw).trans (List.sublist_flatten_of_mem (List.mem_map_of_mem hu))).cons v

theorem sublist_visits (v : Visit) : v.visits.Sublist (v.visits.flatMap Visit.all) := by
  induction v.visits with
  | nil => exact List.Sublist.refl _
  | cons w ws ih =>
    rw [List.flatMap_cons, Visit.all_eq]
    exact (ih.trans (List.sublist_append_right _ _)).cons_cons w

theorem mem_visitsAt {vs : List Visit} : w ∈ visitsAt vs x ↔ w ∈ vs ∧ w.element.id = x.id := by
  simp [visitsAt]

section Needed

variable (h : v.Tree s) (honce : EmitsOnce s.layout v.all v.element)
include h honce

/-- An element with more than one visit is hidden. -/
theorem eq_of_not_hidden {u : Visit} (hu : u ∈ v.all) (hw : w ∈ v.all) (heq : u.element = w.element)
    (hhidden : hidden v.all u.element = false) : u = w := by
  obtain ⟨htree, hmem⟩ := h.of_mem hu
  have hat := honce u.element hmem u.table htree.placed hhidden
  obtain ⟨z, hz, -⟩ := List.map_eq_singleton_iff.1 hat
  have hmemu : u ∈ visitsAt v.all u.element := mem_visitsAt.2 ⟨hu, rfl⟩
  have hmemw : w ∈ visitsAt v.all u.element := mem_visitsAt.2 ⟨hw, by rw [heq]⟩
  rw [hz, List.mem_singleton] at hmemu hmemw
  rw [hmemu, hmemw]

/-- No visit is hidden: above a hidden one there would be another one, and so on. -/
theorem not_hidden {u : Visit} (hu : u ∈ v.all) : hidden v.all u.element = false := by
  suffices hall : ∀ n, ∀ u ∈ v.all, v.element.descendants.length < n + u.element.descendants.length →
      hidden v.all u.element = false from
    hall (v.element.descendants.length + 1) u hu (by omega)
  intro n
  induction n with
  | zero =>
    intro u hu hlength
    have := (sublist_descendants (h.of_mem hu).2).length_le
    omega
  | succ n ih =>
    intro u hu hlength
    by_contra hhidden
    obtain ⟨w, hw, hnone, hmem⟩ :=
      (hidden_iff h (h.of_mem hu).2).1 (by simpa using hhidden)
    obtain ⟨htree, hwmem⟩ := h.of_mem hw
    obtain ⟨w', hw', hmade, heq⟩ := exists_made_above h hu hwmem htree.placed hmem
    have hshort := length_descendants_lt hmem
    have := eq_of_not_hidden h honce hw hw' heq.symm (ih w hw (by omega))
    rw [← this, hnone] at hmade
    cases hmade

/-- Each visit is the only one of its element. -/
theorem visitsAt_eq {u : Visit} (hu : u ∈ v.all) : visitsAt v.all u.element = [u] := by
  obtain ⟨htree, hmem⟩ := h.of_mem hu
  have hat := honce u.element hmem u.table htree.placed (not_hidden h honce hu)
  obtain ⟨z, hz, -⟩ := List.map_eq_singleton_iff.1 hat
  have hmemu : u ∈ visitsAt v.all u.element := mem_visitsAt.2 ⟨hu, rfl⟩
  rw [hz, List.mem_singleton] at hmemu
  rw [hz, hmemu]

theorem not_again {u : Visit} (hu : u ∈ v.all) (hw : w ∈ u.visits) : w.element ≠ u.element := by
  intro heq
  have hlength := ((sublist_all hu).filter (·.element.id = u.element.id)).length_le
  have hpos : 0 < (u.visits.flatMap fun w => visitsAt w.all u.element).length :=
    List.length_pos_of_mem (List.mem_flatMap.2 ⟨w, hw, mem_visitsAt.2 ⟨w.mem_all_self, by rw [heq]⟩⟩)
  change (visitsAt u.all u.element).length ≤ (visitsAt v.all u.element).length at hlength
  rw [visitsAt_eq h honce hu, visitsAt_all, if_pos rfl, List.length_append, List.length_singleton]
    at hlength
  omega

/-- The rows next below one that was made are not hidden. -/
theorem not_hidden_linked (hw : w ∈ v.all) (hmade : w.row?.isSome = true)
    (hx : x ∈ linked s.layout w.element) : hidden v.all x = false := by
  obtain ⟨htree, hmem⟩ := h.of_mem hw
  have hxd := mem_descendants_iff.2 (Or.inr (linked_inner hx))
  have hxv := mem_descendants_trans hxd hmem
  by_contra hhidden
  obtain ⟨u, hu, hnone, hxu⟩ := (hidden_iff h hxv).1 (by simpa using hhidden)
  obtain ⟨hutree, humem⟩ := h.of_mem hu
  rcases h.distinct.comparable hmem humem hxd (mem_descendants_iff.2 (Or.inr hxu)) with hwu | huw
  · rcases mem_descendants_iff.1 hwu with heq | hwu
    · have := eq_of_not_hidden h honce hw hu heq (not_hidden h honce hw)
      rw [this, hnone] at hmade
      cases hmade
    · have := (hidden_iff h hmem).2 ⟨u, hu, hnone, hwu⟩
      rw [not_hidden h honce hw] at this
      cases this
  · rcases mem_descendants_iff.1 huw with heq | huw
    · have := eq_of_not_hidden h honce hw hu heq.symm (not_hidden h honce hw)
      rw [this, hnone] at hmade
      cases hmade
    · exact not_passes_of_table hutree.placed (passes_between htree.distinct hx huw hxu)

/-- The visit of a row next below one that was made is below the visit of this one. -/
theorem exists_visit_linked (hw : w ∈ v.all) (hmade : w.row?.isSome = true)
    (hx : x ∈ linked s.layout w.element) : ∃ u ∈ w.visits, u.element = x := by
  obtain ⟨htree, hmem⟩ := h.of_mem hw
  have hxv := mem_descendants_trans (mem_descendants_iff.2 (Or.inr (linked_inner hx))) hmem
  obtain ⟨name, hname⟩ := table_of_linked hx
  obtain ⟨u, hu, -⟩ := List.map_eq_singleton_iff.1
    (honce x hxv name hname (not_hidden_linked h honce hw hmade hx))
  have humem : u ∈ visitsAt v.all x := hu ▸ List.mem_singleton_self u
  obtain ⟨hu, hid⟩ := mem_visitsAt.1 humem
  have heq := h.distinct.eq_of_id (h.of_mem hu).2 hxv hid
  rcases Visit.mem_all_cases hu with rfl | ⟨u', hu', huu'⟩
  · exact absurd hmem (h.distinct.asymm (mem_descendants_self _) (heq ▸ linked_inner hx))
  · obtain ⟨hutree, humem'⟩ := h.of_mem hu'
    rcases (hutree.self.visit_cases hutree.placed huu').1 with hagain | hlinked
    · exact absurd hagain (not_again h honce hu' huu')
    · have habove := eq_of_linked h.distinct humem' hmem (not_passes_of_table hutree.placed)
        (not_passes_of_table htree.placed) (heq ▸ hlinked) hx
      obtain rfl := eq_of_not_hidden h honce hu' hw habove (not_hidden h honce hu')
      exact ⟨u, huu', heq⟩

/-- If each row is visited once, the keys are selective. -/
theorem selective_of_emitsOnce (hw : w ∈ v.all) (hmade : w.row?.isSome = true) :
    Selective s w := by
  intro t ht
  obtain ⟨htree, hmem⟩ := h.of_mem hw
  have hcount := htree.self.count_visits hmade ht htree.distinct
  constructor
  · refine List.eq_nil_of_length_eq_zero ?_
    rw [← hcount, List.countP_eq_zero]
    intro u hu hid
    have humem := htree.mem_descendants hu
    exact not_again h honce hw hu
      (htree.distinct.eq_of_id humem (mem_descendants_self _) (of_decide_eq_true hid))
  · intro x hx
    obtain ⟨u, hu, rfl⟩ := exists_visit_linked h honce hw hmade hx
    refine List.length_eq_one_iff.1 (Nat.le_antisymm ?_ ?_)
    · rw [← hcount, List.countP_eq_length_filter]
      have hsub : u.element ∈ v.element.descendants := mem_descendants_trans
        (htree.mem_descendants hu) hmem
      have hall : w.visits.Sublist v.all := by
        refine List.Sublist.trans ?_ (sublist_all hw)
        rw [Visit.all_eq]
        exact (sublist_visits w).cons w
      have hlength := (hall.filter (·.element.id = u.element.id)).length_le
      change _ ≤ (visitsAt v.all u.element).length at hlength
      rwa [visitsAt_eq h honce ((sublist_all hw).subset
        (mem_all_of_visits hu u.mem_all_self))] at hlength
    · rw [← hcount]
      exact List.countP_pos_iff.2 ⟨u, hu, by simp⟩

/-- The visits in a table are as many as the elements that were placed in it and are not hidden. -/
theorem length_visits_table (name : String) : (v.all.filter (·.table = name)).length =
    (v.element.descendants.filter fun x =>
      s.layout.get? x.id = some (.table name) && !hidden v.all x).length := by
  have hnodup : (v.all.map (·.element.id)).Nodup := by
    refine List.nodup_iff_count_le_one.2 fun i => ?_
    by_cases hi : ∃ u ∈ v.all, u.element.id = i
    · obtain ⟨u, hu, rfl⟩ := hi
      have hlength := congrArg List.length (visitsAt_eq h honce hu)
      rw [visitsAt, ← List.countP_eq_length_filter] at hlength
      rw [List.count, List.countP_map]
      exact Nat.le_of_eq hlength
    · rw [List.count_eq_zero_of_not_mem]
      · exact Nat.zero_le 1
      · simpa using hi
  have hperm : ((v.all.filter (·.table = name)).map (·.element.id)).Perm
      ((v.element.descendants.filter fun x =>
        s.layout.get? x.id = some (.table name) && !hidden v.all x).map (·.id)) := by
    refine (List.perm_ext_iff_of_nodup (hnodup.sublist (List.filter_sublist.map _))
      (h.distinct.sublist (List.filter_sublist.map _))).2 fun i => ?_
    simp only [List.mem_map, List.mem_filter, decide_eq_true_eq, Bool.and_eq_true,
      Bool.not_eq_true']
    constructor
    · rintro ⟨u, ⟨hu, rfl⟩, rfl⟩
      obtain ⟨htree, hmem⟩ := h.of_mem hu
      exact ⟨u.element, ⟨hmem, htree.placed, not_hidden h honce hu⟩, rfl⟩
    · rintro ⟨x, ⟨hx, hname, hhidden⟩, rfl⟩
      obtain ⟨u, hu, htable⟩ := List.map_eq_singleton_iff.1 (honce x hx name hname hhidden)
      have humem : u ∈ visitsAt v.all x := hu ▸ List.mem_singleton_self u
      obtain ⟨hu, hid⟩ := mem_visitsAt.1 humem
      exact ⟨u, ⟨hu, htable⟩, hid⟩
  simpa using hperm.length_eq

end Needed

/-- Each row of a document is visited once exactly if the keys of all rows are selective. -/
theorem emitsOnce_iff (h : v.Tree s) : EmitsOnce s.layout v.all v.element ↔
    ∀ w ∈ v.all, w.row?.isSome = true → Selective s w :=
  ⟨fun honce _ hw hmade => selective_of_emitsOnce h honce hw hmade, emitsOnce_of_selective h⟩

end Once

end FeatureTables.Population
