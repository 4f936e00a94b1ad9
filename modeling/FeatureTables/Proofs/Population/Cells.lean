import FeatureTables.Proofs.Population.Rows
import FeatureTables.Proofs.Table.Growth

/-!
The cells of a row that a visit made. Each cell stands in the column of the field that it was written
for, so no two stand in one column, and the identifier has a column of its own.
-/

namespace FeatureTables.Population

open Xml

section Cells

variable {s : Setting} {e : Element} {t : Table} {id : Value} {parent? : Option Parent}
  {key : String} {f : Field} {found : List (String × Value) × List Visit}

theorem cell_eq_nil_or (column? : Option String) (value? : Option Value) :
    cell column? value? = [] ∨
      ∃ c v, column? = some c ∧ value? = some v ∧ cell column? value? = [(c, v)] := by
  cases column? with
  | none => exact Or.inl rfl
  | some c =>
    cases value? with
    | none => exact Or.inl rfl
    | some v => exact Or.inr ⟨c, v, rfl, rfl, rfl⟩

/-- A field brings no cell, or one in its column. -/
theorem Fills.cells (h : Fills s e t id parent? key found f) :
    found.1 = [] ∨ ∃ c v, t.columnName? key = some c ∧ found.1 = [(c, v)] := by
  have hcell : ∀ value?, found.1 = cell (t.columnName? key) value? →
      found.1 = [] ∨ ∃ c v, t.columnName? key = some c ∧ found.1 = [(c, v)] := by
    intro value? h
    rw [h]
    rcases cell_eq_nil_or (t.columnName? key) value? with h | ⟨c, v, hc, -, h⟩
    · exact Or.inl h
    · exact Or.inr ⟨c, v, hc, h⟩
  cases f with
  | column c =>
    obtain ⟨-, h⟩ := h
    split at h
    · exact hcell _ h
    · exact Or.inl h.2
  | link l =>
    obtain ⟨-, -, -, h⟩ := h
    split at h
    · exact Or.inl h
    · exact hcell _ h
  | backLink b => exact hcell _ h.2
  | geometry g =>
    obtain ⟨-, h⟩ := h
    split at h
    · exact hcell _ h
    · exact Or.inl h.2

theorem Fills.column (h : Fills s e t id parent? key found f) {x : String × Value}
    (hx : x ∈ found.1) : t.columnName? key = some x.1 := by
  rcases h.cells with h | ⟨c, v, hc, h⟩ <;> rw [h] at hx
  · cases hx
  · rw [List.mem_singleton.1 hx, hc]

/-- The columns of the cells that fields bring are columns of the fields, in their order. -/
theorem sublist_columns {fields : List (String × Field)}
    {founds : List (List (String × Value) × List Visit)}
    (h : List.Forall₂ (fun field found => Fills s e t id parent? field.1 found field.2) fields
      founds) :
    ((founds.map (·.1)).flatten.map (·.1)).Sublist
      (fields.filterMap fun field => t.columnName? field.1) := by
  induction h with
  | nil => exact .slnil
  | @cons field found fields founds hfills _ ih =>
    rw [List.map_cons, List.flatten_cons, List.map_append, List.filterMap_cons]
    rcases hfills.cells with h | ⟨c, v, hc, h⟩
    · rw [h]
      cases t.columnName? field.1 with
      | none => exact ih
      | some c => exact ih.cons c
    · rw [h, hc]
      exact ih.cons_cons c

end Cells

/-! ### The cells of a row -/

section Row

variable {s : Setting} {v : Visit} {row : Row} {t : Table}

/-- No two cells of a row stand in one column. -/
theorem Follows.nodup_columns (h : Follows s v) (hrow : v.row? = some row)
    (ht : s.model.table? v.table = some t) (hsound : t.Sound) : (row.cells.map (·.1)).Nodup := by
  obtain ⟨t', found, ht', -, hfound, hcells, -⟩ := h.of_row hrow
  rw [ht] at ht'
  cases ht'
  have hfields : ((t.fields.entries.filter (·.1 ≠ t.uid)).map (·.1)).Nodup :=
    hsound.nodup.sublist (List.filter_sublist.map _)
  have hkeys : ∀ field ∈ t.fields.entries.filter (·.1 ≠ t.uid),
      field.1 ∈ t.fields.keys ∧ field.1 ≠ t.uid := by
    intro field hfield
    obtain ⟨hmem, hne⟩ := List.mem_filter.1 hfield
    exact ⟨List.mem_map_of_mem hmem, by simpa using hne⟩
  rw [hcells, List.map_cons, List.nodup_cons]
  constructor
  · intro hmem
    obtain ⟨field, hfield, hname⟩ := List.mem_filterMap.1 ((sublist_columns hfound).subset hmem)
    exact (hkeys field hfield).2 (hsound.eq_uid (hkeys field hfield).1 hname)
  · refine List.Nodup.sublist (sublist_columns hfound) ?_
    unfold List.Nodup
    rw [List.pairwise_filterMap]
    refine List.Pairwise.imp_of_mem ?_ (List.pairwise_map.1 hfields)
    rintro a b ha hb hne c hc c' hc' rfl
    exact hne (hsound.columns _ _ c (hkeys a ha).1 (hkeys b hb).1 hc hc')

theorem lookup_eq_some_iff {es : List (String × Value)} (h : (es.map (·.1)).Nodup) {c : String}
    {v : Value} : es.lookup c = some v ↔ (c, v) ∈ es :=
  (OrderedMap.mem_entries_iff (m := ⟨es⟩) h).symm

theorem filter_column {es : List (String × Value)} (h : (es.map (·.1)).Nodup) {c : String}
    {v : Value} (hmem : (c, v) ∈ es) : es.filter (·.1 = c) = [(c, v)] := by
  induction es with
  | nil => cases hmem
  | cons e es ih =>
    rw [List.map_cons, List.nodup_cons] at h
    rcases List.mem_cons.1 hmem with rfl | hmem
    · have hrest : es.filter (·.1 = c) = [] := by
        refine List.filter_eq_nil_iff.2 fun x hx hxc => h.1 ?_
        exact List.mem_map.2 ⟨x, hx, of_decide_eq_true hxc⟩
      rw [List.filter_cons_of_pos (by simp), hrest]
    · have hne : e.1 ≠ c := by
        intro hc
        exact h.1 (List.mem_map.2 ⟨_, hmem, hc.symm⟩)
      rw [List.filter_cons_of_neg (by simpa using hne)]
      exact ih h.2 hmem

theorem Follows.get?_eq_some_iff (h : Follows s v) (hrow : v.row? = some row)
    (ht : s.model.table? v.table = some t) (hsound : t.Sound) {c : String} {x : Value} :
    row.get? c = some x ↔ (c, x) ∈ row.cells :=
  lookup_eq_some_iff (h.nodup_columns hrow ht hsound)

/-- The identifier of a visit is in the row that it made. -/
theorem Follows.get?_uid (h : Follows s v) (hrow : v.row? = some row)
    (ht : s.model.table? v.table = some t) : row.get? t.uidName = some v.id := by
  obtain ⟨t', found, ht', -, -, hcells, -⟩ := h.of_row hrow
  rw [ht] at ht'
  cases ht'
  unfold Row.get?
  rw [hcells]
  simp

/-- What each field but the identifier brought. -/
theorem Follows.fills (h : Follows s v) (hrow : v.row? = some row)
    (ht : s.model.table? v.table = some t) {key : String} {f : Field}
    (hf : t.fields.get? key = some f) (hkey : key ≠ t.uid) :
    ∃ found, Fills s v.element t v.id v.parent? key found f ∧
      (∀ x ∈ found.1, x ∈ row.cells) ∧ ∀ w ∈ found.2, w ∈ v.visits := by
  obtain ⟨t', founds, ht', -, hfounds, hcells, hvisits⟩ := h.of_row hrow
  rw [ht] at ht'
  cases ht'
  have hmem : (key, f) ∈ t.fields.entries.filter (·.1 ≠ t.uid) :=
    List.mem_filter.2 ⟨OrderedMap.mem_entries_of_get? hf, by simpa using hkey⟩
  obtain ⟨found, hfound, hfills⟩ := exists_of_mem_left hfounds hmem
  refine ⟨found, hfills, fun x hx => ?_, fun w hw => ?_⟩
  · rw [hcells]
    exact List.mem_cons_of_mem _
      (List.mem_flatten.2 ⟨_, List.mem_map_of_mem hfound, hx⟩)
  · rw [hvisits]
    exact List.mem_flatten.2 ⟨_, List.mem_map_of_mem hfound, hw⟩

/-- A cell of a row is the identifier, or what a field brought. -/
theorem Follows.cell_cases (h : Follows s v) (hrow : v.row? = some row)
    (ht : s.model.table? v.table = some t) (hsound : t.Sound) {x : String × Value}
    (hx : x ∈ row.cells) : x = (t.uidName, v.id) ∨ ∃ key f found,
      t.fields.get? key = some f ∧ key ≠ t.uid ∧ Fills s v.element t v.id v.parent? key found f ∧
      x ∈ found.1 ∧ ∀ w ∈ found.2, w ∈ v.visits := by
  obtain ⟨t', founds, ht', -, hfounds, hcells, hvisits⟩ := h.of_row hrow
  rw [ht] at ht'
  cases ht'
  rw [hcells] at hx
  rcases List.mem_cons.1 hx with hx | hx
  · exact Or.inl hx
  · obtain ⟨cs, hcs, hx⟩ := List.mem_flatten.1 hx
    obtain ⟨found, hfound, rfl⟩ := List.mem_map.1 hcs
    obtain ⟨field, hfield, hfills⟩ := exists_of_mem_right hfounds hfound
    obtain ⟨hmem, hne⟩ := List.mem_filter.1 hfield
    refine Or.inr ⟨_, _, found, OrderedMap.get?_of_mem_entries hsound.nodup hmem, by simpa using hne,
      hfills, hx, fun w hw => ?_⟩
    rw [hvisits]
    exact List.mem_flatten.2 ⟨_, List.mem_map_of_mem hfound, hw⟩

end Row

end FeatureTables.Population
