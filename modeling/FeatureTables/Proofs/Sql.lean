import FeatureTables.Proofs.Table.Growth
import FeatureTables.Sql
import Mathlib.Data.List.Induction

/-!
What the definition of a table declares: the columns of its fields, and for each substitution group
the columns of the links to its members. A group is found by adding columns one by one (`Grouped`), and
has the members of the table and no others (`mem_group_iff`, `exists_group`).
-/

namespace FeatureTables.Sql

/-! ### Columns -/

theorem mem_columns_iff {t : Table} (h : t.fields.keys.Nodup) {column key : String} {f : Field} :
    (column, key, f) ∈ columns t ↔
      t.fields.get? key = some f ∧ t.columnName? key = some column := by
  rw [columns, List.mem_filterMap]
  constructor
  · rintro ⟨⟨k, g⟩, hmem, hname⟩
    obtain ⟨c, hc, he⟩ := Option.map_eq_some_iff.1 hname
    obtain ⟨rfl, rfl, rfl⟩ : c = column ∧ k = key ∧ g = f := by simpa using he
    exact ⟨OrderedMap.get?_of_mem_entries h hmem, hc⟩
  · rintro ⟨hf, hname⟩
    exact ⟨(key, f), OrderedMap.mem_entries_of_get? hf, by simp [hname]⟩

/-- The names of the columns are those of the fields. -/
theorem map_columns (t : Table) : (columns t).map (·.1) = t.columnNames := by
  simp only [columns, Table.columnNames, OrderedMap.keys, List.map_filterMap, List.filterMap_map]
  refine List.filterMap_congr fun e _ => ?_
  show ((t.columnName? e.1).map _).map _ = t.columnName? e.1
  cases t.columnName? e.1 <;> rfl

theorem nodup_columns {t : Table} (h : t.Sound) : ((columns t).map (·.1)).Nodup := by
  rw [map_columns, Table.columnNames, List.Nodup, List.pairwise_filterMap]
  refine List.Pairwise.imp_of_mem ?_ h.nodup
  rintro k k' hk hk' hne c hc c' hc' rfl
  exact hne (h.columns k k' c hk hk' hc hc')

/-! ### Groups -/

/-- The table has at this key a link with this column to a member of the group. -/
def IsMember (t : Table) (group key column : String) (l : Link) : Prop :=
  t.fields.get? key = some (.link l) ∧ l.group? = some group ∧ t.columnName? key = some column

/-- The group of a column. -/
def groupOf? (t : Table) : String × String × Field → Option String
  | (_, key, .link l) => if key = t.uid then none else l.group?
  | _ => none

/-- The column is that of a child that has to be there. -/
def isRequired : String × String × Field → Bool
  | (_, _, .link l) => 0 < l.occurs.min
  | _ => false

theorem isMember_iff {t : Table} (h : t.Sound) {group key column : String} {l : Link} :
    IsMember t group key column l ↔
      (column, key, .link l) ∈ columns t ∧ groupOf? t (column, key, .link l) = some group := by
  rw [mem_columns_iff h.nodup, IsMember]
  constructor
  · rintro ⟨hl, hgroup, hcolumn⟩
    refine ⟨⟨hl, hcolumn⟩, ?_⟩
    rw [groupOf?, if_neg (h.ne_uid_of_link hl), hgroup]
  · rintro ⟨⟨hl, hcolumn⟩, hgroup⟩
    rw [groupOf?, if_neg (h.ne_uid_of_link hl)] at hgroup
    exact ⟨hl, hgroup, hcolumn⟩

theorem groupOf?_eq_some {t : Table} {e : String × String × Field} {group : String}
    (h : groupOf? t e = some group) : ∃ l, e = (e.1, e.2.1, .link l) := by
  obtain ⟨column, key, f⟩ := e
  cases f with
  | link l => exact ⟨l, rfl⟩
  | column c => cases h
  | backLink b => cases h
  | geometry g => cases h

/-- Adds a column to its group, if it has one. -/
def addColumn (t : Table) (gs : List Group) (e : String × String × Field) : List Group :=
  match groupOf? t e with
  | some name => addMember gs name e.1 (isRequired e)
  | none => gs

/-- The groups of those columns that were added so far. -/
structure Grouped (t : Table) (es : List (String × String × Field)) (gs : List Group) : Prop where
  columns : ∀ g ∈ gs, g.columns = (es.filter (groupOf? t · = some g.name)).map (·.1)
  required : ∀ g ∈ gs, g.required = (es.filter (groupOf? t · = some g.name)).any isRequired
  found : ∀ e ∈ es, ∀ name, groupOf? t e = some name → ∃ g ∈ gs, g.name = name

section Grouped

variable {t : Table} {es : List (String × String × Field)} {gs : List Group}
  {e : String × String × Field} {name : String}

theorem filter_group_self (he : groupOf? t e = some name) :
    (es ++ [e]).filter (groupOf? t · = some name) = es.filter (groupOf? t · = some name) ++ [e] := by
  simp [List.filter_append, he]

theorem filter_group_other (he : groupOf? t e ≠ some name) :
    (es ++ [e]).filter (groupOf? t · = some name) = es.filter (groupOf? t · = some name) := by
  simp [List.filter_append, he]

/-- A column without a group changes nothing. -/
theorem Grouped.skip (h : Grouped t es gs) (he : groupOf? t e = none) :
    Grouped t (es ++ [e]) gs := by
  have hother : ∀ name, groupOf? t e ≠ some name := by simp [he]
  refine ⟨fun g hg => ?_, fun g hg => ?_, fun e' he' name hname => ?_⟩
  · rw [filter_group_other (hother _)]
    exact h.columns g hg
  · rw [filter_group_other (hother _)]
    exact h.required g hg
  · rcases List.mem_append.1 he' with he' | he'
    · exact h.found e' he' name hname
    · exact absurd hname (List.mem_singleton.1 he' ▸ hother name)

/-- A column goes behind those of its group. -/
theorem Grouped.join (h : Grouped t es gs) (he : groupOf? t e = some name)
    (hknown : ∃ g ∈ gs, g.name = name) : Grouped t (es ++ [e]) (gs.map fun g =>
      if g.name = name then ⟨name, g.columns ++ [e.1], g.required || isRequired e⟩ else g) := by
  refine ⟨fun g' hg' => ?_, fun g' hg' => ?_, fun e' he' name' hname => ?_⟩
  · obtain ⟨g, hg, rfl⟩ := List.mem_map.1 hg'
    by_cases hn : g.name = name
    · simp only [hn, if_true, filter_group_self he, List.map_append, List.map_cons, List.map_nil]
      rw [h.columns g hg, hn]
    · simp only [hn, if_false]
      rw [filter_group_other fun hg => hn (Option.some.inj (he.symm.trans hg)).symm]
      exact h.columns g hg
  · obtain ⟨g, hg, rfl⟩ := List.mem_map.1 hg'
    by_cases hn : g.name = name
    · simp only [hn, if_true, filter_group_self he, List.any_append, List.any_cons, List.any_nil,
        Bool.or_false]
      rw [h.required g hg, hn]
    · simp only [hn, if_false]
      rw [filter_group_other fun hg => hn (Option.some.inj (he.symm.trans hg)).symm]
      exact h.required g hg
  · obtain ⟨g, hg, hn⟩ : ∃ g ∈ gs, g.name = name' := by
      rcases List.mem_append.1 he' with he' | he'
      · exact h.found e' he' name' hname
      · rw [List.mem_singleton.1 he', he] at hname
        exact Option.some.inj hname ▸ hknown
    refine ⟨_, List.mem_map_of_mem hg, ?_⟩
    split
    · rename_i hgn
      exact hgn.symm.trans hn
    · exact hn

/-- The first column of a group makes the group. -/
theorem Grouped.create (h : Grouped t es gs) (he : groupOf? t e = some name)
    (hnew : ∀ g ∈ gs, g.name ≠ name) :
    Grouped t (es ++ [e]) (gs ++ [⟨name, [e.1], isRequired e⟩]) := by
  have hnone : es.filter (groupOf? t · = some name) = [] := by
    refine List.filter_eq_nil_iff.2 fun e' he' hn => ?_
    obtain ⟨g, hg, hgn⟩ := h.found e' he' name (of_decide_eq_true hn)
    exact hnew g hg hgn
  have hother : ∀ g ∈ gs, groupOf? t e ≠ some g.name := fun g hg hn =>
    hnew g hg (Option.some.inj (he.symm.trans hn)).symm
  refine ⟨fun g hg => ?_, fun g hg => ?_, fun e' he' name' hname => ?_⟩
  · rcases List.mem_append.1 hg with hg | hg
    · rw [filter_group_other (hother g hg)]
      exact h.columns g hg
    · rw [List.mem_singleton.1 hg, filter_group_self he, hnone]
      rfl
  · rcases List.mem_append.1 hg with hg | hg
    · rw [filter_group_other (hother g hg)]
      exact h.required g hg
    · rw [List.mem_singleton.1 hg, filter_group_self he, hnone]
      simp
  · rcases List.mem_append.1 he' with he' | he'
    · obtain ⟨g, hg, hn⟩ := h.found e' he' name' hname
      exact ⟨g, List.mem_append_left _ hg, hn⟩
    · rw [List.mem_singleton.1 he', he] at hname
      exact ⟨_, List.mem_append_right _ List.mem_cons_self, Option.some.inj hname⟩

theorem Grouped.addMember (h : Grouped t es gs) (he : groupOf? t e = some name) :
    Grouped t (es ++ [e]) (addMember gs name e.1 (isRequired e)) := by
  unfold Sql.addMember
  split
  case isTrue hknown =>
    obtain ⟨g, hg, hn⟩ := List.any_eq_true.1 hknown
    exact h.join he ⟨g, hg, by simpa using hn⟩
  case isFalse hnew =>
    exact h.create he fun g hg hn => hnew (List.any_eq_true.2 ⟨g, hg, by simp [hn]⟩)

theorem Grouped.addColumn (h : Grouped t es gs) (e : String × String × Field) :
    Grouped t (es ++ [e]) (addColumn t gs e) := by
  unfold Sql.addColumn
  cases he : groupOf? t e with
  | some name => exact h.addMember he
  | none => exact h.skip he

end Grouped

theorem groups_eq (t : Table) : groups t =
    ((columns t).foldl (addColumn t) []).mergeSort fun a b => a.name ≤ b.name := by
  unfold groups
  refine congrArg (List.mergeSort · _) (List.foldl_ext _ _ _ ?_)
  rintro gs ⟨column, key, f⟩ -
  cases f with
  | link l =>
    by_cases hkey : key = t.uid
    · cases hgroup : l.group? <;> simp [addColumn, groupOf?, hkey, hgroup]
    · cases hgroup : l.group? <;> simp [addColumn, groupOf?, isRequired, hkey, hgroup]
  | column c => rfl
  | backLink b => rfl
  | geometry g => rfl

theorem grouped (t : Table) : Grouped t (columns t) (groups t) := by
  have hfold : ∀ es, Grouped t es (es.foldl (addColumn t) []) := by
    intro es
    induction es using List.reverseRecOn with
    | nil => exact ⟨by simp, by simp, by simp⟩
    | append_singleton es e ih =>
      rw [List.foldl_append]
      exact ih.addColumn e
  have hmem : ∀ g, g ∈ groups t ↔ g ∈ (columns t).foldl (addColumn t) [] := by
    intro g
    rw [groups_eq]
    exact (List.mergeSort_perm _ _).mem_iff
  obtain ⟨hcolumns, hrequired, hfound⟩ := hfold (columns t)
  refine ⟨fun g hg => hcolumns g ((hmem g).1 hg), fun g hg => hrequired g ((hmem g).1 hg),
    fun e he name hname => ?_⟩
  obtain ⟨g, hg, hn⟩ := hfound e he name hname
  exact ⟨g, (hmem g).2 hg, hn⟩

section Groups

variable {t : Table} {g : Group}

theorem nodup_group (h : t.Sound) (hg : g ∈ groups t) : g.columns.Nodup := by
  rw [(grouped t).columns g hg]
  exact (nodup_columns h).sublist (List.filter_sublist.map _)

/-- The columns of a group are those of its members. -/
theorem mem_group_iff (h : t.Sound) (hg : g ∈ groups t) {column : String} :
    column ∈ g.columns ↔ ∃ key l, IsMember t g.name key column l := by
  rw [(grouped t).columns g hg, List.mem_map]
  constructor
  · rintro ⟨e, he, rfl⟩
    obtain ⟨he, hgroup⟩ := List.mem_filter.1 he
    have hgroup := of_decide_eq_true hgroup
    obtain ⟨l, hl⟩ := groupOf?_eq_some hgroup
    rw [hl] at he hgroup
    exact ⟨e.2.1, l, (isMember_iff h).2 ⟨he, hgroup⟩⟩
  · rintro ⟨key, l, hmember⟩
    obtain ⟨he, hgroup⟩ := (isMember_iff h).1 hmember
    exact ⟨_, List.mem_filter.2 ⟨he, decide_eq_true hgroup⟩, rfl⟩

/-- A group is required as soon as one of its members is. -/
theorem required_group_iff (h : t.Sound) (hg : g ∈ groups t) :
    g.required = true ↔ ∃ key column l, IsMember t g.name key column l ∧ 0 < l.occurs.min := by
  rw [(grouped t).required g hg, List.any_eq_true]
  constructor
  · rintro ⟨e, he, hrequired⟩
    obtain ⟨he, hgroup⟩ := List.mem_filter.1 he
    have hgroup := of_decide_eq_true hgroup
    obtain ⟨l, hl⟩ := groupOf?_eq_some hgroup
    rw [hl] at he hgroup hrequired
    exact ⟨e.2.1, e.1, l, (isMember_iff h).2 ⟨he, hgroup⟩, of_decide_eq_true hrequired⟩
  · rintro ⟨key, column, l, hmember, hmin⟩
    obtain ⟨he, hgroup⟩ := (isMember_iff h).1 hmember
    exact ⟨_, List.mem_filter.2 ⟨he, decide_eq_true hgroup⟩, decide_eq_true hmin⟩

theorem exists_group (h : t.Sound) {group key column : String} {l : Link}
    (hmember : IsMember t group key column l) : ∃ g ∈ groups t, g.name = group := by
  obtain ⟨he, hgroup⟩ := (isMember_iff h).1 hmember
  exact (grouped t).found _ he group hgroup

end Groups

end FeatureTables.Sql
