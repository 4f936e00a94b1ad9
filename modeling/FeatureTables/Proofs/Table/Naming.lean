import FeatureTables.Proofs.Sql
import FeatureTables.Proofs.Table.Joining

/-!
How tables name their columns. What calls make of a table is, but for its counters, a matter of the fields
that they add in turn (`calls_eq`). So columns have distinct names, a free name is found where the suggested
one is taken, and a key that has a column is never given another one (`columns_stay_apart`). A link that has
come to lead to many rows has no column, unless its suggested name was taken when it came first, with a
column (`column_of_many_iff`).
-/

namespace FeatureTables.Table

/-! ### Calls -/

/-- What is done to a table: a field is added to it, or another table is joined to it. -/
inductive Call where
  | add (f : Field)
  | join (u : Table)

/-- The fields that a call adds, in this order. -/
def Call.fields : Call → List Field
  | add f => [f]
  | join u => u.fields.values

def call (t : Table) : Call → Table
  | .add f => t.addField f
  | .join u => t.join u

/-- The table after calls. -/
def calls (t : Table) (cs : List Call) : Table := cs.foldl call t

section Calls

variable {t : Table}

theorem addField_counted (t : Table) (f : Field) (mergeable : Bool) (lastId : Int) :
    ({ t with mergeable, lastId } : Table).addField f = { t.addField f with mergeable, lastId } := by
  unfold addField
  split
  · rfl
  · cases t.fields.get? f.key with
    | none => rfl
    | some g => rfl

theorem addFields_counted (t : Table) (fs : List Field) (mergeable : Bool) (lastId : Int) :
    fs.foldl addField { t with mergeable, lastId } =
      { fs.foldl addField t with mergeable, lastId } := by
  induction fs generalizing t with
  | nil => rfl
  | cons f fs ih => rw [List.foldl_cons, addField_counted, ih, List.foldl_cons]

theorem call_eq (t : Table) (c : Call) : ∃ mergeable lastId,
    t.call c = { c.fields.foldl addField t with mergeable, lastId } := by
  cases c with
  | add f => exact ⟨_, _, rfl⟩
  | join u => exact ⟨_, _, addFields_counted t u.fields.values _ _⟩

/-- Calls add their fields one after the other; the rest is counters. -/
theorem calls_eq (t : Table) (cs : List Call) : ∃ mergeable lastId,
    t.calls cs = { (cs.flatMap Call.fields).foldl addField t with mergeable, lastId } := by
  induction cs generalizing t with
  | nil => exact ⟨_, _, rfl⟩
  | cons c cs ih =>
    obtain ⟨mergeable, lastId, hcs⟩ := ih (t.call c)
    obtain ⟨mergeable', lastId', hc⟩ := call_eq t c
    refine ⟨mergeable, lastId, ?_⟩
    rw [show t.calls (c :: cs) = (t.call c).calls cs from rfl, hcs, hc, addFields_counted,
      List.flatMap_cons, List.foldl_append]

theorem grows_calls (t : Table) (cs : List Call) : ∃ mergeable lastId,
    ({ t with mergeable, lastId } : Table).Grows (t.calls cs) := by
  obtain ⟨mergeable, lastId, he⟩ := calls_eq t cs
  refine ⟨mergeable, lastId, ?_⟩
  rw [he, ← addFields_counted]
  exact grows_addFields _ _

theorem Sound.calls (ht : t.Sound) (cs : List Call) : (t.calls cs).Sound := by
  obtain ⟨mergeable, lastId, hgrows⟩ := grows_calls t cs
  exact (ht.counted _ _).grows hgrows

end Calls

/-! ### Names -/

section Names

variable {t : Table} {f : Field} {key column column' : String}

theorem Sound.nodup_columnNames (ht : t.Sound) : t.columnNames.Nodup :=
  Sql.map_columns t ▸ Sql.nodup_columns ht

/-- A new field whose name is taken is given the first free one. -/
theorem columnName?_addField_taken (hnew : f.key ∉ t.fields.keys) (huid : f.key ≠ t.uid)
    (hcolumn : f.columnName? = some column) (htaken : column ∈ t.columnNames) :
    (t.addField f).columnName? f.key = some (freeName t.columnNames column) := by
  rcases addField_cases t f with ⟨hk, -⟩ | ⟨-, g, hg, -⟩ | ⟨-, -, r, he, hr⟩
  · exact absurd hk huid
  · exact absurd (OrderedMap.mem_keys_of_get? hg) hnew
  · rcases hr with ⟨-, hfree⟩ | ⟨c, hc, rfl⟩
    · exact absurd htaken (hfree column hcolumn)
    · obtain rfl := Option.some.inj (hcolumn.symm.trans hc)
      rw [he, columnName?, OrderedMap.get?_put, if_pos rfl]
      rfl

/-- A key that has a column later on has it under the name of before. -/
theorem Sound.columnName?_calls (ht : t.Sound) (cs : List Call) (hc : t.columnName? key = some column)
    (hc' : (t.calls cs).columnName? key = some column') : column' = column := by
  have hkey : key ∈ t.fields.keys := by
    by_contra hnot
    rw [columnName?, ht.renamed key hnot, OrderedMap.get?_eq_none_iff.2 hnot] at hc
    cases hc
  obtain ⟨f, hf⟩ := OrderedMap.mem_keys_iff.1 hkey
  obtain ⟨mergeable, lastId, hgrows⟩ := grows_calls t cs
  rcases hgrows.columnName? hf with h | ⟨h, -⟩
  · exact Option.some.inj (hc'.symm.trans (h.trans hc))
  · rw [hc'] at h
    cases h

end Names

/-- Whatever fields are added to a new table and whatever tables are joined to it, no two of its columns
share a name; for a new field with a taken name there is a first free one among those with a number behind;
and a key with a column is not given another one by later calls. -/
theorem columns_stay_apart (name : String) (natural : Bool) (cs : List Call) :
    let t := (create name natural).calls cs
    t.columnNames.Nodup ∧
    (∀ f column, f.key ∉ t.fields.keys → f.columnName? = some column → column ∈ t.columnNames →
      ∃ n, 2 ≤ n ∧ n ≤ t.columnNames.length + 2 ∧
        (t.addField f).columnName? f.key = some (column ++ "_" ++ toString n) ∧
        column ++ "_" ++ toString n ∉ t.columnNames ∧
        ∀ i, 2 ≤ i → i < n → column ++ "_" ++ toString i ∈ t.columnNames) ∧
    ∀ ds key column column', t.columnName? key = some column →
      (t.calls ds).columnName? key = some column' → column' = column := by
  intro t
  have ht : t.Sound := (sound_create name natural).calls cs
  refine ⟨ht.nodup_columnNames, fun f column hnew hcolumn htaken => ?_, fun ds key column column' =>
    ht.columnName?_calls ds⟩
  have huid : f.key ≠ t.uid := fun h => hnew (h ▸ ht.mem_keys_uid)
  obtain ⟨i, hi, he, hfree, hfirst⟩ := freeName_eq t.columnNames column
  refine ⟨i + 2, by omega, by omega, ?_, hfree, fun j hj hji => ?_⟩
  · rw [columnName?_addField_taken hnew huid hcolumn htaken, he]
  · obtain ⟨k, rfl⟩ := Nat.exists_eq_add_of_le' hj
    exact hfirst k (by omega)

/-! ### Links to many rows -/

/-- The first of the fields with the key had a column, with a name that was taken by then. -/
def Outnamed (t : Table) (fs : List Field) (key : String) : Prop :=
  ∃ before f, before ++ [f] <+: fs ∧ f.key = key ∧ (∀ g ∈ before, g.key ≠ key) ∧
    ∃ column, f.columnName? = some column ∧ column ∈ (before.foldl addField t).columnNames

section Outnamed

variable {t : Table} {f : Field} {fs : List Field} {key : String}

/-- The first of the fields has the key. -/
theorem outnamed_cons_self : Outnamed t (f :: fs) f.key ↔
    ∃ column, f.columnName? = some column ∧ column ∈ t.columnNames := by
  refine exists_step_cons.trans ?_
  simp

/-- The first of the fields has another key. -/
theorem outnamed_cons_of_ne (hne : f.key ≠ key) :
    Outnamed t (f :: fs) key ↔ Outnamed (t.addField f) fs key := by
  refine exists_step_cons.trans ?_
  simp [hne, Outnamed]

theorem renamed_addField_iff (ht : t.Sound) (hnew : f.key ∉ t.fields.keys) :
    ((t.addField f).renamed.get? f.key).isSome = true ↔
      ∃ column, f.columnName? = some column ∧ column ∈ t.columnNames := by
  have huid : f.key ≠ t.uid := fun h => hnew (h ▸ ht.mem_keys_uid)
  have hnone := OrderedMap.get?_eq_none_iff.2 hnew
  cases hc : f.columnName? with
  | none => simp [addField, huid, hnone, hc, ht.renamed _ hnew]
  | some column =>
    by_cases htaken : column ∈ t.columnNames
    · simp [addField, huid, hnone, hc, htaken, Option.filter, OrderedMap.get?_put]
    · simp [addField, huid, hnone, hc, htaken, Option.filter, ht.renamed _ hnew]

/-- A new key is renamed exactly if its first field finds its name taken. -/
theorem renamed_addFields_iff (ht : t.Sound) (hnew : key ∉ t.fields.keys) (fs : List Field) :
    ((fs.foldl addField t).renamed.get? key).isSome = true ↔ Outnamed t fs key := by
  induction fs generalizing t with
  | nil =>
    rw [List.foldl_nil, ht.renamed key hnew]
    refine iff_of_false (by simp) ?_
    rintro ⟨before, f, hprefix, -⟩
    simp at hprefix
  | cons f fs ih =>
    rw [List.foldl_cons]
    by_cases hkey : f.key = key
    · subst hkey
      have hmem : f.key ∈ (t.addField f).fields.keys :=
        mem_keys_addField.2 (Or.inl ⟨rfl, fun h => hnew (h ▸ ht.mem_keys_uid)⟩)
      rw [(grows_addFields _ fs).renamed hmem, renamed_addField_iff ht hnew, outnamed_cons_self]
    · rw [outnamed_cons_of_ne hkey]
      refine ih (ht.addField f) fun hmem => ?_
      exact (mem_keys_addField.1 hmem).elim (fun h => hkey h.1.symm) hnew

end Outnamed

/-- The table without the field of the key. -/
def without (t : Table) (key : String) : Table :=
  { t with fields := ⟨t.fields.entries.filter (·.1 ≠ key)⟩ }

section Without

variable {t : Table} {key : String}

theorem columnName?_without {key' : String} (hne : key' ≠ key) :
    (t.without key).columnName? key' = t.columnName? key' := by
  have hlookup : ∀ es : List (String × Field),
      (es.filter (·.1 ≠ key)).lookup key' = es.lookup key' := by
    intro es
    induction es with
    | nil => rfl
    | cons e es ih =>
      obtain ⟨a, f⟩ := e
      by_cases ha : a = key
      · rw [List.filter_cons_of_neg (by simpa using ha), ih, OrderedMap.lookup_cons_ite,
          if_neg (ha ▸ hne)]
      · rw [List.filter_cons_of_pos (by simpa using ha), OrderedMap.lookup_cons_ite,
          OrderedMap.lookup_cons_ite, ih]
  unfold columnName?
  rw [show (t.without key).fields.get? key' = t.fields.get? key' from hlookup _]
  rfl

theorem columns_without (h : t.columnName? key = none) :
    Sql.columns (t.without key) = Sql.columns t := by
  show (t.fields.entries.filter (·.1 ≠ key)).filterMap _ = t.fields.entries.filterMap _
  rw [List.filterMap_filter]
  refine List.filterMap_congr fun e _ => ?_
  by_cases he : e.1 = key
  · simp [he, h]
  · simp [he, columnName?_without he]

/-- The definition of a table is as if fields without a column were not there. -/
theorem createTable_without (m : Model) (h : t.columnName? key = none) :
    Sql.createTable m (t.without key) = Sql.createTable m t := by
  have hgroups : Sql.groups (t.without key) = Sql.groups t := by
    simp only [Sql.groups, columns_without h]
    rfl
  delta Sql.createTable
  rw [hgroups, columns_without h]
  rfl

end Without

/-- A link that leads to many rows has no column exactly if, when its key came first, this was without a
column or with one whose name was free. Then the definition of the table is as if it were not there; else
it declares a column for the link. -/
theorem column_of_many_iff {name key : String} {natural : Bool} {cs : List Call} {l : Link}
    (hl : ((create name natural).calls cs).fields.get? key = some (.link l))
    (hmany : l.isMany = true) :
    let t := (create name natural).calls cs
    let outnamed := Outnamed (create name natural) (cs.flatMap Call.fields) key
    (t.columnName? key = none ↔ ¬ outnamed) ∧
    (¬ outnamed → ∀ m, Sql.createTable m t = Sql.createTable m (t.without key)) ∧
    (outnamed → ∃ column, (column, key, .link l) ∈ Sql.columns t) := by
  intro t outnamed
  have hcreate := sound_create name natural
  have ht : t.Sound := hcreate.calls cs
  have hcolumn : t.columnName? key = t.renamed.get? key := by
    rw [columnName?_eq hl, Field.columnName?, if_pos hmany, Option.or_none]
  have hrenamed : (t.renamed.get? key).isSome = true ↔ outnamed := by
    obtain ⟨mergeable, lastId, he⟩ := calls_eq (create name natural) cs
    have hnew : key ∉ (create name natural).fields.keys := by
      intro hmem
      obtain ⟨mergeable, lastId, hgrows⟩ := grows_calls (create name natural) cs
      obtain rfl : key = (create name natural).uid := by
        simpa [keys_create] using hmem
      exact ht.ne_uid_of_link hl hgrows.uid.symm
    rw [show t = _ from he]
    exact renamed_addFields_iff hcreate hnew _
  have hnone : t.columnName? key = none ↔ ¬ outnamed := by
    rw [← hrenamed, hcolumn, Bool.not_eq_true, Option.isSome_eq_false_iff, Option.isNone_iff_eq_none]
  refine ⟨hnone, fun h m => (createTable_without m (hnone.2 h)).symm, fun h => ?_⟩
  obtain ⟨column, hc⟩ := Option.isSome_iff_exists.1 (hrenamed.2 h)
  exact ⟨column, (Sql.mem_columns_iff ht.nodup).2 ⟨hl, hcolumn.trans hc⟩⟩

/-- A link to one row each. -/
def singleLink : Link := ⟨"c", "c", false, ⟨1, .bounded 1⟩, .int, none⟩

/-- The link to many rows. -/
def manyLink : Link := { singleLink with occurs := ⟨1, .unbounded⟩ }

/-- A link that has come to lead to many rows loses its column. -/
theorem column_of_widened :
    ((create "t" false).calls [.add (.link singleLink), .add (.link manyLink)]).fields.get? "c" =
      some (.link manyLink) ∧ manyLink.isMany = true ∧
    ((create "t" false).calls [.add (.link singleLink)]).columnName? "c" = some "c_id" ∧
    ((create "t" false).calls [.add (.link singleLink), .add (.link manyLink)]).columnName? "c" = none := by
  have hl : ((create "t" false).calls [.add (.link singleLink), .add (.link manyLink)]).fields.get? "c" =
      some (.link manyLink) := by decide
  refine ⟨hl, by decide, by decide +kernel, (column_of_many_iff hl (by decide)).1.2 ?_⟩
  rw [← renamed_addFields_iff (sound_create "t" false) (by decide)]
  decide +kernel

/-- A link that was given another name when it was single, since a column had its own, keeps its column
when it comes to lead to many rows, and the definition of the table declares it, with a reference. -/
theorem column_of_outnamed :
    let t := (create "t" false).calls
      [.add (.column ⟨"c_id/text()", .text, false, false⟩), .add (.link singleLink), .add (.link manyLink)]
    t.fields.get? "c" = some (.link manyLink) ∧ manyLink.isMany = true ∧
    t.columnName? "c" = some "c_id_2" ∧ Sql.createTable {} t =
      "CREATE TABLE \"t\" (\n    \"id\" INTEGER PRIMARY KEY AUTOINCREMENT,\n    \"c_id\" TEXT NOT NULL,\n" ++
      "    \"c_id_2\" INTEGER NOT NULL,\n    FOREIGN KEY (\"c_id_2\") REFERENCES \"c\" (\"id\") " ++
      "DEFERRABLE INITIALLY DEFERRED\n);" := by
  decide +kernel

end FeatureTables.Table
