import FeatureTables.Proofs.Layout.Closure
import FeatureTables.Proofs.Population.Commit
import FeatureTables.Proofs.Table.Joining

/-!
Models that are joined. Under each name stand the tables of both models, joined if there are two, and
the rows of the second model follow those of the first (`table?_pooled`, `rowsOf_pooled`). Links back are
put on top, which leaves the fields that are there alone (`table_of_join`). So the types of links agree
with their targets again, exactly if those of the fields that the second model alone brings do so
(`typed_join_iff`).
-/

namespace FeatureTables

open Layout

/-! ### Links back on top -/

/-- The second table is the first one with links back put into it. -/
structure Table.Backed (t u : Table) : Prop where
  grows : t.Grows u
  fields : ∀ key ∈ t.fields.keys, u.fields.get? key = t.fields.get? key

section Backed

variable {t u : Table} {key : String}

theorem Table.Backed.columnName? (h : t.Backed u) (hkey : key ∈ t.fields.keys) :
    u.columnName? key = t.columnName? key := by
  unfold Table.columnName?
  rw [h.grows.renamed hkey, h.fields key hkey]

theorem Table.Backed.addBackLink (h : t.Backed u) (b : BackLink) :
    t.Backed (u.addField (.backLink b)) := by
  refine ⟨h.grows.add _, fun key hkey => ?_⟩
  obtain ⟨f, hf⟩ := OrderedMap.mem_keys_iff.1 hkey
  rw [Table.get?_addField, h.fields key hkey, hf]
  split
  · exact congrArg some (f.join_backLink b)
  · rfl

end Backed

namespace Model

variable {m n : Model} {name : String}

theorem table_of_addBackLinks {u : Table} (hu : m.addBackLinks.table? name = some u) :
    ∃ t, m.table? name = some t ∧ t.Backed u :=
  tables_settling (Q := fun name u => ∃ t, m.table? name = some t ∧ t.Backed u)
    (fun _ t ht => ⟨t, ht, .refl t, fun _ _ => rfl⟩)
    (fun _ _ _ _ ⟨t, ht, hback⟩ => ⟨t, ht, hback.addBackLink _⟩) name u hu

theorem exists_table_addBackLinks {t : Table} (ht : m.table? name = some t) :
    ∃ u, m.addBackLinks.table? name = some u ∧ t.Backed u := by
  obtain ⟨u, hu, -⟩ := (grows_addBackLinks m).kept name t ht
  obtain ⟨t', ht', hback⟩ := table_of_addBackLinks hu
  obtain rfl := Option.some.inj (ht.symm.trans ht')
  exact ⟨u, hu, hback⟩

/-! ### Tables and rows of both -/

/-- What joining has made of the models before it puts links back. -/
def pooled (m n : Model) : Model :=
  let tables := n.tables.values.foldl addTable m
  let all := n.rows.entries.foldl (fun m (name, rows) => m.addRows name rows) tables
  { all with rootTable? := m.rootTable?.or n.rootTable? }

theorem addTable_eq (m : Model) (t : Table) :
    ∃ w, m.addTable t = { m with tables := m.tables.put t.name w } ∧
      (m.table? t.name).merge Table.join (some t) = some w := by
  unfold addTable
  cases h : m.table? t.name with
  | none => exact ⟨t, rfl, rfl⟩
  | some known => exact ⟨known.join t, rfl, rfl⟩

theorem table?_addTable (m : Model) (t : Table) (name : String) : (m.addTable t).table? name =
    if name = t.name then (m.table? name).merge Table.join (some t) else m.table? name := by
  obtain ⟨w, he, hw⟩ := addTable_eq m t
  rw [he]
  show (m.tables.put t.name w).get? name = _
  rw [OrderedMap.get?_put]
  split
  · rename_i hname
    rw [hname, hw]
  · rfl

/-- Tables with distinct names are added each under its own name; rows stay as they are. -/
theorem table?_addTables {es : List (String × Table)} (hes : (es.map (·.1)).Nodup)
    (hnamed : ∀ e ∈ es, e.2.name = e.1) (m : Model) :
    let all := (es.map (·.2)).foldl addTable m
    (∀ name, all.table? name = (m.table? name).merge Table.join (es.lookup name)) ∧
      all.rows = m.rows ∧ (m.tables.keys.Nodup → all.tables.keys.Nodup) := by
  induction es generalizing m with
  | nil => exact ⟨fun name => by simp, rfl, id⟩
  | cons e es ih =>
    obtain ⟨a, t⟩ := e
    rw [List.map_cons, List.nodup_cons] at hes
    obtain rfl : t.name = a := hnamed (a, t) List.mem_cons_self
    obtain ⟨htables, hrows, hnodup⟩ :=
      ih hes.2 (fun e he => hnamed e (List.mem_cons_of_mem _ he)) (m.addTable t)
    obtain ⟨w, he, -⟩ := addTable_eq m t
    refine ⟨fun name => ?_, hrows.trans (by rw [he]), fun hm => hnodup ?_⟩
    · rw [List.map_cons, List.foldl_cons, htables name, table?_addTable, OrderedMap.lookup_cons_ite]
      by_cases hname : name = t.name
      · have hnone : es.lookup name = none := OrderedMap.get?_eq_none_iff (m := ⟨es⟩).2 (hname ▸ hes.1)
        rw [if_pos hname, if_pos hname, hnone, Option.merge_none_right]
      · rw [if_neg hname, if_neg hname]
    · rw [he]
      exact OrderedMap.nodup_keys_put hm

/-- Models with sound tables, and with rows under distinct names. -/
structure Regular (m : Model) : Prop where
  sound : m.Sound
  rows : m.rows.keys.Nodup

section Join

variable (hn : n.Regular)

include hn

theorem table?_tables (m : Model) : let all := n.tables.values.foldl addTable m
    (∀ name, all.table? name = (m.table? name).merge Table.join (n.table? name)) ∧
      all.rows = m.rows ∧ (m.tables.keys.Nodup → all.tables.keys.Nodup) :=
  table?_addTables hn.sound.nodup
    (fun _ he => hn.sound.named _ _ (OrderedMap.get?_of_mem_entries hn.sound.nodup he)) m

theorem tables_pooled (m : Model) :
    (m.pooled n).tables = (n.tables.values.foldl addTable m).tables :=
  (Population.foldl_addRows n.rows.entries hn.rows (n.tables.values.foldl addTable m)).1

theorem table?_pooled (m : Model) (name : String) :
    (m.pooled n).table? name = (m.table? name).merge Table.join (n.table? name) := by
  rw [table?, tables_pooled hn]
  exact (table?_tables hn m).1 name

theorem rowsOf_pooled (m : Model) (name : String) :
    (m.pooled n).rowsOf name = m.rowsOf name ++ n.rowsOf name := by
  obtain ⟨-, hkept, -⟩ := table?_tables hn m
  obtain ⟨-, hall⟩ :=
    Population.foldl_addRows n.rows.entries hn.rows (n.tables.values.foldl addTable m)
  refine (hall name).trans ?_
  unfold rowsOf
  rw [show (n.tables.values.foldl addTable m).rows = m.rows from hkept]
  rfl

theorem sound_pooled (hm : m.Sound) : (m.pooled n).Sound := by
  have hall : ∀ name w, (m.pooled n).table? name = some w → w.name = name ∧ w.Sound := by
    intro name w hw
    rw [table?_pooled hn] at hw
    cases ht : m.table? name with
    | none =>
      rw [ht, Option.merge_none_left] at hw
      exact ⟨hn.sound.named name w hw, hn.sound.tables name w hw⟩
    | some t =>
      have hnamed := hm.named name t ht
      have hsound := hm.tables name t ht
      cases hv : n.table? name with
      | none =>
        rw [ht, hv, Option.merge_none_right] at hw
        exact Option.some.inj hw ▸ ⟨hnamed, hsound⟩
      | some v =>
        rw [ht, hv] at hw
        exact Option.some.inj hw ▸ ⟨(Table.join_name t v).trans hnamed, hsound.join v⟩
  refine ⟨?_, fun name w hw => (hall name w hw).1, fun name w hw => (hall name w hw).2⟩
  rw [tables_pooled hn]
  exact (table?_tables hn m).2.2 hm.nodup

/-! ### Both models in one -/

theorem rowsOf_join (m : Model) (name : String) :
    (m.join n).rowsOf name = m.rowsOf name ++ n.rowsOf name := by
  have hrows : (m.join n).rows = (m.pooled n).rows := (grows_addBackLinks _).rows
  rw [rowsOf, hrows]
  exact rowsOf_pooled hn m name

/-- A table of the whole is one of either model, or both of them joined, with links back. -/
theorem table_of_join {u : Table} (hu : (m.join n).table? name = some u) :
    ∃ w, (m.table? name).merge Table.join (n.table? name) = some w ∧ w.Backed u := by
  rw [← table?_pooled hn]
  exact table_of_addBackLinks hu

theorem exists_table_join {w : Table}
    (hw : (m.table? name).merge Table.join (n.table? name) = some w) :
    ∃ u, (m.join n).table? name = some u ∧ w.Backed u := by
  rw [← table?_pooled hn] at hw
  exact exists_table_addBackLinks hw

end Join

end Model

/-! ### Reading rows -/

/-- What a row has in the column of a field. -/
def Table.reading (t : Table) (row : Row) (key : String) : Option Value :=
  (t.columnName? key).bind row.get?

/-- The rows of the first model are in the second one, and have there what they had under each key. -/
def Model.ReadableIn (m l : Model) : Prop :=
  ∀ name t, m.table? name = some t → ∃ u, l.table? name = some u ∧ ∀ row ∈ m.rowsOf name,
    row ∈ l.rowsOf name ∧ ∀ key ∈ t.fields.keys, u.reading row key = t.reading row key

theorem Table.Backed.reading {t u : Table} {key : String} (h : t.Backed u)
    (hkey : key ∈ t.fields.keys) (row : Row) : u.reading row key = t.reading row key := by
  rw [Table.reading, h.columnName? hkey, Table.reading]

namespace Model

section Reading

variable {m n : Model} (hm : m.Sound) (hn : n.Regular)

include hm hn

/-- The rows of the first model lose the cells of links that the second one takes to repeat. -/
theorem readable_left_iff : m.ReadableIn (m.join n) ↔
    ∀ name t v, m.table? name = some t → n.table? name = some v →
      ∀ key ∈ t.fields.keys, t.loses v key = true →
        ∀ row ∈ m.rowsOf name, t.reading row key = none := by
  constructor
  · intro h name t v ht hv key hkey hloses row hrow
    obtain ⟨u, hu, hrows⟩ := h name t ht
    obtain ⟨u', hu', hback⟩ := exists_table_join hn (m := m) (w := t.join v) (by rw [ht, hv]; rfl)
    obtain rfl := Option.some.inj (hu.symm.trans hu')
    rw [← (hrows row hrow).2 key hkey, hback.reading (Table.mem_keys_join_left hkey), Table.reading,
      Table.columnName?_join_of_loses (hm.tables name t ht) (hn.sound.tables name v hv) hloses]
    rfl
  · intro h name t ht
    have hrows : ∀ row ∈ m.rowsOf name, row ∈ (m.join n).rowsOf name := fun row hrow => by
      rw [rowsOf_join hn]
      exact List.mem_append_left _ hrow
    cases hv : n.table? name with
    | none =>
      obtain ⟨u, hu, hback⟩ := exists_table_join hn (m := m) (w := t) (by rw [ht, hv]; rfl)
      exact ⟨u, hu, fun row hrow => ⟨hrows row hrow, fun key hkey => hback.reading hkey row⟩⟩
    | some v =>
      obtain ⟨u, hu, hback⟩ := exists_table_join hn (m := m) (w := t.join v) (by rw [ht, hv]; rfl)
      refine ⟨u, hu, fun row hrow => ⟨hrows row hrow, fun key hkey => ?_⟩⟩
      rw [hback.reading (Table.mem_keys_join_left hkey)]
      cases hloses : t.loses v key with
      | true =>
        rw [h name t v ht hv key hkey hloses row hrow, Table.reading,
          Table.columnName?_join_of_loses (hm.tables name t ht) (hn.sound.tables name v hv) hloses]
        rfl
      | false =>
        rw [Table.reading, Table.columnName?_join (hn.sound.tables name v hv) hkey hloses, Table.reading]

/-- The rows of the second model have what they had, exactly if they do so in the tables of both models
alone. -/
theorem readable_right_iff : n.ReadableIn (m.join n) ↔
    ∀ name t v, m.table? name = some t → n.table? name = some v →
      ∀ row ∈ n.rowsOf name, ∀ key ∈ v.fields.keys, (t.join v).reading row key = v.reading row key := by
  constructor
  · intro h name t v ht hv row hrow key hkey
    obtain ⟨u, hu, hrows⟩ := h name v hv
    obtain ⟨u', hu', hback⟩ := exists_table_join hn (m := m) (w := t.join v) (by rw [ht, hv]; rfl)
    obtain rfl := Option.some.inj (hu.symm.trans hu')
    rw [← (hrows row hrow).2 key hkey, hback.reading]
    exact Table.mem_keys_join_right (hm.tables name t ht) (hn.sound.tables name v hv) hkey
  · intro h name v hv
    have hrows : ∀ row ∈ n.rowsOf name, row ∈ (m.join n).rowsOf name := fun row hrow => by
      rw [rowsOf_join hn]
      exact List.mem_append_right _ hrow
    cases ht : m.table? name with
    | none =>
      obtain ⟨u, hu, hback⟩ := exists_table_join hn (m := m) (w := v) (by rw [ht, hv]; rfl)
      exact ⟨u, hu, fun row hrow => ⟨hrows row hrow, fun key hkey => hback.reading hkey row⟩⟩
    | some t =>
      obtain ⟨u, hu, hback⟩ := exists_table_join hn (m := m) (w := t.join v) (by rw [ht, hv]; rfl)
      refine ⟨u, hu, fun row hrow => ⟨hrows row hrow, fun key hkey => ?_⟩⟩
      rw [hback.reading, h name t v ht hv row hrow key hkey]
      exact Table.mem_keys_join_right (hm.tables name t ht) (hn.sound.tables name v hv) hkey

end Reading

end Model

/-! ### The types of links -/

/-- The table that a field refers to, and the type that it takes the identifiers there to have. -/
def Field.refers? : Field → Option (String × SqlType)
  | .link l => some (l.table, l.type)
  | .backLink b => some (b.table, b.type)
  | _ => none

theorem Field.refers?_join (f g : Field) : (f.join g).refers? = f.refers? := by
  cases f <;> cases g <;> rfl

theorem Field.refers?_relaxed (f : Field) : f.relaxed.refers? = f.refers? := by
  cases f <;> rfl

/-- The table is in the model, with identifiers of the type. -/
def Model.Types (m : Model) (r : String × SqlType) : Prop :=
  ∃ u, m.table? r.1 = some u ∧ u.uidType = r.2

/-- What links and links back refer to has the types that they say. -/
def Model.Typed (m : Model) : Prop :=
  ∀ name t key f r, m.table? name = some t → t.fields.get? key = some f → f.refers? = some r → m.Types r

theorem Field.lasts_refers (P : String × SqlType → Prop) :
    Field.Lasts fun f => ∀ r, f.refers? = some r → P r where
  join g hf r hr := hf r (by rwa [Field.refers?_join] at hr)
  relaxed hf r hr := hf r (by rwa [Field.refers?_relaxed] at hr)

namespace Model

variable {m n : Model}

theorem typed_of_all (hm : m.Sound)
    (h : AllFields (fun f => ∀ r, f.refers? = some r → m.Types r) m) : m.Typed := by
  intro name t key f r ht hf hr
  refine h name t ht key f hf ?_ r hr
  rintro rfl
  obtain ⟨c, hc⟩ := (hm.tables name t ht).uidColumn
  rw [hf] at hc
  cases hc
  cases hr

theorem Typed.of_fitting (h : Fitting m) : m.Typed := by
  refine typed_of_all h.sound fun name t ht => (h.fits name t ht).mono fun f hf r hr => ?_
  cases f with
  | link l =>
    cases hr
    obtain ⟨u, hu, htype⟩ := hf
    exact ⟨u, hu, htype.symm⟩
  | backLink b =>
    cases hr
    obtain ⟨u, hu, htype, -⟩ := hf
    exact ⟨u, hu, htype.symm⟩
  | column c => cases hr
  | geometry g => cases hr

section Typed

variable {name : String} {r : String × SqlType} (hm : m.Sound) (hn : n.Regular)

include hm hn

theorem sound_join : (m.join n).Sound := (grows_addBackLinks _).sound (sound_pooled hn hm)

theorem types_of_pooled {w : Table} (hw : (m.pooled n).table? name = some w) :
    (m.join n).Types (name, w.uidType) := by
  obtain ⟨u, hu, hback⟩ := exists_table_addBackLinks hw
  exact ⟨u, hu, hback.grows.uidType ((sound_pooled hn hm).tables name w hw)⟩

/-- The identifiers of the first model keep their types. -/
theorem types_left {t : Table} (ht : m.table? name = some t) : (m.join n).Types (name, t.uidType) := by
  have hw := table?_pooled hn m name
  rw [ht] at hw
  cases hv : n.table? name with
  | none =>
    rw [hv] at hw
    exact types_of_pooled hm hn hw
  | some v =>
    rw [hv] at hw
    have htype : (t.join v).uidType = t.uidType :=
      (Table.grows_join t v).uidType ((hm.tables name t ht).counted _ _)
    exact htype ▸ types_of_pooled hm hn hw

/-- Those of the second model do so, unless the first one has a table with others of the name. -/
theorem types_right_iff (hr : n.Types r) :
    (m.join n).Types r ↔ ∀ t, m.table? r.1 = some t → t.uidType = r.2 := by
  cases ht : m.table? r.1 with
  | some t =>
    obtain ⟨u, hu, htype⟩ := types_left hm hn ht
    constructor
    · rintro ⟨u', hu', htype'⟩ t' ht'
      obtain rfl := Option.some.inj (hu.symm.trans hu')
      obtain rfl := Option.some.inj ht'
      exact htype.symm.trans htype'
    · intro h
      exact ⟨u, hu, htype.trans (h t rfl)⟩
  | none =>
    obtain ⟨v, hv, htype⟩ := hr
    have hw := table?_pooled hn m r.1
    rw [ht, hv] at hw
    have htypes := types_of_pooled hm hn hw
    rw [htype] at htypes
    exact iff_of_true htypes nofun

/-- A field that the second model alone has is in the whole as it is. -/
theorem exists_field_right {v : Table} {key : String} {f : Field} (hv : n.table? name = some v)
    (hf : v.fields.get? key = some f) (hnew : ∀ t, m.table? name = some t → key ∉ t.fields.keys) :
    ∃ u, (m.join n).table? name = some u ∧ u.fields.get? key = some f := by
  have hfield : ∃ w, (m.table? name).merge Table.join (n.table? name) = some w ∧
      w.fields.get? key = some f := by
    cases ht : m.table? name with
    | none => exact ⟨v, by rw [hv]; rfl, hf⟩
    | some t =>
      have hnone := OrderedMap.get?_eq_none_iff.2 (hnew t ht)
      have huid : key ≠ t.uid := fun h => hnew t ht (h ▸ (hm.tables name t ht).mem_keys_uid)
      refine ⟨t.join v, by rw [hv]; rfl, ?_⟩
      rw [Table.get?_join t (hn.sound.tables name v hv), if_neg huid, hnone, hf]
      rfl
  obtain ⟨w, hw, hfield⟩ := hfield
  obtain ⟨u, hu, hback⟩ := exists_table_join hn hw
  exact ⟨u, hu, (hback.fields key (OrderedMap.mem_keys_of_get? hfield)).trans hfield⟩

/-- Where a field of the whole comes from, before links back are put: from the first model, as far as
what it refers to goes, or from the second one alone. -/
theorem field_of_pooled {w : Table} {key : String} {f : Field} (hw : (m.pooled n).table? name = some w)
    (hf : w.fields.get? key = some f) :
    (∃ t g, m.table? name = some t ∧ t.fields.get? key = some g ∧ f.refers? = g.refers?) ∨
    ∃ v, n.table? name = some v ∧ v.fields.get? key = some f ∧
      ∀ t, m.table? name = some t → key ∉ t.fields.keys := by
  rw [table?_pooled hn] at hw
  cases ht : m.table? name with
  | none =>
    rw [ht, Option.merge_none_left] at hw
    exact Or.inr ⟨w, hw, hf, nofun⟩
  | some t =>
    cases hv : n.table? name with
    | none =>
      rw [ht, hv, Option.merge_none_right] at hw
      obtain rfl := Option.some.inj hw
      exact Or.inl ⟨t, f, rfl, hf, rfl⟩
    | some v =>
      rw [ht, hv] at hw
      obtain rfl := Option.some.inj hw
      rw [Table.get?_join t (hn.sound.tables name v hv)] at hf
      cases hg : t.fields.get? key with
      | none =>
        have hnew := OrderedMap.get?_eq_none_iff.1 hg
        have huid : key ≠ t.uid := fun h => hnew (h ▸ (hm.tables name t ht).mem_keys_uid)
        rw [if_neg huid, hg, Option.merge_none_left] at hf
        exact Or.inr ⟨v, rfl, hf, fun t' ht' => Option.some.inj ht' ▸ hnew⟩
      | some g =>
        refine Or.inl ⟨t, g, rfl, hg, ?_⟩
        rw [hg] at hf
        split at hf
        · exact congrArg Field.refers? (Option.some.inj hf).symm
        · cases hvf : v.fields.get? key with
          | none =>
            rw [hvf] at hf
            exact congrArg Field.refers? (Option.some.inj hf).symm
          | some g' =>
            rw [hvf] at hf
            exact Option.some.inj hf ▸ Field.refers?_join g g'

/-- The types of links agree with their targets, exactly if those that the second model alone brings
agree with the tables of the first one. -/
theorem typed_join_iff (htyped : m.Typed) (htyped' : n.Typed) : (m.join n).Typed ↔
    ∀ name v key f r, n.table? name = some v → v.fields.get? key = some f → f.refers? = some r →
      (∀ t, m.table? name = some t → key ∉ t.fields.keys) →
      ∀ t, m.table? r.1 = some t → t.uidType = r.2 := by
  constructor
  · intro h name v key f r hv hf hr hnew
    obtain ⟨u, hu, hfield⟩ := exists_field_right hm hn hv hf hnew
    exact (types_right_iff hm hn (htyped' name v key f r hv hf hr)).1 (h name u key f r hu hfield hr)
  · intro h
    refine typed_of_all (sound_join hm hn) (AllFields.settling ?_ (Field.lasts_refers _) ?_)
    · intro name w hw key f hf _ r hr
      rcases field_of_pooled hm hn hw hf with ⟨t, g, ht, hg, hrefers⟩ | ⟨v, hv, hf, hnew⟩
      · obtain ⟨t', ht', htype⟩ := htyped name t key g r ht hg (hrefers.symm.trans hr)
        have htypes := types_left hm hn ht'
        rwa [htype] at htypes
      · exact (types_right_iff hm hn (htyped' name v key f r hv hf hr)).2
          (h name v key f r hv hf hr hnew)
    · intro o ho r hr
      obtain ⟨name, t, key, l, ht, -, -, rfl⟩ := (mem_owed_iff (sound_pooled hn hm)).1 ho
      cases hr
      exact types_of_pooled hm hn ht

end Typed

end Model

end FeatureTables
