import FeatureTables.Proofs.Conversion.History
import FeatureTables.Proofs.Population.Cells

/-!
Rows are told apart by their identifiers. The account of a table goes with its rows: the numbers of a
table without identifiers of the document count its rows, and the identifiers that are known are those
of the rows. So the rows of a table have identifiers that are pairwise distinct (`identity_after`).
-/

namespace FeatureTables

namespace Population

/-! ### Accounts -/

section Traces

variable {t : Table} {a a' : Account} {vs : List Visit}

theorem succ_eq {n : Nat} (h : n + 1 < Nat.pow 2 63) : succ n = n + 1 := by
  have hhalf : Nat.pow 2 63 = 9223372036854775808 := rfl
  have hfull : Nat.pow 2 64 = 18446744073709551616 := rfl
  unfold succ
  rw [hfull]
  exact Int.bmod_eq_of_le (by omega) (by omega)

/-- Numbered rows are all new. -/
theorem Traces.all_new (h : Traces t a vs a') (ht : t.hasNaturalId = false) :
    ∀ v ∈ vs, v.row?.isSome = true := by
  induction h with
  | nil => simp
  | @cons a a₁ a' v vs hv _ ih =>
    refine List.forall_mem_cons.2 ⟨?_, ih⟩
    generalize v.id = id, hnew : v.row?.isSome = isNew at hv
    cases hv with
    | number => rfl
    | new hnatural => simp [ht] at hnatural
    | known hnatural => simp [ht] at hnatural

/-- The numbers of rows follow one another. -/
theorem Traces.numbers (h : Traces t a vs a') (ht : t.hasNaturalId = false) {k : Nat}
    (ha : a.last = k) (hk : k + vs.length < Nat.pow 2 63) :
    a'.last = (k + vs.length : Nat) ∧
      vs.map (·.id) = (List.range' (k + 1) vs.length).map fun i : Nat => Value.int i := by
  induction h generalizing k with
  | nil => exact ⟨ha, rfl⟩
  | @cons a a₁ a' v vs hv _ ih =>
    rw [List.length_cons] at hk
    generalize hid : v.id = id, v.row?.isSome = isNew at hv
    cases hv with
    | @number n known _ =>
      have hsucc : succ n = (k + 1 : Nat) := by
        rw [show n = k from ha, succ_eq (by omega)]
        rfl
      obtain ⟨hlast, hids⟩ := ih hsucc (by omega)
      constructor
      · rw [hlast, List.length_cons]
        congr 1
        omega
      · rw [List.map_cons, List.length_cons, List.range'_succ, List.map_cons, hids, hid, hsucc]
    | new hnatural => simp [ht] at hnatural
    | known hnatural => simp [ht] at hnatural

/-- The new identifiers of a table are pairwise distinct, none of them was known, and all others
are those of earlier rows. -/
theorem Traces.texts (h : Traces t a vs a') (ht : t.hasNaturalId = true) :
    ∃ ids : List String, ids.Nodup ∧ (∀ id ∈ ids, id ∉ a.known) ∧
      (vs.filter (·.row?.isSome)).map (·.id) = ids.map Value.text ∧
      ∀ v ∈ vs, ∃ id, v.id = .text id ∧ (id ∈ a.known ∨ id ∈ ids) := by
  induction h with
  | nil => exact ⟨[], List.nodup_nil, by simp, rfl, by simp⟩
  | @cons a a₁ a' v vs hv _ ih =>
    obtain ⟨ids, hnodup, hfresh, hids, hall⟩ := ih
    generalize hid : v.id = id, hnew : v.row?.isSome = isNew at hv
    cases hv with
    | number hsynthetic => simp [ht] at hsynthetic
    | @new n n' known id _ _ hknown =>
      refine ⟨id :: ids, List.nodup_cons.2 ⟨fun hmem => ?_, hnodup⟩, ?_, ?_, ?_⟩
      · exact hfresh id hmem List.mem_cons_self
      · refine List.forall_mem_cons.2 ⟨hknown, fun id' hid' hmem => ?_⟩
        exact hfresh id' hid' (List.mem_cons_of_mem _ hmem)
      · rw [List.filter_cons_of_pos (by simpa using hnew), List.map_cons, List.map_cons, hids, hid]
      · refine List.forall_mem_cons.2 ⟨⟨id, hid, Or.inr List.mem_cons_self⟩, fun w hw => ?_⟩
        obtain ⟨id', hid', hmem⟩ := hall w hw
        refine ⟨id', hid', ?_⟩
        rcases hmem with hmem | hmem
        · rcases List.mem_cons.1 hmem with rfl | hmem
          · exact Or.inr List.mem_cons_self
          · exact Or.inl hmem
        · exact Or.inr (List.mem_cons_of_mem _ hmem)
    | @known n n' known id _ _ hknown =>
      refine ⟨ids, hnodup, hfresh, ?_, List.forall_mem_cons.2 ⟨⟨id, hid, Or.inl hknown⟩, hall⟩⟩
      rw [List.filter_cons_of_neg (by simp [hnew]), hids]

end Traces

theorem knownIds_eq (m : Model) (t : Table) : knownIds m t =
    ((m.rowsOf t.name).map (·.get? t.uidName)).filterMap (·.map Value.toText) := by
  rw [List.filterMap_map]
  rfl

/-- The rows that visits made, by their identifiers. -/
theorem map_uid_made {s : Setting} {t : Table} {name : String} {vs : List Visit}
    (ht : s.model.table? name = some t) (hfollows : ∀ v ∈ vs, Follows s v) :
    (made name vs).map (·.get? t.uidName) =
      (((vs.filter (·.table = name)).filter (·.row?.isSome)).map (·.id)).map some := by
  induction vs with
  | nil => rfl
  | cons v vs ih =>
    have ih := ih fun w hw => hfollows w (List.mem_cons_of_mem _ hw)
    unfold made at ih ⊢
    rw [List.filterMap_cons]
    by_cases hname : v.table = name
    · rw [List.filter_cons_of_pos (by simpa using hname)]
      cases hrow : v.row? with
      | none => simpa [hname, hrow] using ih
      | some row =>
        have huid := (hfollows v List.mem_cons_self).get?_uid hrow (hname ▸ ht)
        simpa [hname, hrow, huid] using ih
    · rw [List.filter_cons_of_neg (by simpa using hname)]
      simpa [hname] using ih

end Population

/-! ### The identifiers of a table -/

/-- The rows of a table have distinct texts for identifiers, or the numbers from one on, as long as
these are numbers of 64 bits. -/
structure Table.Identifies (t : Table) (rows : List Row) : Prop where
  texts : t.hasNaturalId = true → ∃ ids : List String, ids.Nodup ∧
    rows.map (·.get? t.uidName) = (ids.map Value.text).map some
  numbers : t.hasNaturalId = false → rows.length < Nat.pow 2 63 → t.lastId = rows.length ∧
    rows.map (·.get? t.uidName) =
      ((List.range' 1 rows.length).map fun i : Nat => Value.int i).map some

namespace Table

variable {t u : Table} {rows : List Row}

theorem identifies_create (name : String) (natural : Bool) :
    (create name natural).Identifies [] where
  texts _ := ⟨[], List.nodup_nil, rfl⟩
  numbers _ _ := ⟨rfl, rfl⟩

theorem Identifies.grows (h : t.Identifies rows) (htu : t.Grows u) : u.Identifies rows where
  texts hnatural := by
    rw [htu.uidName]
    exact h.texts (htu.hasNaturalId ▸ hnatural)
  numbers hnatural hlength := by
    rw [htu.uidName, htu.lastId]
    exact h.numbers (htu.hasNaturalId ▸ hnatural) hlength

/-- Each row has an identifier, and these are pairwise distinct. -/
theorem Identifies.exists_ids (h : t.Identifies rows)
    (hlength : t.hasNaturalId = false → rows.length < Nat.pow 2 63) :
    ∃ ids : List Value, ids.Nodup ∧ rows.map (·.get? t.uidName) = ids.map some := by
  cases hnatural : t.hasNaturalId with
  | true =>
    obtain ⟨ids, hnodup, hids⟩ := h.texts hnatural
    exact ⟨_, hnodup.map fun a b hab => by simpa using hab, hids⟩
  | false =>
    obtain ⟨-, hids⟩ := h.numbers hnatural (hlength hnatural)
    refine ⟨_, (List.nodup_range' 1).map fun a b hab => ?_, hids⟩
    exact Int.ofNat_inj.1 (by simpa using hab)

theorem Identifies.nodup (h : t.Identifies rows)
    (hlength : t.hasNaturalId = false → rows.length < Nat.pow 2 63) :
    (rows.map (·.get? t.uidName)).Nodup := by
  obtain ⟨ids, hnodup, hids⟩ := h.exists_ids hlength
  rw [hids]
  exact hnodup.map fun a b => Option.some.inj

/-- The numbers of rows are between one and the last number of the table. -/
theorem Identifies.bounds (h : t.Identifies rows) (hnatural : t.hasNaturalId = false)
    (hlength : rows.length < Nat.pow 2 63) {row : Row} (hrow : row ∈ rows) :
    ∃ n : Int, row.get? t.uidName = some (.int n) ∧ 1 ≤ n ∧ n ≤ t.lastId := by
  obtain ⟨hlast, hids⟩ := h.numbers hnatural hlength
  have hmem : row.get? t.uidName ∈ rows.map (·.get? t.uidName) := List.mem_map_of_mem hrow
  rw [hids, List.map_map] at hmem
  obtain ⟨i, hi, hget⟩ := List.mem_map.1 hmem
  have := List.mem_range'_1.1 hi
  exact ⟨i, hget.symm, by omega, by omega⟩

open Population in
/-- Visits go on with the identifiers of the rows. -/
theorem Identifies.visited {m : Model} {s : Setting} {name : String} {vs : List Visit}
    {a a' : Account} (h : t.Identifies (m.rowsOf name)) (hname : t.name = name)
    (ht : s.model.table? name = some t) (hfollows : ∀ v ∈ vs, Follows s v)
    (hlast : a.last = t.lastId) (hknown : t.hasNaturalId = true → a.known = knownIds m t)
    (htraces : Traces t a (vs.filter (·.table = name)) a') :
    ({ t with lastId := max t.lastId a'.last } : Table).Identifies
      (m.rowsOf name ++ made name vs) where
  texts hnatural := by
    obtain ⟨ids, hnodup, hids⟩ := h.texts hnatural
    obtain ⟨new, hnodup', hfresh, hnew, -⟩ := htraces.texts hnatural
    have hids' : knownIds m t = ids := by
      rw [knownIds_eq, hname, hids, List.map_map, List.filterMap_map]
      exact List.filterMap_some
    refine ⟨ids ++ new, ?_, ?_⟩
    · rw [List.nodup_append]
      refine ⟨hnodup, hnodup', ?_⟩
      rintro id hid _ hid' rfl
      exact hfresh id hid' (by rw [hknown hnatural, hids']; exact hid)
    · show List.map (fun row : Row => row.get? t.uidName) _ = _
      rw [List.map_append, List.map_append, List.map_append, hids, map_uid_made ht hfollows, hnew]
  numbers hnatural hlength := by
    have hnew := htraces.all_new hnatural
    have huids := map_uid_made ht hfollows
    rw [List.filter_eq_self.2 hnew] at huids
    have hmade := length_made hnew
    rw [List.length_append] at hlength
    obtain ⟨hcount, hids⟩ := h.numbers hnatural (by omega)
    obtain ⟨hend, hids'⟩ := htraces.numbers hnatural (hlast.trans hcount) (by omega)
    constructor
    · show max t.lastId a'.last = _
      rw [hend, hcount, List.length_append, hmade]
      omega
    · show List.map (fun row : Row => row.get? t.uidName) _ = _
      rw [List.map_append, hids, huids, hids', List.length_append, hmade, ← List.map_append,
        ← List.map_append, Nat.add_comm _ 1, List.range'_append_1]

end Table

/-! ### The identifiers of a model -/

/-- Rows are in tables, and tell themselves apart there. -/
structure Model.Identified (m : Model) : Prop where
  rows : ∀ name, m.table? name = none → m.rowsOf name = []
  tables : ∀ name t, m.table? name = some t → t.Identifies (m.rowsOf name)

namespace Conversion

open Population Xml

/-- The tables of the setting tell apart the rows that were there before. -/
theorem Brings.identifies {m n : Model} {r : Run} (h : Brings m r n) (hids : m.Identified)
    {name : String} {u : Table} (hu : r.setting.model.table? name = some u) :
    u.Identifies (m.rowsOf name) := by
  cases ht : m.table? name with
  | none =>
    obtain ⟨natural, hgrows⟩ := h.grows.fresh name u hu ht
    rw [hids.rows name ht]
    exact (Table.identifies_create name natural).grows hgrows
  | some t =>
    obtain ⟨u', hu', hgrows⟩ := h.grows.kept name t ht
    rw [hu] at hu'
    cases hu'
    exact (hids.tables name t ht).grows hgrows

theorem Brings.identified {m n : Model} {r : Run} (h : Brings m r n) (hm : m.Sound)
    (hids : m.Identified) : n.Identified := by
  have hs := h.grows.sound hm
  constructor
  · intro name hname
    obtain ⟨hbefore, hvisits⟩ := h.unseen hname
    have hmade : made name r.visits = [] :=
      List.filterMap_eq_nil_iff.2 fun v hv => if_neg (hvisits v hv)
    rw [h.rows, hids.rows name hbefore, hmade]
    rfl
  · intro name u hu
    obtain ⟨t, -, ht, -⟩ := h.table_cases hu
    obtain ⟨a, a', hlast, hknown, htraces, hn⟩ := h.tables name t ht
    rw [hn] at hu
    cases hu
    rw [h.rows]
    exact (h.identifies hids ht).visited (hs.named name t ht) ht h.follows hlast hknown htraces

theorem identified_empty : ({} : Model).Identified where
  rows _ _ := rfl
  tables name t ht := by cases ht

theorem identified_after (c : Conversion) (docs : List Document) :
    (c.after docs).Identified := by
  rw [after_eq]
  exact (history_induct (P := fun h => h.model.Identified) identified_empty
    (fun _ _ _ hsound hbrings hids => hbrings.identified hsound hids) docs).2

/-- A row of a model has one cell for its identifier. -/
theorem uid_cells (c : Conversion) (docs : List Document) {name : String} {t : Table}
    (ht : (c.after docs).table? name = some t) {row : Row}
    (hrow : row ∈ (c.after docs).rowsOf name) :
    ∃ id, row.cells.filter (·.1 = t.uidName) = [(t.uidName, id)] := by
  obtain ⟨b, hb, rfl, rfl⟩ := mem_rowsOf_after.1 hrow
  obtain ⟨t₀, u, hsettled⟩ := settled_after docs b hb
  have hu := hsettled.grown
  rw [ht] at hu
  cases hu
  have hsound := hsettled.sound.tables _ t₀ hsettled.table
  have huid : t.uidName = t₀.uidName := hsettled.becomes.uidName
  have hget := hsettled.follows.get?_uid hsettled.made hsettled.table
  have hmem := (hsettled.follows.get?_eq_some_iff hsettled.made hsettled.table hsound).1 hget
  rw [huid]
  exact ⟨_, filter_column (hsettled.follows.nodup_columns hsettled.made hsettled.table hsound)
    hmem⟩

/-- The rows of a table have one cell each for the identifier, no two have the same identifier, and
numbers are between one and the last number of the table. Numbers are assumed to be numbers of
64 bits, which is to say that there are not more rows than these. -/
theorem identity_after (c : Conversion) (docs : List Document) (name : String) (t : Table)
    (ht : (c.after docs).table? name = some t)
    (hcount : t.hasNaturalId = false → ((c.after docs).rowsOf name).length < Nat.pow 2 63) :
    (∀ row ∈ (c.after docs).rowsOf name,
      (row.cells.filter (·.1 = t.uidName)).length = 1) ∧
    (((c.after docs).rowsOf name).map (·.get? t.uidName)).Nodup ∧
    (t.hasNaturalId = false → ∀ row ∈ (c.after docs).rowsOf name, ∀ n,
      row.get? t.uidName = some (.int n) → 1 ≤ n ∧ n ≤ t.lastId) := by
  have hids := (identified_after c docs).tables name t ht
  refine ⟨fun row hrow => ?_, hids.nodup hcount, fun hnatural row hrow n hn => ?_⟩
  · obtain ⟨id, hid⟩ := uid_cells c docs ht hrow
    rw [hid]
    rfl
  · obtain ⟨k, hk, hbounds⟩ := hids.bounds hnatural (hcount hnatural) hrow
    rw [hn] at hk
    cases hk
    exact hbounds

/-- Elements that may be repeated. -/
def repeatedSchema : String :=
  "<xs:schema xmlns:xs='http://www.w3.org/2001/XMLSchema'><xs:element name='a'><xs:complexType>" ++
  "<xs:sequence><xs:element name='b' type='xs:string' maxOccurs='unbounded'/></xs:sequence>" ++
  "</xs:complexType></xs:element></xs:schema>"

def repeatedDocuments : List Document := documents ["<a><b>x</b><b>y</b></a>", "<a><b>z</b></a>"]

/-- The three rows of a table that two documents filled. -/
theorem identity_of_repeated : ∃ t,
    ((ofText repeatedSchema).after repeatedDocuments).table? "a_b" = some t ∧
    (((ofText repeatedSchema).after repeatedDocuments).rowsOf "a_b").length = 3 ∧
    ((((ofText repeatedSchema).after repeatedDocuments).rowsOf "a_b").map
      (·.get? t.uidName)).Nodup := by
  obtain ⟨t, ht⟩ :
      ∃ t, ((ofText repeatedSchema).after repeatedDocuments).table? "a_b" = some t :=
    Option.isSome_iff_exists.1 (by decide +kernel)
  have hlength :
      (((ofText repeatedSchema).after repeatedDocuments).rowsOf "a_b").length = 3 := by
    decide +kernel
  have h := identity_after _ _ _ t ht fun _ => by
    rw [hlength]
    decide
  exact ⟨t, ht, hlength, h.2.1⟩

end Conversion

end FeatureTables
