import FeatureTables.Proofs.Conversion.History
import FeatureTables.Proofs.Population.Cells
import FeatureTables.Proofs.Sql

/-!
Which fields the cells of rows belong to. A row keeps the names of its columns, while the name of the
column of a field is found anew from what has become of the field. So a cell stays with the field that
it was written for as long as this field keeps its column, which a link does not do once its child may
repeat (`attached_after_iff`).
-/

namespace FeatureTables

open Population Xml

/-- Each cell of each row stands in a column that the definition of its table declares. -/
def Model.Declares (m : Model) : Prop :=
  ∀ name, ∀ row ∈ m.rowsOf name, ∃ t, m.table? name = some t ∧
    ∀ x ∈ row.cells, x.1 ∈ (Sql.columns t).map (·.1)

namespace Table

theorem Sound.mem_keys_of_column {t : Table} (h : t.Sound) {key column : String}
    (hcolumn : t.columnName? key = some column) : key ∈ t.fields.keys := by
  by_contra hkey
  have hnone := OrderedMap.get?_eq_none_iff.2 hkey
  simp [Table.columnName?, h.renamed key hkey, hnone] at hcolumn

/-- A column that a table had is gone exactly if it is that of a link to a child that may repeat by
now, under the name that the key suggests. -/
theorem Becomes.lost_iff {t u : Table} (h : t.Becomes u) {key column : String} {f : Field}
    (hf : t.fields.get? key = some f) (hcolumn : t.columnName? key = some column) :
    u.columnName? key ≠ some column ↔
      ∃ l, u.fields.get? key = some (.link l) ∧ l.isMany = true ∧ u.renamed.get? key = none := by
  constructor
  · intro hlost
    rcases h.columnName? hf with he | ⟨hnone, hsingle⟩
    · exact absurd (he.trans hcolumn) hlost
    · obtain ⟨l, rfl, -⟩ := hsingle
      obtain ⟨g, hg, hgrows⟩ := h.field hf
      cases hgrows with
      | @link _ l' =>
        rw [Table.columnName?, hg, Option.or_eq_none_iff] at hnone
        refine ⟨l', hg, ?_, hnone.1⟩
        simpa [Field.columnName?] using hnone.2
  · rintro ⟨l, hl, hmany, hrenamed⟩
    simp [Table.columnName?, hl, hrenamed, Field.columnName?, hmany]

end Table

namespace Conversion

/-! ### The field of a cell -/

/-- The row was made with this cell under this key: as its identifier, or as what a field brought. -/
def Birth.Wrote (b : Birth) (key : String) (x : String × Value) : Prop :=
  ∃ t, b.setting.model.table? b.visit.table = some t ∧
    (key = t.uid ∧ x = (t.uidName, b.visit.id) ∨ key ≠ t.uid ∧ ∃ f found,
      t.fields.get? key = some f ∧
      Fills b.setting b.visit.element t b.visit.id b.visit.parent? key found f ∧
      x ∈ found.1 ∧ ∀ w ∈ found.2, w ∈ b.visit.visits)

/-- The cell was written for a link that has no column any more. -/
def Birth.Detached (b : Birth) (u : Table) (x : String × Value) : Prop :=
  ∃ key l, b.Wrote key x ∧ u.fields.get? key = some (.link l) ∧ l.isMany = true ∧
    u.renamed.get? key = none

/-- Each cell stands in the column of just one key, and it was written under this key. -/
def Attached (c : Conversion) (docs : List Document) : Prop :=
  ∀ b ∈ c.births docs, ∀ u, (c.after docs).table? b.visit.table = some u → ∀ x ∈ b.row.cells,
    ∃ key, b.Wrote key x ∧ ∀ k, u.columnName? k = some x.1 ↔ k = key

section Births

variable {b : Birth} {m : Model} {t u : Table} {key : String} {x : String × Value}

/-- Each cell was written under some key. -/
theorem Birth.Settled.exists_wrote (h : b.Settled m t u) (hx : x ∈ b.row.cells) :
    ∃ key, b.Wrote key x := by
  rcases h.follows.cell_cases h.made h.table (h.sound.tables _ t h.table) hx with hx |
    ⟨key, f, found, hf, hkey, hfills, hx, hvisits⟩
  · exact ⟨t.uid, t, h.table, Or.inl ⟨rfl, hx⟩⟩
  · exact ⟨key, t, h.table, Or.inr ⟨hkey, f, found, hf, hfills, hx, hvisits⟩⟩

/-- The column of a cell was that of the key under which it was written. -/
theorem Birth.Settled.column_of_wrote (h : b.Settled m t u) (hx : b.Wrote key x) :
    ∃ f, t.fields.get? key = some f ∧ t.columnName? key = some x.1 := by
  have hsound := h.sound.tables _ t h.table
  obtain ⟨t', ht', hx⟩ := hx
  rw [h.table] at ht'
  cases ht'
  rcases hx with ⟨rfl, rfl⟩ | ⟨-, f, found, hf, hfills, hx, -⟩
  · obtain ⟨c, hc⟩ := hsound.uidColumn
    exact ⟨.column c, hc, hsound.columnName?_uid⟩
  · exact ⟨f, hf, hfills.column hx⟩

/-- A key under which a cell was written is the only one to have its column, if it still has it. -/
theorem Birth.Settled.only_key (h : b.Settled m t u) (hx : b.Wrote key x) :
    (∀ k, u.columnName? k = some x.1 ↔ k = key) ↔ ¬ b.Detached u x := by
  have hsound := h.becomes.sound (h.sound.tables _ t h.table)
  have hlost : ∀ {k}, b.Wrote k x → (u.columnName? k ≠ some x.1 ↔
      ∃ l, u.fields.get? k = some (.link l) ∧ l.isMany = true ∧ u.renamed.get? k = none) := by
    intro k hk
    obtain ⟨f, hf, hcolumn⟩ := h.column_of_wrote hk
    exact h.becomes.lost_iff hf hcolumn
  have hsame : ∀ {k}, b.Wrote k x → k = key := by
    intro k hk
    obtain ⟨f, hf, hcolumn⟩ := h.column_of_wrote hk
    obtain ⟨f', hf', hcolumn'⟩ := h.column_of_wrote hx
    exact (h.sound.tables _ t h.table).columns k key x.1 (OrderedMap.mem_keys_of_get? hf)
      (OrderedMap.mem_keys_of_get? hf') hcolumn hcolumn'
  constructor
  · rintro honly ⟨k, l, hk, hl⟩
    exact (hlost hk).2 ⟨l, hl⟩ ((honly k).2 (hsame hk))
  · intro hattached k
    have hkey : u.columnName? key = some x.1 := by
      by_contra hgone
      obtain ⟨l, hl⟩ := (hlost hx).1 hgone
      exact hattached ⟨key, l, hx, hl⟩
    refine ⟨fun hk => ?_, fun hk => hk ▸ hkey⟩
    exact hsound.columns k key x.1 (hsound.mem_keys_of_column hk) (hsound.mem_keys_of_column hkey)
      hk hkey

end Births

/-! ### The cells of a model -/

/-- Cells that stay with their fields are in declared columns. -/
theorem declares_of_attached {c : Conversion} {docs : List Document} (h : c.Attached docs) :
    (c.after docs).Declares := by
  intro name row hrow
  obtain ⟨b, hb, rfl, rfl⟩ := mem_rowsOf_after.1 hrow
  obtain ⟨t, u, hsettled⟩ := settled_after docs b hb
  have hsound := hsettled.becomes.sound (hsettled.sound.tables _ t hsettled.table)
  refine ⟨u, hsettled.grown, fun x hx => ?_⟩
  obtain ⟨key, -, honly⟩ := h b hb u hsettled.grown x hx
  have hkey := (honly key).2 rfl
  rw [Sql.map_columns]
  exact Table.mem_columnNames.2 ⟨key, hsound.mem_keys_of_column hkey, hkey⟩

/-- Each cell stays with the field that it was written for, and so in a column that its table
declares, exactly if no cell was written for a link whose child may repeat by now and whose column had
the name that its key suggests. -/
theorem attached_after_iff (c : Conversion) (docs : List Document) :
    (c.Attached docs ↔ ∀ b ∈ c.births docs, ∀ u,
      (c.after docs).table? b.visit.table = some u → ∀ x ∈ b.row.cells, ¬ b.Detached u x) ∧
    (c.Attached docs → (c.after docs).Declares) := by
  refine ⟨⟨fun h b hb u hu x hx => ?_, fun h b hb u hu x hx => ?_⟩, declares_of_attached⟩
  all_goals
    obtain ⟨t, u', hsettled⟩ := settled_after docs b hb
    obtain rfl := Option.some.inj (hsettled.grown.symm.trans hu)
  · obtain ⟨key, hwrote, honly⟩ := h b hb u' hu x hx
    exact (hsettled.only_key hwrote).1 honly
  · obtain ⟨key, hwrote⟩ := hsettled.exists_wrote hx
    exact ⟨key, hwrote, (hsettled.only_key hwrote).2 (h b hb u' hu x hx)⟩

/-- A child that occurs once by the type of the first of two documents, and more often by that of the
second. -/
def widenedSchema : String :=
  "<xs:schema xmlns:xs='http://www.w3.org/2001/XMLSchema'><xs:complexType name='C'>" ++
  "<xs:attribute name='id' type='xs:ID'/></xs:complexType><xs:complexType name='T'><xs:sequence>" ++
  "<xs:element name='c' type='C' maxOccurs='unbounded'/></xs:sequence></xs:complexType>" ++
  "<xs:complexType name='S'><xs:complexContent><xs:restriction base='T'><xs:sequence>" ++
  "<xs:element name='c' type='C'/></xs:sequence></xs:restriction></xs:complexContent>" ++
  "</xs:complexType><xs:element name='a' type='T'/></xs:schema>"

def widenedDocuments : List Document :=
  documents ["<a xmlns:xsi='http://www.w3.org/2001/XMLSchema-instance' xsi:type='S'>" ++
    "<c id='k'/></a>", "<a><c id='l'/><c id='m'/></a>"]

/-- The first row keeps the cell of the link, which has no column after the second document. -/
theorem widened_link_detached :
    ((ofText widenedSchema).after widenedDocuments).rowsOf "a" =
      [⟨[("id", .int 1), ("c_id", .text "k")]⟩, ⟨[("id", .int 2)]⟩] ∧
    ¬ ((ofText widenedSchema).after widenedDocuments).Declares ∧
    ¬ (ofText widenedSchema).Attached widenedDocuments := by
  have hrows : ((ofText widenedSchema).after widenedDocuments).rowsOf "a" =
      [⟨[("id", .int 1), ("c_id", .text "k")]⟩, ⟨[("id", .int 2)]⟩] := by
    decide +kernel
  have hcolumns : ((((ofText widenedSchema).after widenedDocuments).table? "a").map
      fun t => (Sql.columns t).map (·.1)) = some ["id"] := by
    decide +kernel
  have hdeclares : ¬ ((ofText widenedSchema).after widenedDocuments).Declares := by
    intro h
    obtain ⟨t, ht, hcells⟩ := h "a" _ (hrows ▸ List.mem_cons_self)
    rw [ht] at hcolumns
    have hcolumns : (Sql.columns t).map (·.1) = ["id"] := Option.some.inj hcolumns
    have hmem := hcells ("c_id", .text "k") (by simp)
    simp [hcolumns] at hmem
  exact ⟨hrows, hdeclares, fun h => hdeclares (declares_of_attached h)⟩

end Conversion

end FeatureTables
