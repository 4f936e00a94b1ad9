import FeatureTables.Proofs.Conversion.History
import FeatureTables.Proofs.Population.Cells

/-!
Which rows have a cell for a field that claims one. A field that is required has a cell in each row
that was made since it is there, geometries that cannot be read aside; so it is the rows from before
that may lack it (`notNull_after_iff`). Building takes the claim from what one document says.
-/

namespace FeatureTables

open Population Xml

/-! ### Fields and their cells -/

namespace Population

/-- A field leaves a cell in the row of an element, unless it may be left out. -/
def Leaves (s : Setting) (e : Element) : Field → Prop
  | .column _ => True
  | .link l => l.isMany = false
  | .backLink _ => True
  | .geometry g => ∃ shape, s.layout.selectShape? g.key e = some shape ∧ (s.codec shape).isSome

section Fills

variable {s : Setting} {e : Element} {t : Table} {id : Value} {parent? : Option Parent}
  {key column : String} {f : Field} {found : List (String × Value) × List Visit}

/-- The cell of a link is there as soon as the link leads to a row. -/
theorem Fills.link_cell {l : Link} (h : Fills s e t id parent? key found (.link l))
    (hmany : l.isMany = false) (hcolumn : t.columnName? key = some column) :
    (∃ x, (column, x) ∈ found.1) ↔ s.layout.selectNodes l.key e ≠ [] := by
  obtain ⟨hall, -, -, hcells⟩ := h
  rw [hmany, hcolumn] at hcells
  have hlength := hall.length_eq
  cases hlast : (found.2.map (·.id)).getLast? with
  | none =>
    have hnil : found.2 = [] := by simpa using hlast
    rw [hnil, List.length_nil] at hlength
    simp [hcells, hlast, cell, List.length_eq_zero_iff.1 hlength]
  | some x =>
    have hne : s.layout.selectNodes l.key e ≠ [] := by
      intro hnil
      rw [hnil] at hlength
      have : found.2 = [] := List.length_eq_zero_iff.1 hlength.symm
      simp [this] at hlast
    simp [hcells, hlast, cell, hne]

theorem Fills.cell_of_leaves (h : Fills s e t id parent? key found f)
    (hrequired : f.isOptional = false) (hleaves : Leaves s e f)
    (hcolumn : t.columnName? key = some column) : ∃ x, (column, x) ∈ found.1 := by
  cases f with
  | column c =>
    obtain ⟨-, h⟩ := h
    cases htext : s.layout.selectText? c.key e with
    | some text => simp [htext, hcolumn, cell] at h; simp [h]
    | none =>
      rw [htext] at h
      exact absurd h.1 (by simpa [Field.isOptional] using hrequired)
  | link l =>
    refine (h.link_cell hleaves hcolumn).2 fun hnil => ?_
    obtain ⟨hall, hoptional, -, -⟩ := h
    rw [hnil, List.forall₂_nil_left_iff] at hall
    exact absurd (hoptional hall) (by simpa [Field.isOptional] using hrequired)
  | backLink b => cases hrequired
  | geometry g =>
    obtain ⟨shape, hshape, hcodec⟩ := hleaves
    obtain ⟨-, h⟩ := h
    obtain ⟨⟨wkt, srid⟩, hread⟩ := Option.isSome_iff_exists.1 hcodec
    rw [hshape] at h
    simp [hcolumn, hread, cell] at h
    simp [h]

theorem Fills.leaves_of_cell (h : Fills s e t id parent? key found f) {x : String × Value}
    (hx : x ∈ found.1) : Leaves s e f := by
  cases f with
  | column c => trivial
  | backLink b => trivial
  | link l =>
    obtain ⟨-, -, -, hcells⟩ := h
    cases hmany : l.isMany with
    | false => exact hmany
    | true => simp [hcells, hmany] at hx
  | geometry g =>
    obtain ⟨-, h⟩ := h
    cases hshape : s.layout.selectShape? g.key e with
    | none =>
      rw [hshape] at h
      simp [h.2] at hx
    | some shape =>
      refine ⟨shape, hshape, ?_⟩
      rw [hshape] at h
      cases hread : s.codec shape with
      | some r => rfl
      | none =>
        rcases cell_eq_nil_or (t.columnName? key) (none : Option Value) with hnil | ⟨c, v, -, hv, -⟩
        · simp [h, hread, hnil] at hx
        · cases hv

end Fills

end Population

/-- Each row has a cell for each field that claims one and has a column. -/
def Model.NotNull (m : Model) : Prop :=
  ∀ name t, m.table? name = some t → ∀ row ∈ m.rowsOf name, ∀ key f column,
    t.fields.get? key = some f → f.isOptional = false → t.columnName? key = some column →
    (row.get? column).isSome = true

namespace Conversion

/-! ### When a row is complete -/

/-- The table had the field when the row was made, and the field left a cell. -/
def Birth.Had (b : Birth) (key : String) : Prop :=
  ∃ t f, b.setting.model.table? b.visit.table = some t ∧ t.fields.get? key = some f ∧
    Leaves b.setting b.visit.element f

/-- The cell in a column is one of another field: of a link to one child, whose column was free to be
taken once children could be many. -/
def Birth.LeftOver (b : Birth) (key column : String) : Prop :=
  ∃ t other l, b.setting.model.table? b.visit.table = some t ∧ other ≠ key ∧
    t.fields.get? other = some (.link l) ∧ l.isMany = false ∧ t.columnName? other = some column ∧
    b.setting.layout.selectNodes l.key b.visit.element ≠ []

section Births

variable {b : Birth} {m : Model} {t u : Table} {key column : String} {f : Field}

theorem Birth.Settled.isSome_get? (h : b.Settled m t u) :
    (b.row.get? column).isSome = true ↔ ∃ x, (column, x) ∈ b.row.cells := by
  rw [Option.isSome_iff_exists]
  have hsound := h.sound.tables _ t h.table
  simp only [h.follows.get?_eq_some_iff h.made h.table hsound]

/-- A cell in the column of a field was brought by this field, or left over by another one. -/
theorem Birth.Settled.had_of_cell (h : b.Settled m t u) (hf : u.fields.get? key = some f)
    (hcolumn : u.columnName? key = some column) {x : Value} (hx : (column, x) ∈ b.row.cells) :
    b.Had key ∨ b.LeftOver key column := by
  have hsound := h.sound.tables _ t h.table
  rcases h.follows.cell_cases h.made h.table hsound hx with hx |
    ⟨other, f', found, hf', hother, hfills, hx, -⟩
  · obtain ⟨rfl, -⟩ := Prod.mk.inj hx
    rw [← h.becomes.uidName] at hcolumn
    have hkey : key = t.uid := h.becomes.uid ▸
      (h.becomes.sound hsound).eq_uid (OrderedMap.mem_keys_of_get? hf) hcolumn
    obtain ⟨c, hc⟩ := hsound.uidColumn
    exact Or.inl ⟨t, .column c, h.table, hkey ▸ hc, trivial⟩
  · rcases h.becomes.column_cases hsound hf hcolumn hf' (hfills.column hx) with rfl |
      ⟨hne, l, rfl, hmany⟩
    · exact Or.inl ⟨t, f', h.table, hf', hfills.leaves_of_cell hx⟩
    · refine Or.inr ⟨t, other, l, h.table, hne, hf', hmany, hfills.column hx, ?_⟩
      exact (hfills.link_cell hmany (hfills.column hx)).1 ⟨x, hx⟩

/-- A field that the table had and that is required in the end brought a cell. -/
theorem Birth.Settled.cell_of_had (h : b.Settled m t u) (hf : u.fields.get? key = some f)
    (hrequired : f.isOptional = false) (hcolumn : u.columnName? key = some column)
    (hhad : b.Had key) : ∃ x, (column, x) ∈ b.row.cells := by
  have hsound := h.sound.tables _ t h.table
  obtain ⟨t', f', ht', hf', hleaves⟩ := hhad
  rw [h.table] at ht'
  cases ht'
  obtain ⟨g, hg, hgrows⟩ := h.becomes.field hf'
  rw [hf] at hg
  cases hg
  have hcolumn' : t.columnName? key = some column := by
    rcases h.becomes.columnName? hf' with he | ⟨hnone, -⟩
    · rw [← he, hcolumn]
    · rw [hnone] at hcolumn
      cases hcolumn
  by_cases hkey : key = t.uid
  · subst hkey
    rw [hsound.columnName?_uid] at hcolumn'
    cases hcolumn'
    exact ⟨_, (h.follows.get?_eq_some_iff h.made h.table hsound).1
      (h.follows.get?_uid h.made h.table)⟩
  · obtain ⟨found, hfills, hcells, -⟩ := h.follows.fills h.made h.table hf' hkey
    have hrequired' : f'.isOptional = false := by
      refine Bool.eq_false_iff.2 fun hoptional => ?_
      rw [hgrows.isOptional hoptional] at hrequired
      cases hrequired
    obtain ⟨x, hx⟩ := hfills.cell_of_leaves hrequired' hleaves hcolumn'
    exact ⟨x, hcells _ hx⟩

theorem Birth.Settled.cell_of_leftOver (h : b.Settled m t u) (hleft : b.LeftOver key column) :
    ∃ x, (column, x) ∈ b.row.cells := by
  obtain ⟨t', other, l, ht', -, hl, hmany, hother, hnodes⟩ := hleft
  rw [h.table] at ht'
  cases ht'
  obtain ⟨found, hfills, hcells, -⟩ := h.follows.fills h.made h.table hl
    ((h.sound.tables _ t h.table).ne_uid_of_link hl)
  obtain ⟨x, hx⟩ := (hfills.link_cell hmany hother).2 hnodes
  exact ⟨x, hcells _ hx⟩

/-- A row has a cell for a field that is required in the end if the table had the field when the row
was made, or by chance. -/
theorem Birth.Settled.complete_iff (h : b.Settled m t u) (hf : u.fields.get? key = some f)
    (hrequired : f.isOptional = false) (hcolumn : u.columnName? key = some column) :
    (b.row.get? column).isSome = true ↔ b.Had key ∨ b.LeftOver key column := by
  rw [h.isSome_get?]
  constructor
  · rintro ⟨x, hx⟩
    exact h.had_of_cell hf hcolumn hx
  · rintro (hhad | hleft)
    · exact h.cell_of_had hf hrequired hcolumn hhad
    · exact h.cell_of_leftOver hleft

end Births

/-- The rows of a model are complete exactly if each one was made when its table had all fields that
its table requires in the end, or has the cells from links that have lost their columns. -/
theorem notNull_after_iff (c : Conversion) (docs : List Document) :
    (c.after docs).NotNull ↔ ∀ b ∈ c.births docs, ∀ u key f column,
      (c.after docs).table? b.visit.table = some u → u.fields.get? key = some f →
      f.isOptional = false → u.columnName? key = some column →
      b.Had key ∨ b.LeftOver key column := by
  constructor
  · intro h b hb u key f column hu hf hrequired hcolumn
    obtain ⟨t, u', hsettled⟩ := settled_after docs b hb
    have hu' := hsettled.grown
    rw [hu] at hu'
    cases hu'
    refine (hsettled.complete_iff hf hrequired hcolumn).1
      (h _ u hu b.row (mem_rowsOf_after.2 ⟨b, hb, rfl, rfl⟩) key f column hf hrequired hcolumn)
  · intro h name u hu row hrow key f column hf hrequired hcolumn
    obtain ⟨b, hb, rfl, rfl⟩ := mem_rowsOf_after.1 hrow
    obtain ⟨t, u', hsettled⟩ := settled_after docs b hb
    have hu' := hsettled.grown
    rw [hu] at hu'
    cases hu'
    exact (hsettled.complete_iff hf hrequired hcolumn).2
      (h b hb u key f column hu hf hrequired hcolumn)

/-- Two required elements, the first of which says nothing in the first of two documents. -/
def lateSchema : String :=
  "<xs:schema xmlns:xs='http://www.w3.org/2001/XMLSchema'><xs:element name='a'><xs:complexType>" ++
  "<xs:sequence><xs:element name='b' type='xs:string'/><xs:element name='c' type='xs:string'/>" ++
  "</xs:sequence></xs:complexType></xs:element></xs:schema>"

def lateDocuments : List Document :=
  documents ["<a><b/><c>x</c></a>", "<a><b>y</b><c>z</c></a>"]

/-- The column of the first element comes with the second document and is required, but the row of
the first document has no cell for it. -/
theorem late_column_missing :
    ((ofText lateSchema).after lateDocuments).rowsOf "a" =
      [⟨[("id", .int 1), ("c", .text "x")]⟩,
        ⟨[("id", .int 2), ("c", .text "z"), ("b", .text "y")]⟩] ∧
    ¬ ((ofText lateSchema).after lateDocuments).NotNull := by
  have hrows : ((ofText lateSchema).after lateDocuments).rowsOf "a" =
      [⟨[("id", .int 1), ("c", .text "x")]⟩,
        ⟨[("id", .int 2), ("c", .text "z"), ("b", .text "y")]⟩] := by
    decide +kernel
  refine ⟨hrows, fun h => ?_⟩
  have htable : ((ofText lateSchema).after lateDocuments).table? "a" = some {
      name := "a", uid := "id", mergeable := true, lastId := 2
      fields := ⟨[("id", .column ⟨"id", .int, false, true⟩),
        ("c/text()", .column ⟨"c/text()", .text, false, false⟩),
        ("b/text()", .column ⟨"b/text()", .text, false, false⟩)]⟩ } := by
    decide +kernel
  have hcell := h "a" _ htable _ (hrows ▸ List.mem_cons_self) "b/text()" _ "b" rfl rfl
    (by decide +kernel)
  revert hcell
  decide

end Conversion

end FeatureTables
