import FeatureTables.Proofs.Conversion.Attachment
import FeatureTables.Proofs.Conversion.Parents

/-!
The order of rows in tables. Rows are made from the root on, each one in front of those below it, so that
the row to which a link back was written stands in front of the row that has it (`precedes_after`). What
a table takes for the cell of a link back may have been written for a link that has lost its column, and
only such a cell may refer to a row behind (`parentsFirst_after_iff`).
-/

namespace FeatureTables

/-- Each row whose cell in the column of a link back to its own table refers to a row stands behind this
row. -/
def Model.ParentsFirst (m : Model) : Prop :=
  ∀ name t, m.table? name = some t → ∀ key b column, t.fields.get? key = some (.backLink b) →
    b.table = name → t.columnName? key = some column →
    ∀ before row after id, m.rowsOf name = before ++ row :: after → (column, id) ∈ row.cells →
      m.HasId name id → ∃ parent ∈ before, m.RowOf name id parent

namespace Population

/-! ### The order of visits -/

/-- The visit made the row. -/
def Visit.Makes (v : Visit) (p : Parent) : Prop := v.row?.isSome = true ∧ v.table = p.table ∧ v.id = p.id

/-- The row above each visit was made in front of it, by one of these visits or by an earlier one. -/
inductive Preceded : (earlier visits : List Visit) → Prop
  | nil {earlier} : Preceded earlier []
  | cons {earlier v vs} (above : ∀ p, v.parent? = some p → ∃ u ∈ earlier, u.Makes p)
      (rest : Preceded (earlier ++ [v]) vs) : Preceded earlier (v :: vs)

section Preceded

variable {s : Setting} {earlier earlier' vs ws : List Visit} {v : Visit} {p : Parent}

theorem Preceded.mono (h : Preceded earlier vs) (hsub : earlier ⊆ earlier') : Preceded earlier' vs := by
  induction h generalizing earlier' with
  | nil => exact .nil
  | cons above _ ih =>
    refine .cons (fun p hp => ?_) (ih (List.append_subset.2
      ⟨fun u hu => List.mem_append_left _ (hsub hu), List.subset_append_right _ _⟩))
    obtain ⟨u, hu, hmakes⟩ := above p hp
    exact ⟨u, hsub hu, hmakes⟩

theorem Preceded.append (h : Preceded earlier vs) (h' : Preceded (earlier ++ vs) ws) :
    Preceded earlier (vs ++ ws) := by
  induction h with
  | nil => simpa using h'
  | cons above _ ih => exact .cons above (ih (by simpa using h'))

theorem Preceded.flatMap (h : ∀ v ∈ vs, Preceded earlier v.all) :
    Preceded earlier (vs.flatMap Visit.all) := by
  induction vs with
  | nil => exact .nil
  | cons v vs ih =>
    rw [List.flatMap_cons]
    exact (h v List.mem_cons_self).append
      ((ih fun w hw => h w (List.mem_cons_of_mem _ hw)).mono (List.subset_append_left _ _))

/-- The visits below one come after it, and it is the one above them. -/
theorem preceded_all (hfollows : ∀ w ∈ v.all, Follows s w)
    (habove : ∀ p, v.parent? = some p → ∃ u ∈ earlier, u.Makes p) : Preceded earlier v.all := by
  induction v using Visit.induct_tree generalizing earlier with
  | h v ih =>
    rw [Visit.all_eq]
    refine .cons habove (.flatMap fun w hw => ih w hw (fun x hx => hfollows x ?_) fun p hp => ?_)
    · rw [Visit.all_eq]
      exact List.mem_cons_of_mem _ (List.mem_flatMap.2 ⟨w, hw, hx⟩)
    · obtain ⟨hmade, hparent, -⟩ := (hfollows v v.mem_all_self).below hw
      rw [hparent] at hp
      obtain rfl := Option.some.inj hp
      exact ⟨v, by simp, hmade, rfl, rfl⟩

/-- Visits that made no row may be passed over. -/
theorem Preceded.made (h : Preceded earlier vs) :
    Preceded (earlier.filter (·.row?.isSome)) (vs.filter (·.row?.isSome)) := by
  induction h with
  | nil => exact .nil
  | @cons earlier v vs above _ ih =>
    rw [List.filter_append] at ih
    cases hmade : v.row?.isSome with
    | true =>
      simp only [List.filter_cons, hmade, if_true, List.filter_nil] at ih ⊢
      refine .cons (fun p hp => ?_) ih
      obtain ⟨u, hu, hmakes⟩ := above p hp
      exact ⟨u, List.mem_filter.2 ⟨hu, hmakes.1⟩, hmakes⟩
    | false =>
      simp only [List.filter_cons, hmade, Bool.false_eq_true, if_false, List.filter_nil,
        List.append_nil] at ih ⊢
      exact ih

theorem Preceded.exists_above (h : Preceded earlier (vs ++ v :: ws)) (hp : v.parent? = some p) :
    ∃ u ∈ earlier ++ vs, u.Makes p := by
  induction vs generalizing earlier with
  | nil =>
    cases h with
    | cons above _ => simpa using above p hp
  | cons w vs ih =>
    cases h with
    | cons _ rest => simpa using ih rest

end Preceded

end Population

namespace Conversion

open Population Xml

/-! ### The order of rows -/

theorem visits_births (r : Run) : r.births.map (·.visit) = r.visits.filter (·.row?.isSome) := by
  unfold Run.births
  induction r.visits with
  | nil => rfl
  | cons v vs ih =>
    rw [List.filterMap_cons]
    cases hrow : v.row? with
    | none => rw [List.filter_cons_of_neg (by simp [hrow]), ← ih]; rfl
    | some row => rw [List.filter_cons_of_pos (by simp [hrow]), ← ih]; rfl

theorem Brings.preceded {m n : Model} {r : Run} (h : Brings m r n) (earlier : List Visit) :
    Preceded earlier r.visits := by
  have hfollows := h.follows
  unfold Run.visits at hfollows ⊢
  cases hv : r.visit? with
  | none => exact .nil
  | some v =>
    rw [hv, Option.toList_some, List.flatMap_singleton] at hfollows
    rw [Option.toList_some, List.flatMap_singleton]
    refine preceded_all hfollows fun p hp => ?_
    rw [h.parent v hv] at hp
    cases hp

section After

variable {c : Conversion}

theorem preceded_after (docs : List Document) : Preceded [] ((c.births docs).map (·.visit)) := by
  refine (history_induct (c := c) (P := fun h => Preceded [] (h.births.map (·.visit))) .nil ?_ docs).2
  intro h r n _ hbrings ih
  rw [List.map_append, visits_births]
  exact ih.append ((hbrings.preceded _).made.mono List.filter_sublist.subset)

/-- A row is made behind the row above it. -/
theorem precedes_after {docs : List Document} {before after : List Birth} {b : Birth}
    (hb : c.births docs = before ++ b :: after) {p : Parent} (hp : b.visit.parent? = some p) :
    ∃ a ∈ before, a.visit.table = p.table ∧ a.visit.id = p.id := by
  have h := preceded_after (c := c) docs
  rw [hb, List.map_append, List.map_cons] at h
  obtain ⟨u, hu, -, htable, hid⟩ := h.exists_above hp
  obtain ⟨a, ha, rfl⟩ := List.mem_map.1 hu
  exact ⟨a, ha, htable, hid⟩

/-! ### Cells of links back -/

/-- The births of the rows of a table in front of one of them are births in front of its birth. -/
theorem births_of_rowsOf {docs : List Document} {name : String} {before after : List Row} {row : Row}
    (h : (c.after docs).rowsOf name = before ++ row :: after) : ∃ before' b after',
      c.births docs = before' ++ b :: after' ∧ b.row = row ∧ b.visit.table = name ∧
      before = (before'.filter (·.visit.table = name)).map (·.row) := by
  rw [rowsOf_after, List.map_eq_append_iff] at h
  obtain ⟨xs, ys, hfilter, rfl, hys⟩ := h
  obtain ⟨b, ys, rfl, rfl, rfl⟩ := List.map_eq_cons_iff.1 hys
  obtain ⟨before', rest, hbirths, rfl, hrest⟩ := List.filter_eq_append_iff.1 hfilter
  obtain ⟨skipped, after', rfl, hskipped, htable, -⟩ := List.filter_eq_cons_iff.1 hrest
  refine ⟨before' ++ skipped, b, after', by simpa using hbirths, rfl, by simpa using htable, ?_⟩
  have hnil : skipped.filter (·.visit.table = name) = [] := List.filter_eq_nil_iff.2 hskipped
  rw [List.filter_append, hnil, List.append_nil]

/-- A row is found by the identifier that its visit returned. -/
theorem rowOf_after {docs : List Document} {b : Birth} (hb : b ∈ c.births docs) :
    (c.after docs).RowOf b.visit.table b.visit.id b.row := by
  obtain ⟨t, u, hsettled⟩ := settled_after docs b hb
  refine (identified_after c docs).rowOf hsettled.grown (mem_rowsOf_after.2 ⟨b, hb, rfl, rfl⟩) ?_
  rw [hsettled.becomes.uidName]
  exact hsettled.follows.get?_uid hsettled.made hsettled.table

/-- A cell in the column of a link back has the row above it, unless it was written for a link that has
lost this column since. -/
theorem Birth.Settled.above {b : Birth} {m : Model} {t u : Table} (h : b.Settled m t u)
    {key column : String} {bl : BackLink} {id : Value} (hbl : u.fields.get? key = some (.backLink bl))
    (hcolumn : u.columnName? key = some column) (hcell : (column, id) ∈ b.row.cells)
    (hattached : ¬ b.Detached u (column, id)) : b.visit.parent? = some ⟨bl.table, id⟩ := by
  have hsound := h.sound.tables _ t h.table
  obtain ⟨key', hwrote⟩ := h.exists_wrote hcell
  obtain rfl : key = key' := ((h.only_key hwrote).2 hattached key).1 hcolumn
  obtain ⟨t', ht', ⟨hkey, -⟩ | ⟨-, f, found, hf, hfills, hx, -⟩⟩ := hwrote <;>
    obtain rfl := Option.some.inj (h.table.symm.trans ht')
  · obtain ⟨uid, huid⟩ := (h.becomes.sound hsound).uidColumn
    rw [h.becomes.uid, ← hkey, hbl] at huid
    cases huid
  · obtain ⟨g, hg, hgrows⟩ := h.becomes.field hf
    obtain rfl := Option.some.inj (hbl.symm.trans hg)
    cases hgrows
    rw [hfills.2, mem_cell_iff] at hx
    obtain ⟨p, hp, rfl⟩ := Option.map_eq_some_iff.1 hx.2
    obtain ⟨hp, htable⟩ := Option.filter_eq_some_iff.1 hp
    rw [hp, ← show p.table = bl.table by simpa using htable]

/-- The cells in columns of links back to the same table that were written for links which have lost
these columns since refer to rows that were made earlier. -/
def DetachedBehind (c : Conversion) (docs : List Document) : Prop :=
  ∀ before b after, c.births docs = before ++ b :: after →
    ∀ u, (c.after docs).table? b.visit.table = some u → ∀ key bl column id,
      u.fields.get? key = some (.backLink bl) → bl.table = b.visit.table →
      u.columnName? key = some column → (column, id) ∈ b.row.cells → b.Detached u (column, id) →
      (c.after docs).HasId b.visit.table id →
      ∃ a ∈ before, a.visit.table = b.visit.table ∧ a.visit.id = id

theorem parentsFirst_of_detachedBehind {docs : List Document} (h : c.DetachedBehind docs) :
    (c.after docs).ParentsFirst := by
  intro name u hu key bl column hbl htable hcolumn before row after id hrows hcell hid
  obtain ⟨before', b, after', hbirths, rfl, rfl, rfl⟩ := births_of_rowsOf hrows
  have hb : b ∈ c.births docs := by simp [hbirths]
  obtain ⟨t, u', hsettled⟩ := settled_after docs b hb
  obtain rfl := Option.some.inj (hu.symm.trans hsettled.grown)
  obtain ⟨a, ha, hatable, haid⟩ :
      ∃ a ∈ before', a.visit.table = b.visit.table ∧ a.visit.id = id := by
    by_cases hdetached : b.Detached u (column, id)
    · exact h before' b after' hbirths u hu key bl column id hbl htable hcolumn hcell hdetached hid
    · have hparent := hsettled.above hbl hcolumn hcell hdetached
      exact htable ▸ precedes_after hbirths hparent
  refine ⟨a.row, List.mem_map_of_mem (List.mem_filter.2 ⟨ha, decide_eq_true hatable⟩), ?_⟩
  rw [← hatable, ← haid]
  exact rowOf_after (by simp [hbirths, ha])

theorem detachedBehind_of_parentsFirst {docs : List Document} (h : (c.after docs).ParentsFirst) :
    c.DetachedBehind docs := by
  intro before b after hbirths u hu key bl column id hbl htable hcolumn hcell _ hid
  have hrows : (c.after docs).rowsOf b.visit.table =
      (before.filter (·.visit.table = b.visit.table)).map (·.row) ++
        b.row :: (after.filter (·.visit.table = b.visit.table)).map (·.row) := by
    simp [rowsOf_after, hbirths]
  obtain ⟨parent, hparent, -, u', hu', hget, -⟩ :=
    h _ u hu key bl column hbl htable hcolumn _ _ _ id hrows hcell hid
  obtain rfl := Option.some.inj (hu.symm.trans hu')
  obtain ⟨a, ha, rfl⟩ := List.mem_map.1 hparent
  obtain ⟨ha, hatable⟩ := List.mem_filter.1 ha
  have hatable : a.visit.table = b.visit.table := of_decide_eq_true hatable
  obtain ⟨-, ua, hua, hid', -⟩ := rowOf_after (show a ∈ c.births docs by simp [hbirths, ha])
  obtain rfl := Option.some.inj (hu.symm.trans (hatable ▸ hua))
  exact ⟨a, ha, hatable, Option.some.inj (hid'.symm.trans hget)⟩

/-- In each table, rows stand behind those to which their cells of links back to this table refer,
exactly if this holds of the cells that are taken for these and were written for links. In particular
it holds if each cell stays with the field that it was written for. -/
theorem parentsFirst_after_iff (c : Conversion) (docs : List Document) :
    ((c.after docs).ParentsFirst ↔ c.DetachedBehind docs) ∧
    (c.Attached docs → (c.after docs).ParentsFirst) := by
  refine ⟨⟨detachedBehind_of_parentsFirst, parentsFirst_of_detachedBehind⟩, fun hattached => ?_⟩
  refine parentsFirst_of_detachedBehind fun before b after hbirths u hu _ _ column id _ _ _ hcell
    hdetached _ => ?_
  have hb : b ∈ c.births docs := by simp [hbirths]
  obtain ⟨key, hwrote, honly⟩ := hattached b hb u hu _ hcell
  obtain ⟨t, u', hsettled⟩ := settled_after docs b hb
  obtain rfl := Option.some.inj (hu.symm.trans hsettled.grown)
  exact absurd hdetached ((hsettled.only_key hwrote).1 honly)

end After

/-- An element that may be in itself: any number of times, or at most once. -/
def narrowedSchema : String :=
  "<xs:schema xmlns:xs='http://www.w3.org/2001/XMLSchema'><xs:complexType name='T'><xs:sequence>" ++
  "<xs:element name='c' type='T' minOccurs='0' maxOccurs='unbounded'/></xs:sequence>" ++
  "<xs:attribute name='id' type='xs:ID'/></xs:complexType>" ++
  "<xs:complexType name='S'><xs:complexContent><xs:restriction base='T'><xs:sequence>" ++
  "<xs:element name='c' type='T' minOccurs='0'/></xs:sequence></xs:restriction></xs:complexContent>" ++
  "</xs:complexType><xs:element name='c' type='T'/></xs:schema>"

def narrowedDocuments : List Document :=
  documents ["<c xmlns:xsi='http://www.w3.org/2001/XMLSchema-instance' xsi:type='S' id='k'>" ++
    "<c id='l'/></c>", "<c id='m'><c id='n'/><c id='o'/></c>"]

/-- The cell of the first row was written for the link to the second row. The second document widens the
link and gives its column to the link back. -/
theorem child_for_parent :
    ((ofText narrowedSchema).after narrowedDocuments).rowsOf "c" =
      [⟨[("@id", .text "k"), ("c_id", .text "l")]⟩, ⟨[("@id", .text "l")]⟩, ⟨[("@id", .text "m")]⟩,
        ⟨[("@id", .text "n"), ("c_id", .text "m")]⟩, ⟨[("@id", .text "o"), ("c_id", .text "m")]⟩] ∧
    ¬ ((ofText narrowedSchema).after narrowedDocuments).ParentsFirst := by
  generalize hm : (ofText narrowedSchema).after narrowedDocuments = m
  have heval : (m.rowsOf "c", (m.table? "c").map fun t => (t.fields.get? "backlink(c)",
      t.columnName? "backlink(c)", t.uidName)) =
      ([⟨[("@id", .text "k"), ("c_id", .text "l")]⟩, ⟨[("@id", .text "l")]⟩, ⟨[("@id", .text "m")]⟩,
        ⟨[("@id", .text "n"), ("c_id", .text "m")]⟩, ⟨[("@id", .text "o"), ("c_id", .text "m")]⟩],
        some (some (.backLink ⟨"c", .text⟩), some "c_id", "@id")) := by
    rw [← hm]
    decide +kernel
  obtain ⟨hrows, htable⟩ := Prod.mk.inj heval
  obtain ⟨t, ht, htable⟩ := Option.map_eq_some_iff.1 htable
  simp only [Prod.mk.injEq] at htable
  obtain ⟨hfield, hcolumn, huid⟩ := htable
  refine ⟨hrows, fun h => ?_⟩
  have hid : m.HasId "c" (.text "l") := by
    refine ⟨t, ht, ⟨[("@id", .text "l")]⟩, by simp [hrows], ?_⟩
    rw [huid]
    decide
  obtain ⟨parent, hparent, -⟩ :=
    h "c" t ht _ _ _ hfield rfl hcolumn [] _ _ (.text "l") hrows (by simp) hid
  cases hparent

end Conversion
end FeatureTables
