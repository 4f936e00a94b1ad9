import FeatureTables.Proofs.Conversion.Identity

/-!
What the cells of links refer to. The identifier that a visit returns is that of a row of the table
that was visited, and it stays there. So a cell of a link refers to a row of the table that the link
names, unless the child was placed elsewhere; and links back always do (`referential_after_iff`).
-/

namespace FeatureTables

open Population Xml

/-- A row of the table has this identifier. -/
def Model.HasId (m : Model) (name : String) (id : Value) : Prop :=
  ∃ t, m.table? name = some t ∧ ∃ row ∈ m.rowsOf name, row.get? t.uidName = some id

/-- The table that the cells of a field refer to, if they refer to one. -/
def Field.target? : Field → Option String
  | .link l => if l.isMany then none else some l.table
  | .backLink b => some b.table
  | _ => none

/-- Each cell in the column of a field that refers to a table has the identifier of a row there. -/
def Model.Referential (m : Model) : Prop :=
  ∀ name t, m.table? name = some t → ∀ row ∈ m.rowsOf name, ∀ key f target column id,
    t.fields.get? key = some f → f.target? = some target → t.columnName? key = some column →
    (column, id) ∈ row.cells → m.HasId target id

namespace Conversion

/-! ### Identifiers that visits return -/

section Brings

variable {m n : Model} {r : Run}

theorem Brings.mem_rowsOf (h : Brings m r n) {v : Visit} (hv : v ∈ r.visits) {row : Row}
    (hrow : v.row? = some row) : row ∈ n.rowsOf v.table := by
  rw [h.rows]
  refine List.mem_append_right _ (List.mem_filterMap.2 ⟨v, hv, ?_⟩)
  rw [if_pos rfl, hrow]

theorem Brings.hasId_mono (h : Brings m r n) {name : String} {id : Value} (hid : m.HasId name id) :
    n.HasId name id := by
  obtain ⟨t, ht, row, hrow, hget⟩ := hid
  obtain ⟨u, hu, hgrows⟩ := h.grows.kept name t ht
  obtain ⟨w, hw, hbecomes⟩ := h.becomes hu
  refine ⟨w, hw, row, ?_, ?_⟩
  · rw [h.rows]
    exact List.mem_append_left _ hrow
  · rw [hbecomes.uidName, hgrows.uidName]
    exact hget

/-- A visit that made a row returns the identifier of this row. -/
theorem Brings.hasId_made (h : Brings m r n) {v : Visit} (hv : v ∈ r.visits)
    (hrow : v.row?.isSome = true) : n.HasId v.table v.id := by
  obtain ⟨row, hrow⟩ := Option.isSome_iff_exists.1 hrow
  have hfollows := h.follows v hv
  obtain ⟨t, ht⟩ := hfollows.table
  obtain ⟨u, hu, hbecomes⟩ := h.becomes ht
  refine ⟨u, hu, row, h.mem_rowsOf hv hrow, ?_⟩
  rw [hbecomes.uidName]
  exact hfollows.get?_uid hrow ht

theorem mem_knownIds {t : Table} {id : String} (hids : t.Identifies (m.rowsOf t.name))
    (hnatural : t.hasNaturalId = true) (hid : id ∈ knownIds m t) :
    ∃ row ∈ m.rowsOf t.name, row.get? t.uidName = some (.text id) := by
  obtain ⟨ids, -, hids⟩ := hids.texts hnatural
  obtain ⟨row, hrow, hget⟩ := List.mem_filterMap.1 hid
  have hmem : row.get? t.uidName ∈ (m.rowsOf t.name).map (·.get? t.uidName) :=
    List.mem_map_of_mem hrow
  rw [hids, List.map_map] at hmem
  obtain ⟨id', -, hid'⟩ := List.mem_map.1 hmem
  refine ⟨row, hrow, ?_⟩
  rw [← hid'] at hget ⊢
  have : id' = id := by simpa [Value.toText] using hget
  rw [this]
  rfl

/-- Each visit returns the identifier of a row that was there before, or that a visit made. -/
theorem Brings.maker (h : Brings m r n) (hm : m.Sound) (hids : m.Identified) {v : Visit}
    (hv : v ∈ r.visits) :
    (∃ t, n.table? v.table = some t ∧ ∃ row ∈ m.rowsOf v.table, row.get? t.uidName = some v.id) ∨
      ∃ w ∈ r.visits, w.table = v.table ∧ w.id = v.id ∧ w.row?.isSome = true := by
  obtain ⟨t, ht⟩ := (h.follows v hv).table
  obtain ⟨a, a', hlast, hknown, htraces, hn⟩ := h.tables _ t ht
  have hmem : v ∈ r.visits.filter (·.table = v.table) := List.mem_filter.2 ⟨hv, by simp⟩
  cases hnatural : t.hasNaturalId with
  | false => exact Or.inr ⟨v, hv, rfl, rfl, htraces.all_new hnatural v hmem⟩
  | true =>
    obtain ⟨ids, -, -, hnew, hall⟩ := htraces.texts hnatural
    obtain ⟨id, hid, hcases⟩ := hall v hmem
    rcases hcases with hid' | hid'
    · have hname := (h.grows.sound hm).named _ t ht
      rw [hknown hnatural] at hid'
      obtain ⟨row, hrow, hget⟩ :=
        mem_knownIds (hname.symm ▸ h.identifies hids ht) hnatural hid'
      exact Or.inl ⟨_, hn, row, hname ▸ hrow, hid ▸ hget⟩
    · have : Value.text id ∈ (ids.map Value.text) := List.mem_map_of_mem hid'
      rw [← hnew] at this
      obtain ⟨w, hw, hwid⟩ := List.mem_map.1 this
      obtain ⟨hw, hwnew⟩ := List.mem_filter.1 hw
      obtain ⟨hw, hwtable⟩ := List.mem_filter.1 hw
      exact Or.inr ⟨w, hw, of_decide_eq_true hwtable, hwid.trans hid.symm, hwnew⟩

/-- Each visit returns the identifier of a row of its table. -/
theorem Brings.hasId (h : Brings m r n) (hm : m.Sound) (hids : m.Identified) {v : Visit}
    (hv : v ∈ r.visits) : n.HasId v.table v.id := by
  rcases h.maker hm hids hv with ⟨t, ht, row, hrow, hget⟩ | ⟨w, hw, htable, hid, hmade⟩
  · refine ⟨t, ht, row, ?_, hget⟩
    rw [h.rows]
    exact List.mem_append_left _ hrow
  · rw [← htable, ← hid]
    exact h.hasId_made hw hmade

/-- The row above a visit is one of the document. -/
theorem Brings.hasId_parent (h : Brings m r n) {v : Visit} (hv : v ∈ r.visits) {p : Parent}
    (hp : v.parent? = some p) : n.HasId p.table p.id := by
  obtain ⟨root, hroot, hvroot⟩ := List.mem_flatMap.1 hv
  have hroot' : r.visit? = some root := by simpa using hroot
  rcases Visit.mem_all_cases hvroot with rfl | ⟨u, hu, hvu⟩
  · rw [h.parent v hroot'] at hp
    cases hp
  · have hu' : u ∈ r.visits := List.mem_flatMap.2 ⟨root, hroot, hu⟩
    obtain ⟨hmade, hparent, -⟩ := (h.follows u hu').below hvu
    rw [hp] at hparent
    cases hparent
    exact h.hasId_made hu' hmade

end Brings

section After

variable {c : Conversion}

/-- The rows below and above each row stay where they are. -/
theorem hasId_after (docs : List Document) : ∀ b ∈ c.births docs,
    (∀ v ∈ b.visit.visits, (c.after docs).HasId v.table v.id) ∧
    ∀ p, b.visit.parent? = some p → (c.after docs).HasId p.table p.id := by
  rw [after_eq]
  refine (history_induct (P := fun h => h.model.Identified ∧ ∀ b ∈ h.births,
    (∀ v ∈ b.visit.visits, h.model.HasId v.table v.id) ∧
    ∀ p, b.visit.parent? = some p → h.model.HasId p.table p.id) ⟨identified_empty, ?_⟩ ?_ docs).2.2
  · exact fun b hb => by cases hb
  · rintro h r n hsound hbrings ⟨hids, ih⟩
    refine ⟨hbrings.identified hsound hids, fun b hb => ?_⟩
    rcases List.mem_append.1 hb with hb | hb
    · obtain ⟨hbelow, habove⟩ := ih b hb
      exact ⟨fun v hv => hbrings.hasId_mono (hbelow v hv),
        fun p hp => hbrings.hasId_mono (habove p hp)⟩
    · obtain ⟨-, hvisit, -⟩ := mem_births hb
      exact ⟨fun v hv => hbrings.hasId hsound hids (Run.mem_visits_of_below hvisit hv),
        fun p hp => hbrings.hasId_parent hvisit hp⟩

/-! ### Cells of links -/

/-- The last child that a link with this column led to, when the row was made, is placed in this
table. The row has its identifier in the column. -/
def Birth.Refers (b : Birth) (column placed : String) : Prop :=
  ∃ t key l child, b.setting.model.table? b.visit.table = some t ∧
    t.fields.get? key = some (.link l) ∧ l.isMany = false ∧ t.columnName? key = some column ∧
    (b.setting.layout.selectNodes l.key b.visit.element).getLast? = some child ∧
    targetOf b.setting l child = placed

theorem exists_getLast?_left {α β : Type} {R : α → β → Prop} {xs : List α} {ys : List β}
    (h : List.Forall₂ R xs ys) {y : β} (hy : ys.getLast? = some y) :
    ∃ x, xs.getLast? = some x ∧ R x y := by
  induction h with
  | nil => cases hy
  | @cons x y' xs ys hxy hrest ih =>
    rw [List.getLast?_cons] at hy ⊢
    cases hlast : ys.getLast? with
    | none =>
      obtain rfl := List.getLast?_eq_none_iff.1 hlast
      obtain rfl := List.forall₂_nil_right_iff.1 hrest
      cases hy
      exact ⟨x, rfl, hxy⟩
    | some z =>
      obtain ⟨x', hx', hR⟩ := ih (hlast.trans (by simpa [hlast] using hy))
      exact ⟨x', by rw [hx']; rfl, hR⟩

theorem mem_cell_iff {column? : Option String} {value? : Option Value} {x : String × Value} :
    x ∈ cell column? value? ↔ column? = some x.1 ∧ value? = some x.2 := by
  cases column? <;> cases value? <;> simp [cell, Prod.ext_iff, eq_comm]

/-- The cell of a link has the identifier of the visit to the last child. -/
theorem last_of_link {s : Setting} {e : Element} {t : Table} {id : Value} {parent? : Option Parent}
    {key : String} {l : Link} {found : List (String × Value) × List Visit}
    (h : Fills s e t id parent? key found (.link l)) {x : String × Value} (hx : x ∈ found.1) :
    l.isMany = false ∧ ∃ child, (s.layout.selectNodes l.key e).getLast? = some child ∧
      ∃ v ∈ found.2, v.table = targetOf s l child ∧ v.id = x.2 := by
  obtain ⟨hall, -, -, hcells⟩ := h
  cases hmany : l.isMany with
  | true => simp [hcells, hmany] at hx
  | false =>
    rw [hcells, hmany, if_neg Bool.false_ne_true, mem_cell_iff] at hx
    obtain ⟨v, hlast, hv⟩ := Option.map_eq_some_iff.1 (List.getLast?_map ▸ hx.2)
    obtain ⟨child, hchild, -, htable, -⟩ := exists_getLast?_left hall hlast
    exact ⟨rfl, child, hchild, v, List.mem_of_getLast? hlast, htable, hv⟩

/-- A field that refers to a table was a link, or a link back to the same table. -/
theorem link_cases_of_target {f f' : Field} {target : String} (htarget : f.target? = some target)
    (h : f'.IsSingle ∨ f'.Grows f) :
    (∃ l, f' = .link l) ∨ ∃ bl : BackLink, f' = .backLink bl ∧ bl.table = target := by
  rcases h with ⟨l, hl, -⟩ | hgrows
  · exact Or.inl ⟨l, hl⟩
  · cases f' with
    | link l => exact Or.inl ⟨l, rfl⟩
    | backLink bl =>
      cases hgrows
      cases htarget
      exact Or.inr ⟨bl, rfl, rfl⟩
    | column c =>
      cases hgrows
      cases htarget
    | geometry g =>
      cases hgrows
      cases htarget

/-- A cell in the column of a field that refers to a table was written for a link back, or for a link
whose last child was visited in its table. -/
theorem Birth.Settled.reference_cases {b : Birth} {m : Model} {t u : Table}
    (h : b.Settled m t u) {key column target : String} {f : Field} {id : Value}
    (hf : u.fields.get? key = some f) (htarget : f.target? = some target)
    (hcolumn : u.columnName? key = some column) (hcell : (column, id) ∈ b.row.cells) :
    (∃ p, b.visit.parent? = some p ∧ p.table = target ∧ p.id = id) ∨
    ∃ v ∈ b.visit.visits, v.id = id ∧ b.Refers column v.table := by
  have hsound := h.sound.tables _ t h.table
  rcases h.follows.cell_cases h.made h.table hsound hcell with hx |
    ⟨other, f', found, hf', hother, hfills, hx, hvisits⟩
  · obtain ⟨rfl, -⟩ := Prod.mk.inj hx
    rw [← h.becomes.uidName] at hcolumn
    have hkey := (h.becomes.sound hsound).eq_uid (OrderedMap.mem_keys_of_get? hf) hcolumn
    obtain ⟨c, hc⟩ := (h.becomes.sound hsound).uidColumn
    rw [← hkey, hf] at hc
    cases hc
    cases htarget
  · have hcases : f'.IsSingle ∨ f'.Grows f := by
      rcases h.becomes.column_cases hsound hf hcolumn hf' (hfills.column hx) with rfl | ⟨-, hsingle⟩
      · obtain ⟨g, hg, hgrows⟩ := h.becomes.field hf'
        rw [hf] at hg
        cases hg
        exact Or.inr hgrows
      · exact Or.inl hsingle
    rcases link_cases_of_target htarget hcases with ⟨l, rfl⟩ | ⟨bl, rfl, rfl⟩
    · obtain ⟨hmany, child, hchild, v, hv, htable, hid⟩ := last_of_link hfills hx
      exact Or.inr ⟨v, hvisits v hv, hid, t, other, l, child, h.table, hf', hmany,
        hfills.column hx, hchild, htable.symm⟩
    · rw [hfills.2, mem_cell_iff] at hx
      obtain ⟨p, hp, hid⟩ := Option.map_eq_some_iff.1 hx.2
      obtain ⟨hp, htable⟩ := Option.filter_eq_some_iff.1 hp
      exact Or.inl ⟨p, hp, by simpa using htable, hid⟩

/-- Each cell refers to a row exactly if each link with a column of its own led to a child in the
table that the column refers to, or to one whose identifier a row of this table has as well. -/
theorem referential_after_iff (docs : List Document) :
    (c.after docs).Referential ↔ ∀ b ∈ c.births docs, ∀ column placed, b.Refers column placed →
      ∀ u key f target id, (c.after docs).table? b.visit.table = some u →
      u.fields.get? key = some f → f.target? = some target → u.columnName? key = some column →
      (column, id) ∈ b.row.cells → placed = target ∨ (c.after docs).HasId target id := by
  constructor
  · intro h b hb column placed _ u key f target id hu hf htarget hcolumn hcell
    exact Or.inr (h _ u hu b.row (mem_rowsOf_after.2 ⟨b, hb, rfl, rfl⟩) key f target column id hf
      htarget hcolumn hcell)
  · intro h name u hu row hrow key f target column id hf htarget hcolumn hcell
    obtain ⟨b, hb, rfl, rfl⟩ := mem_rowsOf_after.1 hrow
    obtain ⟨t, u', hsettled⟩ := settled_after docs b hb
    have hu' := hsettled.grown
    rw [hu] at hu'
    cases hu'
    obtain ⟨hbelow, habove⟩ := hasId_after docs b hb
    rcases hsettled.reference_cases hf htarget hcolumn hcell with
      ⟨p, hp, rfl, rfl⟩ | ⟨v, hv, rfl, hrefers⟩
    · exact habove p hp
    · rcases h b hb column v.table hrefers u key f target v.id hu hf htarget hcolumn hcell with
        htable | hid
      · rw [← htable]
        exact hbelow v hv
      · exact hid

end After

/-- A child with no identifier in the first of two documents and with one in the second. -/
def movedSchema : String :=
  "<xs:schema xmlns:xs='http://www.w3.org/2001/XMLSchema'><xs:complexType name='C'><xs:sequence>" ++
  "<xs:element name='d' type='xs:string'/></xs:sequence></xs:complexType><xs:element name='a'>" ++
  "<xs:complexType><xs:sequence><xs:element name='c' type='C'/></xs:sequence></xs:complexType>" ++
  "</xs:element></xs:schema>"

def movedDocuments : List Document :=
  documents ["<a><c><d>x</d></c></a>", "<a><c xml:id='k'><d>y</d></c></a>"]

/-- The link names the table of the first child, in which the second child has no row. -/
theorem moved_child_dangling :
    ((ofText movedSchema { mergeMaxDepth := 0 }).after movedDocuments).rowsOf "a" =
      [⟨[("id", .int 1), ("c_id", .int 1)]⟩, ⟨[("id", .int 2), ("c_id", .text "k")]⟩] ∧
    ((ofText movedSchema { mergeMaxDepth := 0 }).after movedDocuments).rowsOf "a_c" =
      [⟨[("id", .int 1), ("d", .text "x")]⟩] ∧
    ¬ ((ofText movedSchema { mergeMaxDepth := 0 }).after movedDocuments).Referential := by
  generalize hm : (ofText movedSchema { mergeMaxDepth := 0 }).after movedDocuments = m
  have hrows : m.rowsOf "a" =
      [⟨[("id", .int 1), ("c_id", .int 1)]⟩, ⟨[("id", .int 2), ("c_id", .text "k")]⟩] := by
    rw [← hm]
    decide +kernel
  have hplaced : m.rowsOf "a_c" = [⟨[("id", .int 1), ("d", .text "x")]⟩] := by
    rw [← hm]
    decide +kernel
  have hsource : m.table? "a" = some {
      name := "a", uid := "id", mergeable := true, lastId := 2
      fields := ⟨[("id", .column ⟨"id", .int, false, true⟩),
        ("c", .link ⟨"c", "a_c", false, .once, .int, none⟩)]⟩ } := by
    rw [← hm]
    decide +kernel
  have huid : (m.table? "a_c").map (·.uidName) = some "id" := by
    rw [← hm]
    decide +kernel
  refine ⟨hrows, hplaced, fun h => ?_⟩
  obtain ⟨t, ht, row, hrow, hget⟩ := h "a" _ hsource ⟨[("id", .int 2), ("c_id", .text "k")]⟩
    (by simp [hrows]) "c" _ "a_c" "c_id" (.text "k") rfl rfl (by decide +kernel) (by simp)
  rw [ht] at huid
  obtain rfl := List.mem_singleton.1 (hplaced ▸ hrow)
  rw [show t.uidName = "id" from Option.some.inj huid] at hget
  revert hget
  decide

end Conversion

end FeatureTables
