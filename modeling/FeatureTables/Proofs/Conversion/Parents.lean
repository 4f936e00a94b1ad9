import FeatureTables.Proofs.Conversion.References
import FeatureTables.Proofs.Layout.Closure

/-!
The rows of children know their parents. A one-to-many link has no column, and the row of a child has
the identifier of its parent under the link back instead. It is written when the row is made, so a row
that was there before has it of the parent that it was made for (`parent_recorded`).
-/

namespace FeatureTables

open Population Xml

/-! ### Links back of rows -/

/-- The row of an identifier, the only one as long as there are not more rows than numbers. -/
def Model.RowOf (m : Model) (name : String) (id : Value) (row : Row) : Prop :=
  row ∈ m.rowsOf name ∧ ∃ t, m.table? name = some t ∧ row.get? t.uidName = some id ∧
    ((m.rowsOf name).length < Nat.pow 2 63 → ∀ row' ∈ m.rowsOf name,
      row'.get? t.uidName = some id → row' = row)

/-- The row has the identifier of the parent under the link back to its table. -/
def Model.LeadsBack (m : Model) (name : String) (row : Row) (p : Parent) : Prop :=
  ∃ t b column, m.table? name = some t ∧
    t.fields.get? (BackLink.keyFor p.table) = some (.backLink b) ∧ b.table = p.table ∧
    t.columnName? (BackLink.keyFor p.table) = some column ∧ row.get? column = some p.id

theorem Model.Identified.rowOf {m : Model} (h : m.Identified) {name : String} {t : Table} {id : Value}
    {row : Row} (ht : m.table? name = some t) (hrow : row ∈ m.rowsOf name)
    (hid : row.get? t.uidName = some id) : m.RowOf name id row := by
  refine ⟨hrow, t, ht, hid, fun hlength row' hrow' hid' => ?_⟩
  have hnodup := (h.tables name t ht).nodup fun _ => hlength
  exact List.inj_on_of_nodup_map hnodup hrow' hrow (hid'.trans hid.symm)

namespace Conversion

open Layout

/-! ### Models of conversions -/

section Brings

variable {c : Conversion} {m n : Model} {d : Document} {r : Run}

/-- The model of the setting has its links and links back in order. -/
theorem run_fitting (hm : Fitting m) (h : c.run m d = .ok r) :
    Fitting r.setting.model ∧ Returned r.setting.model := by
  obtain ⟨typing, built, -, hbuilt, hsetting, -⟩ := run_cases h
  have hbefore : Fitting m.withoutRows := ⟨⟨hm.sound.nodup, hm.sound.named, hm.sound.tables⟩, hm.fits⟩
  obtain ⟨hfitting, hreturned⟩ := build_fitting hbefore hbuilt
  rw [hsetting]
  exact ⟨⟨⟨hfitting.sound.nodup, hfitting.sound.named, hfitting.sound.tables⟩, hfitting.fits⟩,
    hreturned⟩

theorem run_apart (hm : Apart m) (hnames : ∀ y ∈ d.root.descendants, WordName y.localName)
    (h : c.run m d = .ok r) : Apart r.setting.model := by
  obtain ⟨typing, built, -, hbuilt, hsetting, -⟩ := run_cases h
  have hapart := build_apart (m := m.withoutRows) ⟨hm.names, hm.apart⟩ hnames hbuilt
  rw [hsetting]
  exact ⟨hapart.names, hapart.apart⟩

theorem Brings.fitting (h : Brings m r n) (hm : m.Sound) (hs : Fitting r.setting.model) :
    Fitting n := by
  refine ⟨h.sound hm, fun name u hu => ?_⟩
  obtain ⟨t, k, ht, rfl⟩ := h.table_cases hu
  have hall : t.All (Field.HoldsIn n name) :=
    (hs.fits name t ht).mono fun f hf => hf.mono hs.sound fun _ _ ht => h.becomes ht
  exact hall

theorem Brings.apart (h : Brings m r n) (hs : Apart r.setting.model) : Apart n := by
  refine ⟨fun name u hu => ?_, fun name u hu => ?_⟩
  · obtain ⟨t, k, ht, -⟩ := h.table_cases hu
    exact hs.names name t ht
  · obtain ⟨t, k, ht, rfl⟩ := h.table_cases hu
    exact hs.apart name t ht

theorem fitting_after (docs : List Document) : Fitting (c.after docs) :=
  after_induct docs fitting_empty
    fun _ _ _ _ _ hsound hr hbrings hm => hbrings.fitting hsound (run_fitting hm hr).1

theorem apart_after {docs : List Document}
    (hnames : ∀ d ∈ docs, ∀ y ∈ d.root.descendants, WordName y.localName) : Apart (c.after docs) :=
  after_induct docs apart_empty
    fun d hd _ _ _ _ hr hbrings hm => hbrings.apart (run_apart hm (hnames d hd) hr)

/-! ### The rows of children -/

theorem columnName?_backLink {t : Table} {key : String} {b : BackLink}
    (h : t.fields.get? key = some (.backLink b)) : ∃ column, t.columnName? key = some column := by
  unfold Table.columnName?
  rw [h]
  cases t.renamed.get? key with
  | some column => exact ⟨column, rfl⟩
  | none => exact ⟨_, rfl⟩

/-- A row that is made for a parent has its identifier, if its table has a link back to that of the
parent. -/
theorem Brings.leadsBack (h : Brings m r n) (hm : m.Sound) {w : Visit} (hw : w ∈ r.visits) {row : Row}
    (hrow : w.row? = some row) {p : Parent} (hp : w.parent? = some p) {t : Table}
    (ht : r.setting.model.table? w.table = some t) {b : BackLink}
    (hb : t.fields.get? (BackLink.keyFor p.table) = some (.backLink b)) (hbt : b.table = p.table) :
    n.LeadsBack w.table row p := by
  have hsound := (h.grows.sound hm).tables _ t ht
  have hfollows := h.follows w hw
  obtain ⟨column, hcolumn⟩ := columnName?_backLink hb
  obtain ⟨found, hfills, hcells, -⟩ :=
    hfollows.fills hrow ht hb (hsound.keyFor_ne_uid p.table)
  have hcell : (column, p.id) ∈ row.cells := by
    refine hcells _ ?_
    rw [hfills.2, mem_cell_iff]
    exact ⟨hcolumn, by simp [hp, hbt]⟩
  obtain ⟨a, a', -, -, -, hn⟩ := h.tables _ t ht
  exact ⟨_, b, column, hn, hb, hbt, hcolumn, (hfollows.get?_eq_some_iff hrow ht hsound).2 hcell⟩

/-- A visit to which a one-to-many link of a row led. -/
structure Run.Through (r : Run) (v : Visit) (l : Link) (w : Visit) : Prop where
  link : ∃ t key, r.setting.model.table? v.table = some t ∧ t.fields.get? key = some (.link l)
  isMany : l.isMany = true
  below : w ∈ v.visits
  selected : w.element ∈ r.setting.layout.selectNodes l.key v.element

/-- A visit below a row comes from a link of its table. -/
theorem link_of_below {s : Population.Setting} {v w : Visit} (hs : s.model.Sound) (h : Follows s v)
    (hw : w ∈ v.visits) : ∃ (t : Table) (key : String) (l : Link), s.model.table? v.table = some t ∧
      t.fields.get? key = some (.link l) ∧ w.element ∈ s.layout.selectNodes l.key v.element := by
  cases h with
  | known => cases hw
  | @made e parent? id t found ht hfound =>
    obtain ⟨visits, hvisits, hw⟩ := List.mem_flatten.1 hw
    obtain ⟨x, hx, rfl⟩ := List.mem_map.1 hvisits
    obtain ⟨⟨key, f⟩, hf, hfills⟩ := exists_of_mem_right hfound hx
    cases f with
    | column c => simp [hfills.1] at hw
    | backLink b => simp [hfills.1] at hw
    | geometry g => simp [hfills.1] at hw
    | link l =>
      obtain ⟨child, hchild, rfl, -, -⟩ := exists_of_mem_right hfills.1 hw
      exact ⟨t, key, l, ht, OrderedMap.get?_of_mem_entries (hs.tables _ t ht).nodup
        (List.mem_filter.1 hf).1, hchild⟩

/-- A row that is made for a row with a one-to-many link has its identifier. -/
theorem Brings.leadsBack_of_through (h : Brings m r n) (hm : m.Sound)
    (hlinked : r.setting.model.LinkedBack) {v w : Visit} {l : Link} (hthrough : r.Through v l w)
    {first : Visit} (hfirst : first ∈ r.visits) (htable : first.table = l.table) {row : Row}
    (hrow : first.row? = some row) (hparent : first.parent? = some ⟨v.table, v.id⟩) :
    n.LeadsBack first.table row ⟨v.table, v.id⟩ := by
  obtain ⟨t, key, ht, hl⟩ := hthrough.link
  obtain ⟨u, b, hu, hb, hbt⟩ := hlinked v.table t key l ht hl hthrough.isMany
  exact h.leadsBack hm hfirst hrow hparent (htable ▸ hu) hb hbt

end Brings

/-- The row of a child to which a one-to-many link leads, in the table of the link, has the identifier
of its parent, unless it was there before: from an earlier document, or made for another parent. -/
theorem parent_recorded {c : Conversion} {docs : List Document} {d : Document} {n : Model} {k : Nat}
    {r : Run} (hnames : ∀ d' ∈ d :: docs, ∀ y ∈ d'.root.descendants, WordName y.localName)
    (hd : c.document (c.after docs) d = .ok (n, k)) (hr : c.run (c.after docs) d = .ok r) :
    ∀ v ∈ r.visits, ∀ l w, r.Through v l w → w.table = l.table →
      ∃ row, n.RowOf w.table w.id row ∧
        (n.LeadsBack w.table row ⟨v.table, v.id⟩ ∨ w.row? = none ∧
          (row ∈ (c.after docs).rowsOf w.table ∨ ∃ first ∈ r.visits, first.table = w.table ∧
            first.row? = some row ∧ first.parent? ≠ some ⟨v.table, v.id⟩)) := by
  have hsound := sound_after (c := c) docs
  have hids := identified_after c docs
  obtain ⟨r', hr', hbrings⟩ := brings hsound hd
  obtain rfl := Except.ok.inj (hr.symm.trans hr')
  obtain ⟨hfitting, hreturned⟩ := run_fitting (fitting_after docs) hr
  have hapart := run_apart (apart_after fun d' hd' => hnames d' (List.mem_cons_of_mem _ hd'))
    (hnames d List.mem_cons_self) hr
  have hlinked := hfitting.linkedBack hreturned hapart
  have hidsAfter := hbrings.identified hsound hids
  intro v hv l w hthrough htable
  have hw := Run.mem_visits_of_below hv hthrough.below
  obtain ⟨-, hparent, -⟩ := (hbrings.follows v hv).below hthrough.below
  -- what a visit made has the identifier of the visit
  have hmade : ∀ first ∈ r.visits, ∀ row, first.table = w.table → first.id = w.id →
      first.row? = some row → n.RowOf w.table w.id row := by
    intro first hfirst row hfirstTable hid hrow
    obtain ⟨t, ht⟩ := (hbrings.follows first hfirst).table
    obtain ⟨u, hu, hbecomes⟩ := hbrings.becomes ht
    have hget := (hbrings.follows first hfirst).get?_uid hrow ht
    rw [← hfirstTable, ← hid]
    exact hidsAfter.rowOf hu (hbrings.mem_rowsOf hfirst hrow) (hbecomes.uidName ▸ hget)
  cases hrow : w.row? with
  | some row =>
    exact ⟨row, hmade w hw row rfl rfl hrow,
      Or.inl (hbrings.leadsBack_of_through hsound hlinked hthrough hw htable hrow hparent)⟩
  | none =>
    rcases hbrings.maker hsound hids hw with ⟨u, hu, row, hmem, hget⟩ |
      ⟨first, hfirst, hfirstTable, hid, hsome⟩
    · have hmem' : row ∈ n.rowsOf w.table := by
        rw [hbrings.rows]
        exact List.mem_append_left _ hmem
      exact ⟨row, hidsAfter.rowOf hu hmem' hget, Or.inr ⟨rfl, Or.inl hmem⟩⟩
    · obtain ⟨row, hfirstRow⟩ := Option.isSome_iff_exists.1 hsome
      refine ⟨row, hmade first hfirst row hfirstTable hid hfirstRow, ?_⟩
      by_cases hp : first.parent? = some ⟨v.table, v.id⟩
      · refine Or.inl ?_
        have := hbrings.leadsBack_of_through hsound hlinked hthrough hfirst
          (hfirstTable.trans htable) hfirstRow hp
        rwa [hfirstTable] at this
      · exact Or.inr ⟨rfl, Or.inr ⟨first, hfirst, hfirstTable, hfirstRow, hp⟩⟩

/-- Each row to which a one-to-many link leads has the identifier of its parent. -/
def RecordsParents (r : Run) (n : Model) : Prop :=
  ∀ v ∈ r.visits, ∀ l w, r.Through v l w →
    ∃ row, n.RowOf w.table w.id row ∧ n.LeadsBack w.table row ⟨v.table, v.id⟩

/-- Elements with identifiers of their own, below the root and below repeated elements. -/
def sharedSchema : String :=
  "<xs:schema xmlns:xs='http://www.w3.org/2001/XMLSchema'><xs:complexType name='C'><xs:sequence>" ++
  "<xs:element name='d' type='xs:string'/></xs:sequence><xs:attribute name='id' type='xs:ID'/>" ++
  "</xs:complexType><xs:element name='r'><xs:complexType><xs:sequence>" ++
  "<xs:element name='c' type='C'/><xs:element name='a' maxOccurs='unbounded'><xs:complexType>" ++
  "<xs:sequence><xs:element name='c' type='C' maxOccurs='unbounded'/></xs:sequence>" ++
  "</xs:complexType></xs:element></xs:sequence></xs:complexType></xs:element></xs:schema>"

/-- The link of the repeated elements. -/
def sharedLink : Link := ⟨"c", "c", false, ⟨1, .unbounded⟩, .text, none⟩

theorem through_sharedLink {m n : Model} {r : Run} {t : Table} {v w : Visit} (h : Brings m r n)
    (hm : m.Sound) (hv : v ∈ r.visits) (ht : r.setting.model.table? v.table = some t)
    (hlinks : t.links = [sharedLink]) (hw : w ∈ v.visits) : r.Through v sharedLink w := by
  obtain ⟨t', key, l, ht', hl, hselected⟩ :=
    link_of_below (h.grows.sound hm) (h.follows v hv) hw
  obtain rfl := Option.some.inj (ht.symm.trans ht')
  have hmem : l ∈ t.links := List.mem_filterMap.2
    ⟨.link l, List.mem_map.2 ⟨_, OrderedMap.mem_entries_of_get? hl, rfl⟩, rfl⟩
  obtain rfl := List.mem_singleton.1 (hlinks ▸ hmem)
  exact ⟨⟨t, key, ht, hl⟩, rfl, hw, hselected⟩

/-- The row of a child that is new has the identifier of its parent. -/
theorem new_child_recorded : ∃ d n k r,
    Document.ofText "<r><c id='j'><d>x</d></c><a><c id='k'><d>y</d></c></a></r>" = .ok d ∧
    (ofText sharedSchema).document {} d = .ok (n, k) ∧ (ofText sharedSchema).run {} d = .ok r ∧
    ∃ v ∈ r.visits, ∃ w row, r.Through v sharedLink w ∧ n.RowOf w.table w.id row ∧
      n.LeadsBack w.table row ⟨v.table, v.id⟩ := by
  have heval : ((Document.ofText
      "<r><c id='j'><d>x</d></c><a><c id='k'><d>y</d></c></a></r>").toOption.bind fun d =>
        ((ofText sharedSchema).document {} d).toOption.bind fun _ =>
          ((ofText sharedSchema).run {} d).toOption.map fun r =>
            ((r.setting.model.table? "r_a").map (·.links), r.visits.any fun v => v.table == "r_a" &&
              v.visits.any fun w => w.table == "c" && w.row?.isSome,
              decide (∀ y ∈ d.root.descendants, WordName y.localName))) =
      some (some [sharedLink], true, true) := by
    decide +kernel
  obtain ⟨d, hd, heval⟩ := Option.bind_eq_some_iff.1 heval
  obtain ⟨⟨n, k⟩, hn, heval⟩ := Option.bind_eq_some_iff.1 heval
  obtain ⟨r, hr, heval⟩ := Option.map_eq_some_iff.1 heval
  rw [toOption_eq_some_iff] at hd hn hr
  simp only [Prod.mk.injEq, List.any_eq_true, Bool.and_eq_true, beq_iff_eq, decide_eq_true_eq] at heval
  obtain ⟨hlinks, ⟨v, hv, hvTable, w, hw, hwTable, hmade⟩, hnames⟩ := heval
  obtain ⟨t, ht, hlinks⟩ := Option.map_eq_some_iff.1 hlinks
  obtain ⟨r', hr', hbrings⟩ := brings Model.sound_empty hn
  obtain rfl := Except.ok.inj (hr.symm.trans hr')
  have hthrough := through_sharedLink hbrings Model.sound_empty hv (hvTable ▸ ht) hlinks hw
  obtain ⟨row, hrow, hcases⟩ := @parent_recorded (ofText sharedSchema) [] d n k r
    (by simpa using hnames) hn hr v hv sharedLink w hthrough hwTable
  refine ⟨d, n, k, r, hd, hn, hr, v, hv, w, row, hthrough, hrow, ?_⟩
  refine hcases.resolve_right fun hknown => ?_
  rw [hknown.1] at hmade
  cases hmade

/-- The row of a child that is there already keeps the parent that it was made for, here none. -/
theorem shared_child_unrecorded : ∃ d n k r,
    Document.ofText "<r><c id='k'><d>x</d></c><a><c id='k'><d>x</d></c></a></r>" = .ok d ∧
    (ofText sharedSchema).document {} d = .ok (n, k) ∧ (ofText sharedSchema).run {} d = .ok r ∧
    n.rowsOf "c" = [⟨[("@id", .text "k"), ("d", .text "x")]⟩] ∧ ¬ RecordsParents r n := by
  have heval : ((Document.ofText
      "<r><c id='k'><d>x</d></c><a><c id='k'><d>x</d></c></a></r>").toOption.bind fun d =>
        ((ofText sharedSchema).document {} d).toOption.bind fun n =>
          ((ofText sharedSchema).run {} d).toOption.map fun r =>
            ((r.setting.model.table? "r_a").map (·.links), r.visits.any fun v => v.table == "r_a" &&
              v.visits.any fun w => w.table == "c", n.1.rowsOf "c",
              (n.1.table? "c").bind (·.columnName? (BackLink.keyFor "r_a")))) =
      some (some [sharedLink], true, [⟨[("@id", .text "k"), ("d", .text "x")]⟩], some "r_a_id") := by
    decide +kernel
  obtain ⟨d, hd, heval⟩ := Option.bind_eq_some_iff.1 heval
  obtain ⟨⟨n, k⟩, hn, heval⟩ := Option.bind_eq_some_iff.1 heval
  obtain ⟨r, hr, heval⟩ := Option.map_eq_some_iff.1 heval
  rw [toOption_eq_some_iff] at hd hn hr
  simp only [Prod.mk.injEq, List.any_eq_true, Bool.and_eq_true, beq_iff_eq] at heval
  obtain ⟨hlinks, ⟨v, hv, hvTable, w, hw, hwTable⟩, hrows, hcolumn⟩ := heval
  obtain ⟨t, ht, hlinks⟩ := Option.map_eq_some_iff.1 hlinks
  obtain ⟨r', hr', hbrings⟩ := brings Model.sound_empty hn
  obtain rfl := Except.ok.inj (hr.symm.trans hr')
  refine ⟨d, n, k, r, hd, hn, hr, hrows, fun h => ?_⟩
  obtain ⟨row, ⟨hrow, -⟩, u, b, column, hu, -, -, hcolumn', hget⟩ := h v hv sharedLink w
    (through_sharedLink hbrings Model.sound_empty hv (hvTable ▸ ht) hlinks hw)
  rw [hwTable, hrows] at hrow
  obtain ⟨u', hu', hcolumn⟩ := Option.bind_eq_some_iff.1 hcolumn
  obtain rfl := Option.some.inj ((hwTable ▸ hu).symm.trans hu')
  rw [hvTable, hcolumn] at hcolumn'
  cases hcolumn'
  obtain rfl := List.mem_singleton.1 hrow
  cases hget

end Conversion

end FeatureTables
