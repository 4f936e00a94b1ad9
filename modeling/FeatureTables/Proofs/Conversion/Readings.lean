import FeatureTables.Proofs.Conversion.Retention
import FeatureTables.Proofs.Layout.Labels

/-!
Where the cells of a row come from. Each value in a row was read from the first item that the key of its
field leads to. The item has this key itself exactly if the steps to it are labelled among its siblings as
they are in the key (`provenance_iff`), which they need not be: a step without a label is taken by siblings
of every namespace.
-/

namespace FeatureTables

open Population Xml Xml.Element

/-- A field whose values are read from a document. -/
def Field.IsRead : Field → Prop
  | .column _ | .geometry _ => True
  | _ => False

instance : DecidablePred Field.IsRead
  | .column _ | .geometry _ => isTrue trivial
  | .link _ | .backLink _ => isFalse id

theorem Field.IsRead.ne_link {f : Field} (h : f.IsRead) (l : Link) : f ≠ .link l := by
  rintro rfl
  exact h

theorem Field.IsRead.ne_backLink {f : Field} (h : f.IsRead) (b : BackLink) : f ≠ .backLink b := by
  rintro rfl
  exact h

/-- What has grown from a link is one. -/
theorem Field.IsRead.of_grows {f g : Field} (h : g.IsRead) (hgrows : f.Grows g) : f.IsRead := by
  cases hgrows <;> exact h

namespace Population

open Layout

/-- The value was written into the row for a field that is read. Identifiers are not: they are given. -/
structure Writes (s : Setting) (v : Visit) (row : Row) (t : Table) (key : String) (f : Field)
    (x : Value) : Prop where
  table : s.model.table? v.table = some t
  field : t.fields.get? key = some f
  ne_uid : key ≠ t.uid
  read : f.IsRead
  cell : ∃ column, t.columnName? key = some column ∧ (column, x) ∈ row.cells

section Writes

variable {s : Setting} {v : Visit} {row : Row} {t : Table} {key : String} {f : Field} {x : Value}

/-- What a field brought to the column of a value is this value. -/
theorem Follows.fills_of_writes (h : Follows s v) (hrow : v.row? = some row) (hsound : t.Sound)
    (hw : Writes s v row t key f x) : ∃ column found, t.columnName? key = some column ∧
      Fills s v.element t v.id v.parent? key found f ∧ (column, x) ∈ found.1 := by
  obtain ⟨column, hcolumn, hcell⟩ := hw.cell
  have hkey : key ∈ t.fields.keys := OrderedMap.mem_keys_of_get? hw.field
  rcases h.cell_cases hrow hw.table hsound hcell with huid | ⟨key', f', found, hf', -, hfills, hfound, -⟩
  · obtain ⟨rfl, -⟩ := Prod.mk.inj huid
    exact absurd (hsound.eq_uid hkey hcolumn) hw.ne_uid
  · have hkey' : key = key' := hsound.columns key key' column hkey
      (OrderedMap.mem_keys_of_get? hf') hcolumn (hfills.column hfound)
    subst hkey'
    obtain rfl := Option.some.inj (hw.field.symm.trans hf')
    exact ⟨column, found, hcolumn, hfills, hfound⟩

theorem mem_cell {column? : Option String} {value? : Option Value} {c : String} {x : Value}
    (h : (c, x) ∈ cell column? value?) : value? = some x := by
  cases column? with
  | none => cases h
  | some column =>
    cases value? with
    | none => cases h
    | some value => rw [(Prod.mk.inj (List.mem_singleton.1 h)).2]

/-- Each value of a row comes from an item of the document. -/
theorem Follows.comes (h : Follows s v) (hrow : v.row? = some row) (hsound : t.Sound)
    (hw : Writes s v row t key f x) : ∃ i, Comes s v i t key f x := by
  obtain ⟨column, found, hcolumn, hfills, hfound⟩ := h.fills_of_writes hrow hsound hw
  have hkeyed := hsound.keyed key f hw.field
  have hcomes : ∀ i, (itemsAt s.layout key v.element).head? = some i → f.value? s.codec i = some x →
      Comes s v i t key f x := by
    intro i hhead hvalue
    refine ⟨hw.table, hw.field, hhead, ?_⟩
    rwa [kept?, if_neg hw.ne_uid]
  cases f with
  | link l => exact absurd rfl (hw.read.ne_link l)
  | backLink b => exact absurd rfl (hw.read.ne_backLink b)
  | column c =>
    obtain ⟨-, hfills⟩ := hfills
    rw [show c.key = key from hkeyed, selectText?_eq] at hfills
    cases hselect : (itemsAt s.layout key v.element).head?.bind Item.text? with
    | none =>
      rw [hselect] at hfills
      rw [hfills.2] at hfound
      cases hfound
    | some text =>
      rw [hselect] at hfills
      rw [hfills] at hfound
      obtain ⟨i, hhead, htext⟩ := Option.bind_eq_some_iff.1 hselect
      refine ⟨i, hcomes i hhead ?_⟩
      rw [Field.value?, htext]
      exact mem_cell hfound
  | geometry g =>
    obtain ⟨-, hfills⟩ := hfills
    rw [show g.key = key from hkeyed, selectShape?_eq] at hfills
    cases hselect : (itemsAt s.layout key v.element).head?.bind Item.shape? with
    | none =>
      rw [hselect] at hfills
      rw [hfills.2] at hfound
      cases hfound
    | some shape =>
      rw [hselect] at hfills
      rw [hfills] at hfound
      obtain ⟨i, hhead, hshape⟩ := Option.bind_eq_some_iff.1 hselect
      refine ⟨i, hcomes i hhead ?_⟩
      rw [Field.value?, hshape]
      exact mem_cell hfound

end Writes

end Population

namespace Conversion

/-- Each value of a row was read from an item whose own key is that of the field. -/
def Provenance (r : Run) : Prop :=
  ∀ v ∈ r.visits, ∀ row, v.row? = some row → ∀ t key f x, Writes r.setting v row t key f x →
    ∃ i, Comes r.setting v i t key f x ∧ Layout.OwnKey r.setting.layout v.element key i

section Document

variable {c : Conversion} {d : Document} {m n : Model} {r : Run}

/-- Rows are made for elements of the document. -/
theorem element_mem (hd : d.root.Distinct) (hb : Brings m r n) (hm : m.Sound) (hr : c.run m d = .ok r)
    {v : Visit} (hv : v ∈ r.visits) : v.element ∈ d.root.descendants := by
  rcases run_tree hd hb hm hr with ⟨u, hall, hroot, htree⟩ | ⟨hnil, -⟩
  · exact hroot ▸ (htree.of_mem (hall ▸ hv)).2
  · rw [hnil] at hv
    cases hv

/-- The steps of the key of a value are those to a part of a row of the document. -/
theorem key_of_writes (hd : d.root.Distinct) (hr : c.run {} d = .ok r) (hplain : PlainNames d.root)
    {v : Visit} {row : Row} {t : Table} {key : String} {f : Field} {x : Value}
    (hw : Writes r.setting v row t key f x) :
    ∃ names last step, key = Key.path (names ++ [last]) ∧ Key.Ending last step ∧
      (∀ name ∈ names, ∃ y ∈ d.root.descendants, ∃ c ∈ y.children, name = Layout.keyStep y c) ∧
      ∀ name, step = .attr name → ∃ y ∈ d.root.descendants, ∃ a ∈ y.attributes,
        a.name.localName = name ∧ a.name.ns? ≠ some xsiNamespace := by
  obtain ⟨typing, built, htyping, hbuilt, hs, -⟩ := run_cases hr
  have htable : built.model.table? v.table = some t := by
    have htable := hw.table
    rw [hs] at htable
    exact htable
  have htyped := Layout.typedBy_ofRoot hd htyping c.options
  rcases (Layout.build_records hd hbuilt).traced v.table t key f htable hw.field hw.ne_uid with
    ⟨bl, rfl⟩ | ⟨y, hy, -, g, hg, rfl, hgrows⟩
  · exact absurd rfl (hw.read.ne_backLink bl)
  · obtain ⟨names, last, step, hkey, hlast, hnames, hattr⟩ := hg.key_eq (htyped.of_mem hy)
      (hplain.of_mem hy) fun l => (hw.read.of_grows hgrows).ne_link l
    refine ⟨names, last, step, hkey, hlast, fun name hname => ?_, fun name hname => ?_⟩
    · obtain ⟨z, hz, hc⟩ := hnames name hname
      exact ⟨z, mem_descendants_trans hz hy, hc⟩
    · obtain ⟨z, hz, ha⟩ := hattr name hname
      exact ⟨z, mem_descendants_trans hz hy, ha⟩

/-- An item has the key of a value exactly if the way to it is straight. -/
theorem ownKey_of_writes_iff (hd : d.root.Distinct) (hr : c.run {} d = .ok r)
    (hplain : PlainNames d.root) {v : Visit} (hv : v.element ∈ d.root.descendants) {row : Row}
    {t : Table} {key : String} {f : Field} {x : Value} (hw : Writes r.setting v row t key f x)
    (i : Item) : Layout.OwnKey r.setting.layout v.element key i ↔
      Layout.ReadStraight r.setting.layout v.element key i := by
  obtain ⟨names, last, step, hkey, hlast, hnames, -⟩ := key_of_writes hd hr hplain hw
  refine Layout.ownKey_iff (hplain.of_mem hv) (fun name hname => ?_) hlast hkey
  obtain ⟨y, hy, c, hc, rfl⟩ := hnames name hname
  exact Layout.plain_keyStep y ((hplain.of_mem hy).elements c (mem_inner_of_mem_children hc))

end Document

/-- A document that is converted on its own has each value read from an item with the key of its field
exactly if no value is read from a note to the reader and the way to each value is straight. It is so for
all documents in which no name is ambiguous. -/
theorem provenance_iff (c : Conversion) {limits : Limits} {bytes : Bytes} {d : Document}
    (hd : Document.parse limits bytes = .ok d) {n : Model} {k : Nat}
    (h : c.document {} d = .ok (n, k)) (hplain : PlainNames d.root) :
    ∃ r, c.run {} d = .ok r ∧
      (Provenance r ↔ ∀ v ∈ r.visits, ∀ row, v.row? = some row → ∀ t key f x,
        Writes r.setting v row t key f x → ∀ i, Comes r.setting v i t key f x →
          Layout.ReadStraight r.setting.layout v.element key i) ∧
      (Unambiguous d.root → Provenance r) := by
  have hdistinct := (Document.numbered_parse hd).distinct
  obtain ⟨r, hr, hb⟩ := brings Model.sound_empty h
  have hsound := hb.grows.sound Model.sound_empty
  have hmem := fun v hv => element_mem hdistinct hb Model.sound_empty hr (v := v) hv
  have hcomes : ∀ v ∈ r.visits, ∀ row, v.row? = some row → ∀ {t key f x},
      Writes r.setting v row t key f x → ∃ i, Comes r.setting v i t key f x :=
    fun v hv row hrow t _ _ _ hw => (hb.follows v hv).comes hrow (hsound.tables _ t hw.table) hw
  refine ⟨r, hr, ⟨fun hprovenance v hv row hrow t key f x hw i hi => ?_,
    fun hstraight v hv row hrow t key f x hw => ?_⟩, fun hunambiguous v hv row hrow t key f x hw => ?_⟩
  · obtain ⟨j, ⟨-, -, hhead, -⟩, hown⟩ := hprovenance v hv row hrow t key f x hw
    obtain rfl := Option.some.inj (hi.2.2.1.symm.trans hhead)
    exact (ownKey_of_writes_iff hdistinct hr hplain (hmem v hv) hw i).1 hown
  · obtain ⟨i, hi⟩ := hcomes v hv row hrow hw
    exact ⟨i, hi, (ownKey_of_writes_iff hdistinct hr hplain (hmem v hv) hw i).2
      (hstraight v hv row hrow t key f x hw i hi)⟩
  · obtain ⟨i, hi⟩ := hcomes v hv row hrow hw
    obtain ⟨names, last, step, hkey, hlast, hnames, hattr⟩ := key_of_writes hdistinct hr hplain hw
    have hread := hunambiguous.readStraight hplain (hmem v hv) hkey hlast hnames hattr
      (List.mem_of_head? hi.2.2.1)
    exact ⟨i, hi, (ownKey_of_writes_iff hdistinct hr hplain (hmem v hv) hw i).2 hread⟩

/-- Two parts of different names. -/
def pairSchema : String :=
  "<xs:schema xmlns:xs='http://www.w3.org/2001/XMLSchema'><xs:element name='a'><xs:complexType>" ++
  "<xs:sequence><xs:element name='b' type='xs:string'/><xs:element name='c' type='xs:string'/>" ++
  "</xs:sequence></xs:complexType></xs:element></xs:schema>"

/-- Each text is read from the part that the key names. -/
theorem provenance_of_unambiguous : ∃ d n k r, Document.ofText "<a><b>x</b><c>y</c></a>" = .ok d ∧
    (ofText pairSchema).document {} d = .ok (n, k) ∧
    n.rowsOf "a" = [⟨[("id", .int 1), ("b", .text "x"), ("c", .text "y")]⟩] ∧
    (ofText pairSchema).run {} d = .ok r ∧ Provenance r := by
  have heval : ((Document.ofText "<a><b>x</b><c>y</c></a>").toOption.bind fun d =>
      ((ofText pairSchema).document {} d).toOption.map fun n =>
        (n.1.rowsOf "a", decide (PlainNames d.root ∧ Unambiguous d.root))) =
      some ([⟨[("id", .int 1), ("b", .text "x"), ("c", .text "y")]⟩], true) := by
    decide +kernel
  obtain ⟨d, hd, heval⟩ := Option.bind_eq_some_iff.1 heval
  obtain ⟨⟨n, k⟩, hn, heval⟩ := Option.map_eq_some_iff.1 heval
  rw [toOption_eq_some_iff] at hd hn
  obtain ⟨hrows, hnames⟩ := Prod.mk.inj heval
  obtain ⟨hplain, hunambiguous⟩ := of_decide_eq_true hnames
  obtain ⟨r, hr, -, hprovenance⟩ := provenance_iff (ofText pairSchema) hd hn hplain
  exact ⟨d, n, k, r, hd, hn, hrows, hr, hprovenance hunambiguous⟩

/-- Two parts of one name, the first of which is in a namespace. -/
def siblingsSchema : String :=
  "<xs:schema xmlns:xs='http://www.w3.org/2001/XMLSchema' xmlns:m='urn:meta' " ++
  "targetNamespace='urn:meta'><xs:element name='n' type='xs:string'/><xs:element name='a'>" ++
  "<xs:complexType><xs:sequence><xs:element ref='m:n'/><xs:element name='n' type='xs:string'/>" ++
  "</xs:sequence></xs:complexType></xs:element></xs:schema>"

/-- The text of the first part is read for the second one as well. -/
theorem first_sibling_read : ∃ d n k r,
    Document.ofText "<m:a xmlns:m='urn:meta'><m:n>x</m:n><n>y</n></m:a>" = .ok d ∧
    (ofText siblingsSchema).document {} d = .ok (n, k) ∧ (ofText siblingsSchema).run {} d = .ok r ∧
    n.rowsOf "a" = [⟨[("id", .int 1), ("meta_n", .text "x"), ("n", .text "x")]⟩] ∧
    ¬ Provenance r := by
  have heval : ((Document.ofText "<m:a xmlns:m='urn:meta'><m:n>x</m:n><n>y</n></m:a>").toOption.bind
      fun d => ((ofText siblingsSchema).document {} d).toOption.bind fun n =>
        ((ofText siblingsSchema).run {} d).toOption.map fun r =>
          (n.1.rowsOf "a", decide (∃ v ∈ r.visits,
              (∃ row ∈ v.row?.toList, ("n", .text "x") ∈ row.cells) ∧
              ∃ t ∈ (r.setting.model.table? v.table).toList, "n/text()" ≠ t.uid ∧
                t.columnName? "n/text()" = some "n" ∧
                (t.fields.get? "n/text()").any (fun f => decide f.IsRead) = true),
            decide (∀ v ∈ r.visits, v.element.id = 0 ∧
              (Layout.itemsAt r.setting.layout "n/text()" v.element).head?.map
                (fun i => match i with | .text y => y.id | _ => 0) = some 1 ∧
              ∀ c ∈ v.element.children, c.children.length = 0 ∧
                (c.id = 1 → Layout.keyStep v.element c = "meta:n")))) =
      some ([⟨[("id", .int 1), ("meta_n", .text "x"), ("n", .text "x")]⟩], true, true) := by
    decide +kernel
  obtain ⟨d, hd, heval⟩ := Option.bind_eq_some_iff.1 heval
  obtain ⟨⟨n, k⟩, hn, heval⟩ := Option.bind_eq_some_iff.1 heval
  obtain ⟨r, hr, heval⟩ := Option.map_eq_some_iff.1 heval
  rw [toOption_eq_some_iff] at hd hn hr
  obtain ⟨hrows, heval⟩ := Prod.mk.inj heval
  obtain ⟨hread, hsteps⟩ := Prod.mk.inj heval
  obtain ⟨v, hv, ⟨row, hrow, hcell⟩, t, ht, hkey, hcolumn, hread⟩ := of_decide_eq_true hread
  obtain ⟨f, hf, hread⟩ := (Option.any_eq_true _ _).1 hread
  obtain ⟨hid, hhead, hchildren⟩ := of_decide_eq_true hsteps v hv
  refine ⟨d, n, k, r, hd, hn, hr, hrows, fun hprovenance => ?_⟩
  obtain ⟨i, ⟨-, -, hfirst, -⟩, hown⟩ := hprovenance v hv row (by simpa using hrow) t _ f _
    ⟨by simpa using ht, hf, hkey, of_decide_eq_true hread, "n", hcolumn, hcell⟩
  obtain ⟨y, rfl, hy⟩ : ∃ y, i = .text y ∧ y.id = 1 := by
    rw [hfirst] at hhead
    cases i with
    | text y => exact ⟨y, rfl, Option.some.inj hhead⟩
    | attr e a => cases hhead
    | geometry e => cases hhead
  -- the text is that of the first sibling, and its key has a label
  rcases hown.text_cases with ⟨rfl, -⟩ | ⟨c, hc, below, hkey, hbelow⟩
  · rw [hid] at hy
    cases hy
  · obtain ⟨hleaf, hstep⟩ := hchildren c hc
    rcases hbelow.text_cases with ⟨rfl, rfl⟩ | ⟨z, hz, -⟩
    · rw [hstep hy] at hkey
      revert hkey
      decide
    · rw [List.length_eq_zero_iff.1 hleaf] at hz
      cases hz

end Conversion

end FeatureTables
