import FeatureTables.Proofs.Conversion.Emission
import FeatureTables.Proofs.Layout.Sources
import FeatureTables.Proofs.Population.Cells

/-!
What of a document is kept in its rows. A row is to keep the attributes, texts and geometries of its
element and of the parts of its row. The table of the row has a field for each of them, but a field
keeps one item only: the first that its key leads to. So nothing is lost exactly if each item is the
first under some key (`retains_iff`), which the second of two parts with one name is not.
-/

namespace FeatureTables

open Population Xml

namespace Population

open Layout

/-- What the column of a key keeps of an item. Identifiers are kept as they are written. -/
def kept? (s : Setting) (t : Table) (key : String) (f : Field) (i : Item) : Option Value :=
  if key = t.uid then i.text?.map .text else f.value? s.codec i

/-- The item is the first that the key of a field leads to, and the field can keep it. -/
def Comes (s : Setting) (v : Visit) (i : Item) (t : Table) (key : String) (f : Field)
    (x : Value) : Prop :=
  s.model.table? v.table = some t ∧ t.fields.get? key = some f ∧
    (itemsAt s.layout key v.element).head? = some i ∧ kept? s t key f i = some x

/-- A cell of the row was read from the item. -/
def Stores (s : Setting) (v : Visit) (row : Row) (i : Item) : Prop :=
  ∃ t key f x column, Comes s v i t key f x ∧ t.columnName? key = some column ∧
    (column, x) ∈ row.cells

section Stores

variable {s : Setting} {v : Visit} {row : Row} {i : Item} {t : Table} {a a' : Account}
  {vs : List Visit} {key : String} {f : Field} {x : Value}

/-- Each visit of a table enters its account. -/
theorem Traces.enters (h : Traces t a vs a') (hv : v ∈ vs) :
    ∃ b b', Enters t v.element b v.id v.row?.isSome b' := by
  induction h with
  | nil => cases hv
  | cons hw _ ih =>
    rcases List.mem_cons.1 hv with rfl | hv
    · exact ⟨_, _, hw⟩
    · exact ih hv

/-- The row of an element that the document identifies has the identifier that is written there. -/
theorem Enters.id_eq {e : Element} {id : Value} {isNew : Bool} (h : Enters t e a id isNew a')
    (hnatural : t.hasNaturalId = true) {given : String} (hgiven : e.attribute? "id" = some given) :
    id = .text given := by
  have hnames : ∀ {n name n'}, Names t e n name n' → name = given := by
    intro n name n' h
    cases h with
    | given h =>
      rw [hgiven] at h
      exact (Option.some.inj h).symm
    | minted h =>
      rw [hgiven] at h
      cases h
  cases h with
  | number h =>
    rw [hnatural] at h
    cases h
  | new _ h _ => rw [hnames h]
  | known _ h _ => rw [hnames h]

theorem itemsAt_naturalUid (l : Layout) (e : Element) :
    itemsAt l Key.naturalUid e = itemsOf l (.attr "id") e := by
  have hkey : Key.naturalUid = "@" ++ "id" := by decide
  rw [hkey, itemsAt_single (Key.steps_attribute (by decide))]

/-- No item has the key of the number of a row. -/
theorem itemsAt_syntheticUid (l : Layout) (e : Element) :
    itemsAt l Key.syntheticUid e = [] := by
  rw [itemsAt_single (Key.steps_of_plain Key.plain_syntheticUid), itemsOf]

/-- The identifier of a row is the first item under its key. -/
theorem id_of_comes (hsound : t.Sound) (hid : t.hasNaturalId = true → ∀ id,
    v.element.attribute? "id" = some id → v.id = .text id) (h : Comes s v i t t.uid f x) :
    x = v.id := by
  obtain ⟨-, -, hhead, hkept⟩ := h
  rcases hsound.uid with huid | huid
  · obtain ⟨id, htext, rfl⟩ := Option.map_eq_some_iff.1 (by rwa [kept?, if_pos rfl] at hkept)
    refine (hid (by simp [Table.hasNaturalId, huid]) id ?_).symm
    rw [attribute?_eq s.layout, ← itemsAt_naturalUid, ← huid, hhead]
    exact htext
  · rw [huid, itemsAt_syntheticUid] at hhead
    cases hhead

theorem Follows.stores_id (h : Follows s v) (hrow : v.row? = some row) (hsound : t.Sound)
    (hid : t.hasNaturalId = true → ∀ id, v.element.attribute? "id" = some id → v.id = .text id)
    (hcomes : Comes s v i t t.uid f x) : Stores s v row i := by
  obtain rfl := id_of_comes hsound hid hcomes
  refine ⟨t, _, f, _, t.uidName, hcomes, hsound.columnName?_uid, ?_⟩
  obtain ⟨t', found, ht', -, -, hcells, -⟩ := h.of_row hrow
  obtain rfl := Option.some.inj (hcomes.1.symm.trans ht')
  rw [hcells]
  exact List.mem_cons_self

theorem Follows.stores_value (h : Follows s v) (hrow : v.row? = some row) (hsound : t.Sound)
    (hkey : key ≠ t.uid) (hcomes : Comes s v i t key f x) : Stores s v row i := by
  obtain ⟨ht, hf, hhead, hkept⟩ := hcomes
  obtain ⟨found, hfills, hcells, -⟩ := h.fills hrow ht hf hkey
  have hvalue : f.value? s.codec i = some x := by rwa [kept?, if_neg hkey] at hkept
  have hcell : f.columnName?.isSome = true → found.1 = cell (t.columnName? key) (some x) →
      Stores s v row i := by
    intro hname hfound
    obtain ⟨column, hcolumn⟩ : ∃ column, t.columnName? key = some column :=
      Option.isSome_iff_exists.1 (by simp [Table.columnName?, hf, hname])
    refine ⟨t, key, f, x, column, ⟨ht, hf, hhead, hkept⟩, hcolumn, hcells _ ?_⟩
    rw [hfound, hcolumn]
    exact List.mem_singleton_self _
  have hkeyed := hsound.keyed key f hf
  cases f with
  | link l => cases hvalue
  | backLink b => cases hvalue
  | column c =>
    obtain ⟨text, htext, rfl⟩ := Option.map_eq_some_iff.1 hvalue
    have hselect : s.layout.selectText? c.key v.element = some text := by
      rw [show c.key = key from hkeyed, selectText?_eq, hhead]
      exact htext
    obtain ⟨-, hfills⟩ := hfills
    rw [hselect] at hfills
    exact hcell rfl hfills
  | geometry g =>
    obtain ⟨⟨wkt, srid⟩, hdecoded, rfl⟩ := Option.map_eq_some_iff.1 hvalue
    obtain ⟨shape, hshape, hcodec⟩ := Option.bind_eq_some_iff.1 hdecoded
    have hselect : s.layout.selectShape? g.key v.element = some shape := by
      rw [show g.key = key from hkeyed, selectShape?_eq, hhead]
      exact hshape
    obtain ⟨-, hfills⟩ := hfills
    rw [hselect] at hfills
    refine hcell rfl ?_
    rw [hfills, hcodec]
    rfl

/-- The first item under the key of a field is read into a cell of the row. -/
theorem Follows.stores (h : Follows s v) (hrow : v.row? = some row) (hsound : t.Sound)
    (hid : t.hasNaturalId = true → ∀ id, v.element.attribute? "id" = some id → v.id = .text id)
    (hcomes : Comes s v i t key f x) : Stores s v row i := by
  by_cases hkey : key = t.uid
  · subst hkey
    exact h.stores_id hrow hsound hid hcomes
  · exact h.stores_value hrow hsound hkey hcomes

end Stores

end Population

namespace Conversion

/-- Each row keeps all items of its element, but for geometries that do not decode. -/
def Retains (typing : Typing) (r : Run) : Prop :=
  ∀ v ∈ r.visits, ∀ row, v.row? = some row → ∀ key i,
    Layout.Holds typing r.setting.layout v.element key i →
      i.Undecodable r.setting.codec ∨ Stores r.setting v row i

/-- The table of a row has a field for an item, under the key of the item. -/
def HasField (r : Run) (v : Visit) (key : String) (i : Item) : Prop :=
  ∃ t f, r.setting.model.table? v.table = some t ∧ t.fields.get? key = some f ∧
    i ∈ Layout.itemsAt r.setting.layout key v.element ∧
    (i.Undecodable r.setting.codec ∨ (kept? r.setting t key f i).isSome = true)

section Document

variable {c : Conversion} {d : Document} {typing : Typing} {built : Layout.Outcome}

/-- An item brings a field to its row, and the field has its key and its kind in the table. -/
theorem exists_field (hd : d.root.Distinct) (ht : Typing.ofRoot c.catalog d.root = .ok typing)
    (hb : Layout.build ⟨typing, c.options⟩ {} d.root = .ok built) (hplain : PlainNames d.root)
    (hroot : ∀ t, typing.get? d.root.id = some t → t.isGeometry = false) {e : Element}
    (he : e ∈ d.root.descendants) {name : String}
    (hname : built.layout.get? e.id = some (.table name)) {key : String} {i : Item}
    (hi : Layout.Holds typing built.layout e key i) :
    ∃ t, built.model.table? name = some t ∧ (key = t.uid ∨ ∃ f before last,
      t.fields.get? key = some f ∧ Key.steps key = before ++ [last] ∧ f.Fits last) := by
  have htyped := Layout.typedBy_ofRoot hd ht c.options
  have hgeometry : ∀ y p, built.layout.get? (Element.id y) = some p →
      ∃ t, Layout.typingOf ⟨typing, c.options⟩ y = .ok t ∧ (p ≠ .geometry → t.isGeometry = false) := by
    intro y p hp
    obtain ⟨t, hty, -, hcases⟩ := Layout.build_typed hb hp
    refine ⟨t, Layout.typingOf_eq_ok_iff.2 hty, fun hne => (hcases hne).elim (fun hid => ?_) id⟩
    exact hroot t (hid ▸ hty)
  obtain ⟨t, hte, hrow⟩ := hgeometry e _ hname
  obtain ⟨g, hg, rfl⟩ := hi.carries
    (htyped.of_mem he) ⟨t, hte, hrow (by simp)⟩
    fun y _ p hp => by
      obtain ⟨ty, hty, hinlined⟩ := hgeometry y p hp
      exact ⟨ty, hty, fun hp => hinlined (by simp [hp])⟩
  have hrecords := Layout.build_records hd hb
  obtain ⟨u, hu, hbrought⟩ := hrecords.brought e he name hname
  refine ⟨u, hu, (hbrought g hg).imp id ?_⟩
  rintro ⟨f, hf, y, hy, -, g', hg', hkey, hgrows⟩
  obtain ⟨before, last, hlast, hfits⟩ := hg'.fits (htyped.of_mem hy) (hplain.of_mem hy)
  exact ⟨f, before, last, hf, hkey ▸ hlast, hfits.grows hgrows⟩

/-- The field of an item can keep it. -/
theorem exists_kept {s : Setting} {t : Table} (hsound : t.Sound) {e : Element} {key : String}
    {i : Item} {before : List Key.Step} {last : Key.Step}
    (hmem : i ∈ Layout.itemsAt s.layout key e) (hsteps : Key.steps key = before ++ [last])
    (hi : i.Fits last) (h : key = t.uid ∨ ∃ f before last, t.fields.get? key = some f ∧
      Key.steps key = before ++ [last] ∧ f.Fits last) :
    ∃ f, t.fields.get? key = some f ∧
      (i.Undecodable s.codec ∨ (kept? s t key f i).isSome = true) := by
  by_cases hkey : key = t.uid
  · subst hkey
    obtain ⟨c, hc⟩ := hsound.uidColumn
    refine ⟨_, hc, Or.inr ?_⟩
    unfold kept?
    rw [if_pos rfl]
    rcases hsound.uid with huid | huid
    · rw [huid, itemsAt_naturalUid] at hmem
      obtain ⟨a, -, rfl⟩ := List.mem_map.1 hmem
      rfl
    · rw [huid, itemsAt_syntheticUid] at hmem
      cases hmem
  · obtain ⟨f, before', last', hf, hsteps', hfits⟩ := h.resolve_left hkey
    have hlast : last = last' := by
      have := congrArg List.getLast? (hsteps.symm.trans hsteps')
      simpa using this
    refine ⟨f, hf, ?_⟩
    unfold kept?
    rw [if_neg hkey]
    exact (hlast ▸ hfits).value? hi

end Document

/-- A document that is converted on its own has all its items kept exactly if each of them is the first
one under the key of some field, unless it does not decode. Each of them has a field under its own key
as long as names are plain and the root is no geometry. -/
theorem retains_iff (c : Conversion) {limits : Limits} {bytes : Bytes} {d : Document}
    (hd : Document.parse limits bytes = .ok d) {n : Model} {k : Nat}
    (h : c.document {} d = .ok (n, k)) :
    ∃ typing r, Typing.ofRoot c.catalog d.root = .ok typing ∧ c.run {} d = .ok r ∧
      (Retains typing r ↔ ∀ v ∈ r.visits, v.row?.isSome = true → ∀ key i,
        Layout.Holds typing r.setting.layout v.element key i →
          i.Undecodable r.setting.codec ∨ ∃ t key f x, Comes r.setting v i t key f x) ∧
      (PlainNames d.root → (∀ t, typing.get? d.root.id = some t → t.isGeometry = false) →
        ∀ v ∈ r.visits, ∀ key i, Layout.Holds typing r.setting.layout v.element key i →
          HasField r v key i) := by
  have hdistinct := (Document.numbered_parse hd).distinct
  obtain ⟨r, hr, hb⟩ := brings Model.sound_empty h
  obtain ⟨typing, built, htyping, hbuilt, hs, -⟩ := run_cases hr
  have hsound := hb.grows.sound Model.sound_empty
  refine ⟨typing, r, htyping, hr, ⟨fun hretains v hv hmade key i hi => ?_,
    fun hcomes v hv row hrow key i hi => ?_⟩, fun hplain hroot v hv key i hi => ?_⟩
  · obtain ⟨row, hrow⟩ := Option.isSome_iff_exists.1 hmade
    refine (hretains v hv row hrow key i hi).imp id ?_
    rintro ⟨t, key, f, x, -, hcomes, -⟩
    exact ⟨t, key, f, x, hcomes⟩
  · have hmade : v.row?.isSome = true := by rw [hrow]; rfl
    refine (hcomes v hv hmade key i hi).imp id ?_
    rintro ⟨t, key, f, x, hcomes⟩
    refine (hb.follows v hv).stores hrow (hsound.tables _ t hcomes.1) (fun hnatural id hid => ?_)
      hcomes
    obtain ⟨a, a', -, -, htraces, -⟩ := hb.tables v.table t hcomes.1
    obtain ⟨b, b', henters⟩ := htraces.enters (List.mem_filter.2 ⟨hv, by simp⟩)
    exact henters.id_eq hnatural hid
  · rcases run_tree hdistinct hb Model.sound_empty hr with ⟨u, hall, hroot', htree⟩ | ⟨hnil, -⟩
    · obtain ⟨hwtree, hmem⟩ := htree.of_mem (hall ▸ hv)
      have hplaced := hwtree.placed
      rw [hroot'] at hmem
      unfold Visit.Placed at hplaced
      obtain ⟨hitem, before, last, hsteps, hfits⟩ :=
        hi.mem_itemsAt (s := ⟨typing, c.options⟩) (hplain.of_mem hmem)
      have hlayout : built.layout = r.setting.layout := by rw [hs]
      obtain ⟨t, ht, hcases⟩ := exists_field hdistinct htyping hbuilt hplain hroot hmem
        (hlayout ▸ hplaced) (hlayout ▸ hi)
      have ht' : r.setting.model.table? v.table = some t := by
        rw [hs]
        exact ht
      obtain ⟨f, hf, hkept⟩ :=
        exists_kept (hsound.tables _ t ht') hitem hsteps hfits hcases
      exact ⟨t, f, ht', hf, hitem, hkept⟩
    · rw [hnil] at hv
      cases hv

/-- An element that is no more than a text. -/
def textSchema : String :=
  "<xs:schema xmlns:xs='http://www.w3.org/2001/XMLSchema'><xs:element name='a' type='xs:string'/>" ++
  "</xs:schema>"

/-- The text of a root is kept. -/
theorem retains_of_text : ∃ d n k typing r, Document.ofText "<a>x</a>" = .ok d ∧
    (ofText textSchema).document {} d = .ok (n, k) ∧
    Typing.ofRoot (ofText textSchema).catalog d.root = .ok typing ∧
    (ofText textSchema).run {} d = .ok r ∧ Retains typing r := by
  have heval : ((Document.ofText "<a>x</a>").toOption.bind fun d =>
      ((ofText textSchema).document {} d).toOption.bind fun _ =>
        ((ofText textSchema).run {} d).toOption.map fun r => decide (∀ v ∈ r.visits,
          v.element.attributes = [] ∧ v.element.children.length = 0 ∧
          ∃ t ∈ (r.setting.model.table? v.table).toList, ∃ f ∈ (t.fields.get? Key.text).toList,
            ∃ x ∈ (kept? r.setting t Key.text f (.text v.element)).toList, x = .text "x")) =
      some true := by
    decide +kernel
  obtain ⟨d, hd, heval⟩ := Option.bind_eq_some_iff.1 heval
  obtain ⟨⟨n, k⟩, hn, heval⟩ := Option.bind_eq_some_iff.1 heval
  obtain ⟨r, hr, heval⟩ := Option.map_eq_some_iff.1 heval
  rw [toOption_eq_some_iff] at hd hn hr
  obtain ⟨typing, r', htyping, hr', hiff, -⟩ := retains_iff (ofText textSchema) hd hn
  obtain rfl := Except.ok.inj (hr.symm.trans hr')
  refine ⟨d, n, k, typing, r, hd, hn, htyping, hr, hiff.2 fun v hv _ key i hi => Or.inr ?_⟩
  obtain ⟨hattributes, hchildren, t, ht, f, hf, x, hx, -⟩ := of_decide_eq_true heval v hv
  rw [List.length_eq_zero_iff] at hchildren
  cases hi with
  | attr ha =>
    rw [hattributes] at ha
    cases ha
  | geometry hc =>
    rw [hchildren] at hc
    cases hc
  | part hc =>
    rw [hchildren] at hc
    cases hc
  | text =>
    refine ⟨t, _, f, x, by simpa using ht, by simpa using hf, ?_, by simpa using hx⟩
    rw [Layout.itemsAt_single Key.steps_text]
    rfl

/-- Two parts of one name, neither of which may be repeated where it stands. -/
def twiceSchema : String :=
  "<xs:schema xmlns:xs='http://www.w3.org/2001/XMLSchema'><xs:element name='a'><xs:complexType>" ++
  "<xs:sequence><xs:element name='b' type='xs:string'/><xs:element name='c' type='xs:string'/>" ++
  "<xs:element name='b' type='xs:string'/></xs:sequence></xs:complexType></xs:element></xs:schema>"

/-- The text of the second part is in no cell. -/
theorem second_part_dropped : ∃ d n k typing r,
    Document.ofText "<a><b>x</b><c>y</c><b>z</b></a>" = .ok d ∧
    (ofText twiceSchema).document {} d = .ok (n, k) ∧
    n.rowsOf "a" = [⟨[("id", .int 1), ("b", .text "x"), ("c", .text "y")]⟩] ∧
    Typing.ofRoot (ofText twiceSchema).catalog d.root = .ok typing ∧
    (ofText twiceSchema).run {} d = .ok r ∧ ¬ Retains typing r := by
  have heval : ((Document.ofText "<a><b>x</b><c>y</c><b>z</b></a>").toOption.bind fun d =>
      ((ofText twiceSchema).document {} d).toOption.bind fun n =>
        (Typing.ofRoot (ofText twiceSchema).catalog d.root).toOption.bind fun typing =>
        ((ofText twiceSchema).run {} d).toOption.map fun r =>
          (n.1.rowsOf "a", decide (∃ v ∈ r.visits, ∃ row ∈ v.row?.toList, ∃ e ∈ v.element.children,
            r.setting.layout.get? e.id = some .inlined ∧ e.text?.isSome = true ∧
            (∃ t ∈ (typing.get? e.id).toList, t.content?.isSome = true) ∧
            ∀ t ∈ (r.setting.model.table? v.table).toList, ∀ field ∈ t.fields.entries,
              ∀ x ∈ row.cells, kept? r.setting t field.1 field.2 (.text e) ≠ some x.2))) =
      some ([⟨[("id", .int 1), ("b", .text "x"), ("c", .text "y")]⟩], true) := by
    decide +kernel
  obtain ⟨d, hd, heval⟩ := Option.bind_eq_some_iff.1 heval
  obtain ⟨⟨n, k⟩, hn, heval⟩ := Option.bind_eq_some_iff.1 heval
  obtain ⟨typing, htyping, heval⟩ := Option.bind_eq_some_iff.1 heval
  obtain ⟨r, hr, heval⟩ := Option.map_eq_some_iff.1 heval
  rw [toOption_eq_some_iff] at hd hn htyping hr
  obtain ⟨hrows, heval⟩ := Prod.mk.inj heval
  obtain ⟨v, hv, row, hrow, e, he, hinlined, htext, ⟨t, ht, hcontent⟩, hnone⟩ :=
    of_decide_eq_true heval
  refine ⟨d, n, k, typing, r, hd, hn, hrows, htyping, hr, fun hretains => ?_⟩
  have hholds := Layout.Holds.part he hinlined (.text (by simpa using ht) hcontent htext)
  rcases hretains v hv row (by simpa using hrow) _ _ hholds with ⟨shape, hshape, -⟩ |
    ⟨t, key, f, x, column, ⟨ht, hf, -, hkept⟩, -, hcell⟩
  · cases hshape
  · exact hnone t (by simpa using ht) (key, f) (OrderedMap.mem_entries_of_get? hf) _ hcell hkept

end Conversion

end FeatureTables
