import FeatureTables.Proofs.Conversion.Identity
import FeatureTables.Proofs.Conversion.Parents
import FeatureTables.Proofs.Model.Joining

/-!
Models of documents that are joined. Each of both models had its own names for columns, its own numbers
and its own tables, and joining touches no row. So the rows that were readable, told apart and rightly
linked stay so under conditions on both models (`joined_after`), which those of documents converted one
after the other meet by construction.
-/

namespace FeatureTables

open Population Xml

/-! ### Identifiers of both models -/

/-- The identifiers in the rows of each table are pairwise distinct. -/
def Model.TellsApart (m : Model) : Prop :=
  ∀ name t, m.table? name = some t → ((m.rowsOf name).filterMap (·.get? t.uidName)).Nodup

/-- Numbered tables have no more rows than there are numbers. -/
def Model.CountsFit (m : Model) : Prop :=
  ∀ name t, m.table? name = some t → t.hasNaturalId = false → (m.rowsOf name).length < Nat.pow 2 63

namespace Table

/-- One of the second rows has what identifies one of the first ones. -/
def Shares (t : Table) (rows rows' : List Row) : Prop :=
  ∃ row ∈ rows, ∃ row' ∈ rows', row.get? t.uidName = row'.get? t.uidName

instance (t : Table) (rows rows' : List Row) : Decidable (t.Shares rows rows') :=
  inferInstanceAs (Decidable (∃ row ∈ rows, ∃ row' ∈ rows', row.get? t.uidName = row'.get? t.uidName))

/-- What it takes for the rows of two tables to be told apart in one: no identifier of the documents is in
both; and as numbers start from one, only one of two numbered tables has rows. Where the tables identify
rows in different ways, the second rows are told apart by what they have in the first table's column. -/
structure Separate (t v : Table) (rows rows' : List Row) : Prop where
  texts : t.uid = v.uid → t.hasNaturalId = true → ¬ t.Shares rows rows'
  numbers : t.uid = v.uid → t.hasNaturalId = false → rows = [] ∨ rows' = []
  mixed : t.uid ≠ v.uid → (rows'.filterMap (·.get? t.uidName)).Nodup ∧ ¬ t.Shares rows rows'

variable {t v : Table} {rows rows' : List Row}

/-- The first number that is given is one. -/
theorem Identifies.exists_one (h : t.Identifies rows) (hnatural : t.hasNaturalId = false)
    (hcount : rows.length < Nat.pow 2 63) (hrows : rows ≠ []) :
    ∃ row ∈ rows, row.get? t.uidName = some (.int 1) := by
  obtain ⟨-, hids⟩ := h.numbers hnatural hcount
  obtain ⟨row, rest, rfl⟩ := List.exists_cons_of_ne_nil hrows
  rw [List.length_cons, List.range'_succ, List.map_cons, List.map_cons, List.map_cons] at hids
  exact ⟨row, List.mem_cons_self, (List.cons.inj hids).1⟩

theorem filterMap_of_map_eq {α β : Type} {f : α → Option β} {xs : List α} {ys : List β}
    (h : xs.map f = ys.map some) : xs.filterMap f = ys := by
  have hid : xs.filterMap f = (xs.map f).filterMap id := by rw [List.filterMap_map]; rfl
  rw [hid, h, List.filterMap_map]
  exact List.filterMap_some

/-- The rows of both are told apart, exactly if the second ones are and no identifier is shared. -/
theorem Identifies.nodup_append_iff (h : t.Identifies rows)
    (hcount : t.hasNaturalId = false → rows.length < Nat.pow 2 63) :
    ((rows ++ rows').filterMap (·.get? t.uidName)).Nodup ↔
      (rows'.filterMap (·.get? t.uidName)).Nodup ∧ ¬ t.Shares rows rows' := by
  obtain ⟨ids, hnodup, hids⟩ := h.exists_ids hcount
  rw [List.filterMap_append, filterMap_of_map_eq hids, List.nodup_append, and_iff_right hnodup]
  refine and_congr_right fun _ => ⟨?_, ?_⟩
  · rintro hapart ⟨row, hrow, row', hrow', hget⟩
    have hmem : row.get? t.uidName ∈ ids.map some := hids ▸ List.mem_map_of_mem hrow
    obtain ⟨id, hid, hrowid⟩ := List.mem_map.1 hmem
    exact hapart id hid id (List.mem_filterMap.2 ⟨row', hrow', hget.symm.trans hrowid.symm⟩) rfl
  · rintro hshares id hid _ hid' rfl
    have hmem : some id ∈ rows.map (·.get? t.uidName) := hids ▸ List.mem_map_of_mem hid
    obtain ⟨row, hrow, hrowid⟩ := List.mem_map.1 hmem
    obtain ⟨row', hrow', hrowid'⟩ := List.mem_filterMap.1 hid'
    exact hshares ⟨row, hrow, row', hrow', hrowid.trans hrowid'.symm⟩

theorem Identifies.separate_iff (h : t.Identifies rows) (h' : v.Identifies rows')
    (hcount : t.hasNaturalId = false → rows.length < Nat.pow 2 63)
    (hcount' : v.hasNaturalId = false → rows'.length < Nat.pow 2 63) :
    ((rows ++ rows').filterMap (·.get? t.uidName)).Nodup ↔ t.Separate v rows rows' := by
  rw [h.nodup_append_iff hcount]
  by_cases huid : t.uid = v.uid
  · have hname : v.uidName = t.uidName := by rw [uidName, uidName, huid]
    have hnatural : v.hasNaturalId = t.hasNaturalId := by rw [hasNaturalId, hasNaturalId, huid]
    obtain ⟨ids, hnodup, hids⟩ := h'.exists_ids hcount'
    rw [hname] at hids
    rw [filterMap_of_map_eq hids, and_iff_right hnodup]
    refine ⟨fun hshares => ⟨fun _ _ => hshares, fun _ hnumbers => ?_, fun hne => absurd huid hne⟩,
      fun hseparate => ?_⟩
    · by_contra hrows
      obtain ⟨hrows, hrows'⟩ := not_or.1 hrows
      obtain ⟨row, hrow, hone⟩ := h.exists_one hnumbers (hcount hnumbers) hrows
      have hnumbers' := hnatural.trans hnumbers
      obtain ⟨row', hrow', hone'⟩ := h'.exists_one hnumbers' (hcount' hnumbers') hrows'
      exact hshares ⟨row, hrow, row', hrow', by rw [hone, ← hname, hone']⟩
    · cases hkind : t.hasNaturalId with
      | true => exact hseparate.texts huid hkind
      | false =>
        rintro ⟨row, hrow, row', hrow', -⟩
        rcases hseparate.numbers huid hkind with rfl | rfl
        · cases hrow
        · cases hrow'
  · exact ⟨fun hapart => ⟨fun h => absurd h huid, fun h => absurd h huid, fun _ => hapart⟩,
      fun hseparate => hseparate.mixed huid⟩

end Table

namespace Model

variable {m n : Model} (hn : n.Regular) (hids : m.Identified) (hids' : n.Identified)
  (hcount : m.CountsFit) (hcount' : n.CountsFit)

include hn hids hids' hcount hcount'

/-- The rows of both models are told apart, exactly if they are so in the tables of both models. -/
theorem tellsApart_join_iff : (m.join n).TellsApart ↔
    ∀ name t v, m.table? name = some t → n.table? name = some v →
      t.Separate v (m.rowsOf name) (n.rowsOf name) := by
  constructor
  · intro h name t v ht hv
    obtain ⟨u, hu, hback⟩ := exists_table_join hn (m := m) (w := t.join v) (by rw [ht, hv]; rfl)
    have hnodup := h name u hu
    rw [rowsOf_join hn, hback.grows.uidName, Table.join_uidName] at hnodup
    exact ((hids.tables name t ht).separate_iff (hids'.tables name v hv) (hcount name t ht)
      (hcount' name v hv)).1 hnodup
  · intro h name u hu
    obtain ⟨w, hw, hback⟩ := table_of_join hn hu
    rw [rowsOf_join hn, hback.grows.uidName]
    cases ht : m.table? name with
    | none =>
      rw [ht, Option.merge_none_left] at hw
      obtain ⟨ids, hnodup, heq⟩ := (hids'.tables name w hw).exists_ids (hcount' name w hw)
      rw [hids.rows name ht, List.nil_append, Table.filterMap_of_map_eq heq]
      exact hnodup
    | some t =>
      have hrows := hids.tables name t ht
      cases hv : n.table? name with
      | none =>
        rw [ht, hv, Option.merge_none_right] at hw
        obtain rfl := Option.some.inj hw
        obtain ⟨ids, hnodup, heq⟩ := hrows.exists_ids (hcount name t ht)
        rw [hids'.rows name hv, List.append_nil, Table.filterMap_of_map_eq heq]
        exact hnodup
      | some v =>
        rw [ht, hv] at hw
        obtain rfl := Option.some.inj hw
        rw [Table.join_uidName]
        exact (hrows.separate_iff (hids'.tables name v hv) (hcount name t ht) (hcount' name v hv)).2
          (h name t v ht hv)

end Model

namespace Population

theorem nodup_rows_commit {m : Model} (p : Population) (h : m.rows.keys.Nodup) :
    (p.commit m).rows.keys.Nodup := by
  unfold commit
  refine List.foldlRecOn (motive := fun m : Model => m.rows.keys.Nodup) _ _ ?_
    fun m hm e _ => OrderedMap.nodup_keys_put hm
  exact List.foldlRecOn (motive := fun m : Model => m.rows.keys.Nodup) _ _ h fun m hm e _ => hm

end Population

namespace Conversion

theorem nodup_rows_document {c : Conversion} {m n : Model} {d : Document} {k : Nat}
    (h : c.document m d = .ok (n, k)) (hm : m.rows.keys.Nodup) : n.rows.keys.Nodup := by
  obtain ⟨s, table?, hs, ⟨-, rfl, -⟩ | ⟨table, p, -, -, rfl, -⟩⟩ := document_cases h
  · rwa [(setting_grows hs).rows]
  · exact nodup_rows_commit p (by rwa [(setting_grows hs).rows])

theorem regular_after (c : Conversion) (docs : List Document) : (c.after docs).Regular := by
  refine ⟨sound_after docs, ?_⟩
  induction docs using List.reverseRecOn with
  | nil => exact List.nodup_nil
  | append_singleton docs d ih =>
    rw [after_concat]
    cases h : c.document (c.after docs) d with
    | error e => exact ih
    | ok r => exact nodup_rows_document h ih

/-- Two models of documents in one: rows follow rows. Those of the first model can be read, exactly if
no link with a cell there is one to many in the second model; those of the second one, if they can be read
in the tables that both models have, in which columns stay what they were as long as both name them alike.
Identifiers are pairwise distinct, exactly if they are so in these tables. And the types of links agree
with their targets, exactly if those of fields that the second model alone has agree with the first one's
tables. -/
theorem joined_after (c c' : Conversion) (docs docs' : List Document) :
    let a := c.after docs
    let b := c'.after docs'
    (∀ name, (a.join b).rowsOf name = a.rowsOf name ++ b.rowsOf name) ∧
    (a.ReadableIn (a.join b) ↔ ∀ name t v, a.table? name = some t → b.table? name = some v →
      ∀ key ∈ t.fields.keys, t.loses v key = true →
        ∀ row ∈ a.rowsOf name, t.reading row key = none) ∧
    (b.ReadableIn (a.join b) ↔ ∀ name t v, a.table? name = some t → b.table? name = some v →
      ∀ row ∈ b.rowsOf name, ∀ key ∈ v.fields.keys,
        (t.join v).reading row key = v.reading row key) ∧
    (∀ name t v, a.table? name = some t → b.table? name = some v →
      (∀ key ∈ t.fields.keys, t.loses v key = false) →
      (∀ key ∈ v.fields.keys, key ∉ t.fields.keys → v.renamed.get? key = none) →
      ((∀ key ∈ v.fields.keys, (t.join v).columnName? key = v.columnName? key) ↔ t.NamesAlike v)) ∧
    (a.CountsFit → b.CountsFit → ((a.join b).TellsApart ↔
      ∀ name t v, a.table? name = some t → b.table? name = some v →
        t.Separate v (a.rowsOf name) (b.rowsOf name))) ∧
    ((a.join b).Typed ↔ ∀ name v key f r, b.table? name = some v → v.fields.get? key = some f →
      f.refers? = some r → (∀ t, a.table? name = some t → key ∉ t.fields.keys) →
      ∀ t, a.table? r.1 = some t → t.uidType = r.2) := by
  have ha := sound_after (c := c) docs
  have hb := regular_after c' docs'
  exact ⟨Model.rowsOf_join hb _, Model.readable_left_iff ha hb, Model.readable_right_iff ha hb,
    fun name t v ht hv => (ha.tables name t ht).columns_join_iff (hb.sound.tables name v hv),
    Model.tellsApart_join_iff hb (identified_after c docs) (identified_after c' docs'),
    Model.typed_join_iff ha hb (.of_fitting (fitting_after docs)) (.of_fitting (fitting_after docs'))⟩

/-- A schema in two versions, of which the second lets `c` repeat, or gives `e` an identifier. -/
def versionSchema (bound attributes : String) : String :=
  "<xs:schema xmlns:xs='http://www.w3.org/2001/XMLSchema'><xs:complexType name='C'>" ++
  "<xs:attribute name='id' type='xs:ID'/></xs:complexType><xs:element name='e'><xs:complexType>" ++
  "<xs:sequence><xs:element name='d' type='xs:string'/></xs:sequence>" ++ attributes ++
  "</xs:complexType></xs:element><xs:element name='r'><xs:complexType><xs:sequence>" ++
  "<xs:element name='p_q' type='xs:string' minOccurs='0'/><xs:element name='p' minOccurs='0'>" ++
  "<xs:complexType><xs:sequence><xs:element name='q' type='xs:string'/></xs:sequence>" ++
  "</xs:complexType></xs:element><xs:element name='c' type='C' minOccurs='0' maxOccurs='" ++ bound ++
  "'/><xs:element ref='e' minOccurs='0'/></xs:sequence></xs:complexType></xs:element></xs:schema>"

def firstVersion : Conversion := ofText (versionSchema "1" "")

def secondVersion : Conversion :=
  ofText (versionSchema "unbounded" "<xs:attribute name='id' type='xs:ID'/>")

def linkedDocuments : List Document :=
  documents ["<r><p_q>x</p_q><c id='k'/><e id='m'><d>z</d></e></r>"]

def loneDocuments : List Document := documents ["<e id='n'><d>w</d></e>"]

/-- What is said of the entries of two models is so of the tables that both have. -/
theorem both_of_entries {m n : Model} {P : String → Table → Table → Prop}
    (h : ∀ e ∈ m.tables.entries, ∀ e' ∈ n.tables.entries, e.1 = e'.1 → P e.1 e.2 e'.2) :
    ∀ name t v, m.table? name = some t → n.table? name = some v → P name t v :=
  fun name t v ht hv => h (name, t) (OrderedMap.mem_entries_of_get? ht) (name, v)
    (OrderedMap.mem_entries_of_get? hv) rfl

/-- A row that reads otherwise in the second model. -/
theorem not_readable {m l : Model} {name key : String} (h : ((m.table? name).bind fun t =>
    (l.table? name).map fun u => decide (key ∈ t.fields.keys ∧ ∃ row ∈ m.rowsOf name,
      u.reading row key ≠ t.reading row key)) = some true) : ¬ m.ReadableIn l := by
  obtain ⟨t, ht, h⟩ := Option.bind_eq_some_iff.1 h
  obtain ⟨u, hu, h⟩ := Option.map_eq_some_iff.1 h
  obtain ⟨hkey, row, hrow, hne⟩ := of_decide_eq_true h
  intro hreadable
  obtain ⟨u', hu', hrows⟩ := hreadable name t ht
  obtain rfl := Option.some.inj (hu.symm.trans hu')
  exact hne ((hrows row hrow).2 key hkey)

/-- Rows with identifiers of the documents, none of which is in both models. -/
theorem joined_of_distinct : ∃ a b, secondVersion.after linkedDocuments = a ∧
    secondVersion.after loneDocuments = b ∧ a.ReadableIn (a.join b) ∧ b.ReadableIn (a.join b) ∧
    (a.join b).TellsApart ∧ (a.join b).Typed ∧ ((a.join b).rowsOf "e").length = 2 := by
  obtain ⟨a, ha⟩ : ∃ a, secondVersion.after linkedDocuments = a := ⟨_, rfl⟩
  obtain ⟨b, hb⟩ : ∃ b, secondVersion.after loneDocuments = b := ⟨_, rfl⟩
  have heval : (fun a b : Model => decide (
      (∀ m ∈ [a, b], ∀ e ∈ m.tables.entries, (m.rowsOf e.1).length < Nat.pow 2 63) ∧
      (∀ e ∈ a.tables.entries, ∀ e' ∈ b.tables.entries, e.1 = e'.1 →
        (∀ key ∈ e.2.fields.keys, e.2.loses e'.2 key = false) ∧
        (∀ row ∈ b.rowsOf e.1, ∀ key ∈ e'.2.fields.keys,
          (e.2.join e'.2).reading row key = e'.2.reading row key) ∧
        e.2.uid = e'.2.uid ∧ e.2.hasNaturalId = true ∧ ¬ e.2.Shares (a.rowsOf e.1) (b.rowsOf e.1)) ∧
      (∀ e ∈ b.tables.entries, ∀ f ∈ e.2.fields.values, f.refers? = none) ∧
      (a.rowsOf "e").length + (b.rowsOf "e").length = 2))
      (secondVersion.after linkedDocuments) (secondVersion.after loneDocuments) = true := by
    decide +kernel
  have hjoined := joined_after secondVersion secondVersion linkedDocuments loneDocuments
  rw [ha, hb] at heval
  simp only [ha, hb] at hjoined
  obtain ⟨hcount, hboth, hrefers, hlength⟩ := of_decide_eq_true heval
  have hboth := both_of_entries (P := fun name t v => (∀ key ∈ t.fields.keys, t.loses v key = false) ∧
    (∀ row ∈ b.rowsOf name, ∀ key ∈ v.fields.keys, (t.join v).reading row key = v.reading row key) ∧
    t.uid = v.uid ∧ t.hasNaturalId = true ∧ ¬ t.Shares (a.rowsOf name) (b.rowsOf name)) hboth
  obtain ⟨hrows, hleft, hright, -, hapart, htyped⟩ := hjoined
  have hapart := hapart
    (fun name t ht _ => hcount a (by simp) _ (OrderedMap.mem_entries_of_get? ht))
    (fun name t ht _ => hcount b (by simp) _ (OrderedMap.mem_entries_of_get? ht))
  refine ⟨a, b, ha, hb, hleft.2 ?_, hright.2 ?_, hapart.2 ?_, htyped.2 ?_, ?_⟩
  · intro name t v ht hv key hkey hloses
    rw [(hboth name t v ht hv).1 key hkey] at hloses
    cases hloses
  · exact fun name t v ht hv => (hboth name t v ht hv).2.1
  · intro name t v ht hv
    obtain ⟨-, -, huid, hnatural, hshares⟩ := hboth name t v ht hv
    exact ⟨fun _ _ => hshares, fun _ h => by simp [hnatural] at h, fun h => absurd huid h⟩
  · intro name v key f r hv hf hr
    rw [hrefers _ (OrderedMap.mem_entries_of_get? hv) f
      (List.mem_map_of_mem (OrderedMap.mem_entries_of_get? hf))] at hr
    cases hr
  · rw [hrows, List.length_append]
    exact hlength

/-- Two versions of one schema, each with a model of its own: a link has become one to many, two keys have
one column, rows are numbered from one twice, and a link leads to a table that has other identifiers. -/
theorem joined_falls_short : ∃ a b,
    firstVersion.after (documents ["<r><p_q>x</p_q><c id='k'/></r>", "<e><d>z</d></e>"]) = a ∧
    secondVersion.after (documents ["<r><p><q>y</q></p><c id='l'/><e id='m'><d>w</d></e></r>"]) = b ∧
    ¬ a.ReadableIn (a.join b) ∧ ¬ b.ReadableIn (a.join b) ∧ ¬ (a.join b).TellsApart ∧
    ¬ (a.join b).Typed := by
  have heval : (fun a b : Model => decide (
      ((a.table? "r").bind fun t => ((a.join b).table? "r").map fun u =>
        decide ("c" ∈ t.fields.keys ∧ ∃ row ∈ a.rowsOf "r", u.reading row "c" ≠ t.reading row "c")) =
        some true ∧
      ((b.table? "r").bind fun t => ((a.join b).table? "r").map fun u =>
        decide ("p/q/text()" ∈ t.fields.keys ∧ ∃ row ∈ b.rowsOf "r",
          u.reading row "p/q/text()" ≠ t.reading row "p/q/text()")) = some true ∧
      ((a.join b).table? "r").map (fun u => (((a.join b).rowsOf "r").filterMap (·.get? u.uidName),
        (u.fields.get? "e").bind Field.refers?)) = some ([.int 1, .int 1], some ("e", .text)) ∧
      ((a.join b).table? "e").map Table.uidType = some .int))
      (firstVersion.after (documents ["<r><p_q>x</p_q><c id='k'/></r>", "<e><d>z</d></e>"]))
      (secondVersion.after (documents ["<r><p><q>y</q></p><c id='l'/><e id='m'><d>w</d></e></r>"])) =
      true := by
    decide +kernel
  refine ⟨_, _, rfl, rfl, ?_⟩
  revert heval
  generalize firstVersion.after _ = a, secondVersion.after _ = b
  intro heval
  obtain ⟨hleft, hright, hr, he⟩ := of_decide_eq_true heval
  obtain ⟨u, hu, h⟩ := Option.map_eq_some_iff.1 hr
  obtain ⟨hids, hrefers⟩ := Prod.mk.inj h
  refine ⟨not_readable hleft, not_readable hright, fun h => ?_, fun h => ?_⟩
  · have hnodup := h "r" u hu
    rw [hids] at hnodup
    exact absurd hnodup (by decide)
  · obtain ⟨w, hw, hint⟩ := Option.map_eq_some_iff.1 he
    obtain ⟨f, hf, hr⟩ := Option.bind_eq_some_iff.1 hrefers
    obtain ⟨w', hw', htext⟩ := h "r" u "e" f _ hu hf hr
    obtain rfl := Option.some.inj (hw.symm.trans hw')
    rw [hint] at htext
    cases htext

end Conversion

end FeatureTables
