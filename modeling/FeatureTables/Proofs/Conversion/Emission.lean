import FeatureTables.Proofs.Conversion.Identity
import FeatureTables.Proofs.Layout.Links
import FeatureTables.Proofs.Population.Emission
import FeatureTables.Proofs.Xml.Numbering

/-!
How often the elements of a document get their rows. Building says which elements have rows of their
own, and populating finds them again by the keys of links. It finds each one once, so that tables gain
as many rows as elements were placed in them, exactly if below each row that is made the rows next
below it are found under one key each (`emitsEach_iff`). For each of them the table has a field under
the path of the way to it, and the way is found again if this is a link (`found_under_path`), which the
field of the identifier is not. Keys that are equal but for the label of a namespace lead to more than
one row.
-/

namespace FeatureTables

open Population Xml

namespace Conversion

/-- Each element that was placed in a table, unless it is hidden, is visited once and in this table,
and tables that number their rows gain one row for each of them. -/
structure EmitsEach (m : Model) (r : Run) (root : Element) (n : Model) : Prop where
  once : EmitsOnce r.setting.layout r.visits root
  gained : ∀ name t, n.table? name = some t → t.hasNaturalId = false →
    (n.rowsOf name).length = (m.rowsOf name).length + (root.descendants.filter fun x =>
      r.setting.layout.get? x.id = some (.table name) && !hidden r.visits x).length

section Run

variable {c : Conversion} {m n : Model} {d : Document} {r : Run}

/-- The visits of a document follow its tree, or it says nothing and there are none. -/
theorem run_tree (hd : d.root.Distinct) (hb : Brings m r n) (hm : m.Sound) (h : c.run m d = .ok r) :
    (∃ v : Visit, r.visits = v.all ∧ v.element = d.root ∧ v.Tree r.setting) ∨ r.visits = [] ∧
      ∀ x ∈ d.root.descendants, ∀ name, r.setting.layout.get? x.id ≠ some (.table name) := by
  obtain ⟨typing, built, -, hbuilt, hs, hcases⟩ := run_cases h
  obtain ⟨hconnected, htable, hnothing⟩ := Layout.build_places hd hbuilt
  rcases hcases with ⟨hnone, hv⟩ | ⟨table, v, hsome, hv, hvisits⟩
  · refine Or.inr ⟨?_, ?_⟩
    · rw [Run.visits, hv]
      rfl
    · rw [hs]
      exact hnothing hnone
  · have hall : r.visits = v.all := by
      rw [Run.visits, hv]
      exact List.append_nil _
    have hnamed := (hb.grows.sound hm).named
    obtain ⟨p, hp⟩ := visitsOf_eq_ok_iff.1 hvisits
    obtain ⟨helement, htable', -, -⟩ := visit_faithful hnamed _ hp
    refine Or.inl ⟨v, hall, helement, ?_, ?_, ?_, ?_⟩
    · rw [← hall]
      exact hb.follows
    · unfold Visit.Placed
      rw [helement, htable', hs]
      exact htable table hsome
    · rw [helement]
      exact hd
    · rw [helement, hs]
      exact hconnected

/-- A table that numbers its rows gains one for each visit. -/
theorem Brings.length_rowsOf (h : Brings m r n) {name : String} {t : Table}
    (ht : n.table? name = some t) (hnatural : t.hasNaturalId = false) :
    (n.rowsOf name).length =
      (m.rowsOf name).length + (r.visits.filter (·.table = name)).length := by
  have hkey : name ∈ r.setting.model.tables.keys := h.keys ▸ OrderedMap.mem_keys_of_get? ht
  obtain ⟨u, hu⟩ := OrderedMap.mem_keys_iff.1 hkey
  obtain ⟨a, a', -, -, htraces, hn⟩ := h.tables name u hu
  rw [hn] at ht
  cases ht
  rw [h.rows, List.length_append, length_made (htraces.all_new hnatural)]

end Run

/-- The table of a visit has a field under the path of the way to each row next below. If it is a link
and the names on the way are plain, it leads to this row. -/
theorem found_under_path (c : Conversion) (docs : List Document) {limits : Limits} {bytes : Bytes}
    {d : Document} (hd : Document.parse limits bytes = .ok d) {n : Model} {k : Nat}
    (h : c.document (c.after docs) d = .ok (n, k)) :
    ∃ r, c.run (c.after docs) d = .ok r ∧ ∀ v ∈ r.visits, ∃ t,
      r.setting.model.table? v.table = some t ∧
      ∀ x ∈ Layout.linked r.setting.layout v.element, ∃ names f,
        Layout.Way r.setting.layout v.element names x ∧ t.fields.get? (Key.path names) = some f ∧
          (∀ l, f = .link l → Layout.PlainBelow v.element →
            Key.path names ∈ keysTo r.setting t v.element x) := by
  obtain ⟨r, hr, hb⟩ := brings (sound_after docs) h
  have hdistinct := (Document.numbered_parse hd).distinct
  refine ⟨r, hr, ?_⟩
  rcases run_tree hdistinct hb (sound_after docs) hr with ⟨v, hall, hroot, htree⟩ | ⟨hnil, -⟩
  · obtain ⟨typing, built, -, hbuilt, hs, -⟩ := run_cases hr
    have hkeyed := Layout.build_keyed hdistinct hbuilt
    rw [hall]
    intro w hw
    obtain ⟨hwtree, hmem⟩ := htree.of_mem hw
    have hplaced := hwtree.placed
    rw [hroot] at hmem
    unfold Visit.Placed at hplaced
    rw [hs] at hplaced ⊢
    obtain ⟨t, ht, hkeys⟩ := hkeyed w.element hmem w.table hplaced
    have htable : r.setting.model.table? w.table = some t := by
      rw [hs]
      exact ht
    have hsound := (hb.grows.sound (sound_after docs)).tables w.table t htable
    refine ⟨t, ht, fun x hx => ?_⟩
    obtain ⟨names, hway⟩ := Layout.exists_way hx
    obtain ⟨f, hf⟩ := hsound.exists_field (hkeys names x hway)
    refine ⟨names, f, hway, hf, ?_⟩
    rintro l rfl hplain
    exact mem_keysTo hf (hsound.keyed _ _ hf) (hsound.ne_uid_of_link hf)
      (Layout.mem_selectNodes_path hway hplain)
  · rw [hnil]
    intro v hv
    cases hv

/-- A document that is converted has each row emitted once exactly if each row that it made is one
from which keys are selective. -/
theorem emitsEach_iff (c : Conversion) (docs : List Document) {limits : Limits} {bytes : Bytes}
    {d : Document} (hd : Document.parse limits bytes = .ok d) {n : Model} {k : Nat}
    (h : c.document (c.after docs) d = .ok (n, k)) :
    ∃ r, c.run (c.after docs) d = .ok r ∧ (EmitsEach (c.after docs) r d.root n ↔
      ∀ v ∈ r.visits, v.row?.isSome = true → Selective r.setting v) := by
  obtain ⟨r, hr, hb⟩ := brings (sound_after docs) h
  refine ⟨r, hr, ?_⟩
  rcases run_tree (Document.numbered_parse hd).distinct hb (sound_after docs) hr with
    ⟨v, hall, hroot, htree⟩ | ⟨hnil, hnothing⟩
  · rw [hall, ← emitsOnce_iff htree]
    constructor
    · intro hemits
      rw [hroot, ← hall]
      exact hemits.once
    · intro honce
      refine ⟨hall ▸ hroot ▸ honce, fun name t ht hnatural => ?_⟩
      rw [hb.length_rowsOf ht hnatural, hall, length_visits_table htree honce, hroot]
  · constructor
    · intro _ v hv
      rw [hnil] at hv
      cases hv
    · intro _
      refine ⟨fun x hx name hname => absurd hname (hnothing x hx name), fun name t ht hnatural => ?_⟩
      have hnone : d.root.descendants.filter (fun x =>
          r.setting.layout.get? x.id = some (.table name) && !hidden r.visits x) = [] := by
        refine List.filter_eq_nil_iff.2 fun x hx => ?_
        simp [hnothing x hx name]
      rw [hb.length_rowsOf ht hnatural, hnone, hnil]
      rfl

/-- Two repeated elements are one key each. -/
theorem emitsEach_of_repeated : ∃ d n k r, Document.ofText "<a><b>x</b><b>y</b></a>" = .ok d ∧
    (ofText repeatedSchema).document {} d = .ok (n, k) ∧ (ofText repeatedSchema).run {} d = .ok r ∧
    EmitsEach {} r d.root n := by
  have heval : ((Document.ofText "<a><b>x</b><b>y</b></a>").toOption.bind fun d =>
      ((ofText repeatedSchema).document {} d).toOption.bind fun _ =>
        ((ofText repeatedSchema).run {} d).toOption.map fun r =>
          decide (∀ v ∈ r.visits, v.row?.isSome = true → Selective r.setting v)) = some true := by
    decide +kernel
  obtain ⟨d, hd, heval⟩ := Option.bind_eq_some_iff.1 heval
  obtain ⟨⟨n, k⟩, hn, heval⟩ := Option.bind_eq_some_iff.1 heval
  obtain ⟨r, hr, heval⟩ := Option.map_eq_some_iff.1 heval
  rw [toOption_eq_some_iff] at hd hn hr
  obtain ⟨r', hr', hiff⟩ := emitsEach_iff (ofText repeatedSchema) [] hd hn
  cases hr.symm.trans hr'
  exact ⟨d, n, k, r, hd, hn, hr, hiff.2 (of_decide_eq_true heval)⟩

/-- Two repeated elements of one name, the first of which is in a namespace. -/
def clashSchema : String :=
  "<xs:schema xmlns:xs='http://www.w3.org/2001/XMLSchema' xmlns:m='urn:meta' " ++
  "targetNamespace='urn:meta'><xs:element name='n' type='xs:string'/><xs:element name='a'>" ++
  "<xs:complexType><xs:sequence><xs:element ref='m:n' maxOccurs='unbounded'/>" ++
  "<xs:element name='n' type='xs:string' maxOccurs='unbounded'/></xs:sequence></xs:complexType>" ++
  "</xs:element></xs:schema>"

/-- The key of the second element leads to the first one as well, so that it is visited twice. -/
theorem clash_emitted_twice : ∃ d n k r,
    Document.ofText "<m:a xmlns:m='urn:meta'><m:n>x</m:n><n>y</n></m:a>" = .ok d ∧
    (ofText clashSchema).document {} d = .ok (n, k) ∧ (ofText clashSchema).run {} d = .ok r ∧
    (n.rowsOf "a_meta_n").length = 2 ∧ ¬ EmitsEach {} r d.root n := by
  have heval : ((Document.ofText "<m:a xmlns:m='urn:meta'><m:n>x</m:n><n>y</n></m:a>").toOption.bind
      fun d => ((ofText clashSchema).document {} d).toOption.bind fun n =>
        ((ofText clashSchema).run {} d).toOption.map fun r =>
          ((n.1.table? "a_meta_n").map (·.hasNaturalId), (n.1.rowsOf "a_meta_n").length,
            (d.root.descendants.filter fun x =>
              r.setting.layout.get? x.id = some (.table "a_meta_n") &&
                !hidden r.visits x).length)) = some (some false, 2, 1) := by
    decide +kernel
  obtain ⟨d, hd, heval⟩ := Option.bind_eq_some_iff.1 heval
  obtain ⟨⟨n, k⟩, hn, heval⟩ := Option.bind_eq_some_iff.1 heval
  obtain ⟨r, hr, heval⟩ := Option.map_eq_some_iff.1 heval
  rw [toOption_eq_some_iff] at hd hn hr
  simp only [Prod.mk.injEq] at heval
  obtain ⟨htable, hrows, hplaced⟩ := heval
  refine ⟨d, n, k, r, hd, hn, hr, hrows, fun h => ?_⟩
  obtain ⟨t, ht, hnatural⟩ := Option.map_eq_some_iff.1 htable
  have hgained := h.gained "a_meta_n" t ht hnatural
  rw [hrows, hplaced] at hgained
  revert hgained
  decide

end Conversion

end FeatureTables
