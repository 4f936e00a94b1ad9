import FeatureTables.Proofs.Conversion.Emission
import FeatureTables.Proofs.Conversion.Minting
import FeatureTables.Proofs.Conversion.References
import FeatureTables.Proofs.Layout.Identified
import FeatureTables.Proofs.Layout.Separation

/-!
A document that is converted twice. Elements with an identifier are placed alike both times, and the rows
above the place where the first conversion stopped are there the second time too, so that the second
conversion finds the rows of all that the first one came to. It adds a row to a table with identifiers only
for what the first one left out because its key was taken, or for what is placed there without an identifier
(`sameIdentified_iff`). The only key that is taken is the one of the number of a row, which a child called
`id` has (`leftOut_child`).
-/

namespace FeatureTables

open Population Xml Element

/-- The tables with identifiers of the document have the same rows in both models. -/
def Model.SameIdentified (m n : Model) : Prop :=
  ∀ name t, n.table? name = some t → t.hasNaturalId = true → n.rowsOf name = m.rowsOf name

theorem Table.Becomes.hasNaturalId {t u : Table} (h : t.Becomes u) : u.hasNaturalId = t.hasNaturalId := by
  unfold Table.hasNaturalId
  rw [h.uid]

namespace Population

open Layout

/-- The element is inside of a row that was not visited from the row next above it, which was made. -/
def LeftOut (l : Layout) (vs : List Visit) (x : Element) : Prop :=
  ∃ u ∈ vs, u.row?.isSome = true ∧
    ∃ y ∈ linked l u.element, x ∈ y.descendants ∧ ∀ w ∈ u.visits, w.element ≠ y

/-- An element with a row is visited, unless one above it was left out or had its row. -/
theorem Visit.Tree.visit_or {s : Setting} {v : Visit} (h : v.Tree s) {x : Element}
    (hx : x ∈ v.element.descendants) {name : String} (hname : s.layout.get? x.id = some (.table name)) :
    (∃ u ∈ v.all, u.element = x) ∨ LeftOut s.layout v.all x ∨
      ∃ w ∈ v.all, w.row? = none ∧ x ∈ w.element.inner := by
  induction v using Visit.induct_tree with
  | h v ih =>
    rcases mem_descendants_iff.1 hx with rfl | hinner
    · exact Or.inl ⟨v, v.mem_all_self, rfl⟩
    cases hrow : v.row? with
    | none => exact Or.inr (Or.inr ⟨v, v.mem_all_self, hrow, hinner⟩)
    | some row =>
      obtain ⟨y, hy, hxy⟩ := h.connected.linked_cases hinner hname
      by_cases hvisit : ∃ w ∈ v.visits, w.element = y
      · obtain ⟨w, hw, rfl⟩ := hvisit
        have hsub : ∀ u ∈ w.all, u ∈ v.all := fun u hu => mem_all_of_visits hw hu
        rcases ih w hw (h.below hw) hxy with ⟨u, hu, hux⟩ | ⟨u, hu, hleft⟩ | ⟨u, hu, hknown⟩
        · exact Or.inl ⟨u, hsub u hu, hux⟩
        · exact Or.inr (Or.inl ⟨u, hsub u hu, hleft⟩)
        · exact Or.inr (Or.inr ⟨u, hsub u hu, hknown⟩)
      · exact Or.inr (Or.inl ⟨v, v.mem_all_self, by rw [hrow]; rfl, y, hy, hxy,
          fun w hw heq => hvisit ⟨w, hw, heq⟩⟩)

end Population

namespace Conversion

open Layout

/-! ### Tables with identifiers -/

/-- The rows of the table have identifiers of the document. -/
def Run.IsIdentified (r : Run) (name : String) : Prop :=
  (r.setting.model.table? name).any Table.hasNaturalId = true

instance (r : Run) (name : String) : Decidable (r.IsIdentified name) :=
  inferInstanceAs (Decidable ((r.setting.model.table? name).any Table.hasNaturalId = true))

/-- Each element that is placed in a table with identifiers has one. -/
def Run.GivesIds (r : Run) (root : Element) : Prop :=
  ∀ x ∈ root.descendants, ∀ name, r.setting.layout.get? x.id = some (.table name) →
    r.IsIdentified name → (x.attribute? "id").isSome = true

instance (r : Run) (root : Element) : Decidable (r.GivesIds root) :=
  decidable_of_iff (∀ x ∈ root.descendants, (match r.setting.layout.get? x.id with
      | some (.table name) => !decide (r.IsIdentified name) || (x.attribute? "id").isSome
      | _ => true) = true) <| by
    refine forall_congr' fun x => forall_congr' fun _ => ?_
    cases r.setting.layout.get? x.id with
    | none => simp
    | some p => cases p <;> simp [or_iff_not_imp_left]

theorem Run.isIdentified_iff {r : Run} {name : String} : r.IsIdentified name ↔
    ∃ t, r.setting.model.table? name = some t ∧ t.hasNaturalId = true := by
  rw [IsIdentified, Option.any_eq_true]

section Brings

variable {m n : Model} {r r' : Run}

/-- What the document gives for an identifier is taken as it is. -/
theorem Brings.id_eq (h : Brings m r n) {v : Visit} (hv : v ∈ r.visits) (hnatural : r.IsIdentified v.table)
    {id : String} (hid : v.element.attribute? "id" = some id) : v.id = .text id := by
  obtain ⟨t, ht, hnatural⟩ := Run.isIdentified_iff.1 hnatural
  obtain ⟨a, a', -, -, htraces, -⟩ := h.tables _ t ht
  exact htraces.given hnatural v (List.mem_filter.2 ⟨hv, by simp⟩) id hid

/-- A row that was there has identified the element of a visit that made none. -/
theorem Brings.isIdentified_of_known (h : Brings m r n) {v : Visit} (hv : v ∈ r.visits)
    (hrow : v.row? = none) : r.IsIdentified v.table := by
  obtain ⟨t, ht⟩ := (h.follows v hv).table
  refine Run.isIdentified_iff.2 ⟨t, ht, ?_⟩
  obtain ⟨a, a', -, -, htraces, -⟩ := h.tables _ t ht
  by_contra hnatural
  have hmade := htraces.all_new (by simpa using hnatural) v (List.mem_filter.2 ⟨hv, by simp⟩)
  rw [hrow] at hmade
  cases hmade

/-- A row that is made in a table with identifiers has a new one. -/
theorem Brings.not_hasId_of_made (h : Brings m r n) (hm : m.Sound) {v : Visit} (hv : v ∈ r.visits)
    (hnatural : r.IsIdentified v.table) (hmade : v.row?.isSome = true) : ¬ m.HasId v.table v.id := by
  obtain ⟨t, ht, hnatural⟩ := Run.isIdentified_iff.1 hnatural
  obtain ⟨a, a', -, hknown, htraces, -⟩ := h.tables _ t ht
  obtain ⟨ids, -, hfresh, hnew, -⟩ := htraces.texts hnatural
  have hmem : v.id ∈ ids.map Value.text := by
    rw [← hnew]
    exact List.mem_map_of_mem (List.mem_filter.2 ⟨List.mem_filter.2 ⟨hv, by simp⟩, hmade⟩)
  obtain ⟨id, hid, hvid⟩ := List.mem_map.1 hmem
  rintro ⟨u, hu, row, hrow, hget⟩
  obtain ⟨u', hu', hgrows⟩ := h.grows.kept _ u hu
  obtain rfl := Option.some.inj (ht.symm.trans hu')
  refine hfresh id hid ?_
  rw [hknown hnatural]
  refine List.mem_filterMap.2 ⟨row, ?_, ?_⟩
  · rwa [(h.grows.sound hm).named _ t ht]
  · rw [hgrows.uidName, hget, ← hvid]
    rfl

/-- The tables with identifiers keep their rows if each identifier that is met there is known. -/
theorem Brings.sameIdentified_iff (h : Brings m r n) (hm : m.Sound) (hids : m.Identified) :
    m.SameIdentified n ↔ ∀ v ∈ r.visits, r.IsIdentified v.table → m.HasId v.table v.id := by
  constructor
  · intro hsame v hv hnatural
    obtain ⟨t, ht, hnatural⟩ := Run.isIdentified_iff.1 hnatural
    obtain ⟨u, hu, hbecomes⟩ := h.becomes ht
    have hrows := hsame _ u hu (hbecomes.hasNaturalId.trans hnatural)
    obtain ⟨u', hu', row, hrow, hget⟩ := h.hasId hm hids hv
    obtain rfl := Option.some.inj (hu.symm.trans hu')
    rw [hrows] at hrow
    cases ht₀ : m.table? v.table with
    | none =>
      rw [hids.rows _ ht₀] at hrow
      cases hrow
    | some t₀ =>
      obtain ⟨t', ht', hgrows⟩ := h.grows.kept _ t₀ ht₀
      obtain rfl := Option.some.inj (ht.symm.trans ht')
      exact ⟨t₀, ht₀, row, hrow, by rw [← hgrows.uidName, ← hbecomes.uidName, hget]⟩
  · intro hknown name u hu hnatural
    obtain ⟨t, k, ht, rfl⟩ := h.table_cases hu
    have hmade : made name r.visits = [] := by
      refine List.filterMap_eq_nil_iff.2 fun v hv => ?_
      split
      · rename_i hname
        have hidentified : r.IsIdentified v.table := Run.isIdentified_iff.2 ⟨t, hname ▸ ht, hnatural⟩
        by_contra hrow
        exact h.not_hasId_of_made hm hv hidentified (Option.isSome_iff_ne_none.2 hrow)
          (hknown v hv hidentified)
      · rfl
    rw [h.rows, hmade, List.append_nil]

/-- Tables have identifiers of the document or have none from the first time on. -/
theorem Brings.isIdentified_iff (h : Brings m r n) (h' : n.Grows r'.setting.model) {name : String}
    {t : Table} (ht : r.setting.model.table? name = some t) :
    r'.IsIdentified name ↔ r.IsIdentified name := by
  obtain ⟨u, hu, hbecomes⟩ := h.becomes ht
  obtain ⟨w, hw, hgrows⟩ := h'.kept name u hu
  rw [Run.IsIdentified, Run.IsIdentified, ht, hw, Option.any_some, Option.any_some, hgrows.hasNaturalId,
    hbecomes.hasNaturalId]

end Brings

/-! ### Two conversions -/

section Again

variable {c : Conversion} {m n n' : Model} {d : Document} {r r' : Run}

/-- An element with an identifier is placed alike in both runs. -/
theorem run_alike (hd : d.root.Distinct) (hr : c.run m d = .ok r) (hr' : c.run n d = .ok r') {x : Element}
    (hx : x ∈ d.root.descendants) (hid : (x.attribute? "id").isSome = true) :
    r'.setting.layout.get? x.id = r.setting.layout.get? x.id := by
  obtain ⟨typing, built, htyping, hbuilt, hs, -⟩ := run_cases hr
  obtain ⟨typing', built', htyping', hbuilt', hs', -⟩ := run_cases hr'
  obtain rfl : typing = typing' := Except.ok.inj (htyping.symm.trans htyping')
  rw [hs, hs']
  exact identified_alike hd (s := ⟨typing, c.options⟩) htyping hbuilt hbuilt' hx hid

/-- The visits of a run are of elements of the document, and follow their tables. -/
theorem visit_tree (hd : d.root.Distinct) (hb : Brings m r n) (hm : m.Sound) (hr : c.run m d = .ok r)
    {v : Visit} (hv : v ∈ r.visits) : v.Tree r.setting ∧ v.element ∈ d.root.descendants := by
  rcases run_tree hd hb hm hr with ⟨u, hall, hroot, htree⟩ | ⟨hnil, -⟩
  · exact hroot ▸ htree.of_mem (hall ▸ hv)
  · rw [hnil] at hv
    cases hv

/-- An element with an identifier that has a visit in both runs is known to the second one. -/
theorem hasId_of_visited (hd : d.root.Distinct) (hm : m.Sound) (hids : m.Identified)
    (hr : c.run m d = .ok r) (hb : Brings m r n) (hr' : c.run n d = .ok r') (hb' : Brings n r' n')
    {u v : Visit} (hu : u ∈ r.visits) (hv : v ∈ r'.visits) (huv : u.element = v.element)
    (hnatural : r'.IsIdentified v.table) (hid : (v.element.attribute? "id").isSome = true) :
    n.HasId v.table v.id := by
  obtain ⟨hvtree, hmem⟩ := visit_tree hd hb' (hb.sound hm) hr' hv
  have hplaced : r.setting.layout.get? v.element.id = some (.table v.table) :=
    (run_alike hd hr hr' hmem hid).symm.trans hvtree.placed
  have htable : u.table = v.table := (visit_tree hd hb hm hr hu).1.table_eq (huv ▸ hplaced)
  obtain ⟨t, ht⟩ := (hb.follows u hu).table
  have hnatural₁ : r.IsIdentified u.table := (hb.isIdentified_iff hb'.grows ht).1 (htable ▸ hnatural)
  obtain ⟨id, hid⟩ := Option.isSome_iff_exists.1 hid
  have hknown := hb.hasId hm hids hu
  rwa [htable, hb.id_eq hu hnatural₁ (huv ▸ hid), ← hb'.id_eq hv hnatural hid] at hknown

/-- The second run does not go below an element whose row was there in the first one. -/
theorem not_inner_of_known (hd : d.root.Distinct) (hm : m.Sound) (hids : m.Identified)
    (hr : c.run m d = .ok r) (hb : Brings m r n) (hr' : c.run n d = .ok r') (hb' : Brings n r' n')
    (hgives : r.GivesIds d.root) {v w : Visit} (hv : v ∈ r'.visits) (hw : w ∈ r.visits)
    (hrow : w.row? = none) : v.element ∉ w.element.inner := by
  intro hvw
  obtain ⟨hwtree, hmem⟩ := visit_tree hd hb hm hr hw
  have hnatural := hb.isIdentified_of_known hw hrow
  have hid := hgives w.element hmem w.table hwtree.placed hnatural
  have hplaced : r'.setting.layout.get? w.element.id = some (.table w.table) :=
    (run_alike hd hr hr' hmem hid).trans hwtree.placed
  rcases run_tree hd hb' (hb.sound hm) hr' with ⟨root, hall, hroot, htree⟩ | ⟨hnil, -⟩
  · -- it would have made a row for this element
    obtain ⟨w', hw', hmade, hww'⟩ := exists_made_above htree (hall ▸ hv) (hroot ▸ hmem) hplaced hvw
    rw [← hall] at hw'
    have hknown := hasId_of_visited hd hm hids hr hb hr' hb' hw hw' hww'.symm
    have htable : w'.table = w.table :=
      (visit_tree hd hb' (hb.sound hm) hr' hw').1.table_eq (hww' ▸ hplaced)
    obtain ⟨t, ht⟩ := (hb.follows w hw).table
    have hnatural' : r'.IsIdentified w'.table := htable ▸ (hb.isIdentified_iff hb'.grows ht).2 hnatural
    exact hb'.not_hasId_of_made (hb.sound hm) hw' hnatural' hmade (hknown hnatural' (hww' ▸ hid))
  · rw [hnil] at hv
    cases hv

/-- What the second run finds to be a row of its own in a table with identifiers, the first one has left
out, or has brought a row with this identifier. -/
theorem hasId_again (hd : d.root.Distinct) (hm : m.Sound) (hids : m.Identified) (hr : c.run m d = .ok r)
    (hb : Brings m r n) (hr' : c.run n d = .ok r') (hb' : Brings n r' n') (hgives : r.GivesIds d.root)
    {v : Visit} (hv : v ∈ r'.visits) (hnatural : r'.IsIdentified v.table)
    (hid : (v.element.attribute? "id").isSome = true) :
    n.HasId v.table v.id ∨ LeftOut r.setting.layout r.visits v.element := by
  obtain ⟨hvtree, hmem⟩ := visit_tree hd hb' (hb.sound hm) hr' hv
  have hplaced : r.setting.layout.get? v.element.id = some (.table v.table) :=
    (run_alike hd hr hr' hmem hid).symm.trans hvtree.placed
  rcases run_tree hd hb hm hr with ⟨root, hall, hroot, htree⟩ | ⟨-, hnothing⟩
  · rw [← hroot] at hmem
    rcases hall ▸ htree.visit_or hmem hplaced with ⟨u, hu, huv⟩ | hleft | ⟨w, hw, hrow, hvw⟩
    · exact Or.inl (hasId_of_visited hd hm hids hr hb hr' hb' hu hv huv hnatural hid)
    · exact Or.inr hleft
    · exact absurd hvw (not_inner_of_known hd hm hids hr hb hr' hb' hgives hv hw hrow)
  · exact absurd hplaced (hnothing v.element hmem v.table)

end Again

/-! ### What is left out -/

section LeftOut

/-- A step without a label is the name of the child. -/
theorem localName_of_keyStep {parent child : Element} (h : keyStep parent child = Key.syntheticUid) :
    child.localName = "id" := by
  rcases keyStep_cases parent child with hstep | ⟨label, -, hstep⟩
  · exact hstep.symm.trans h
  · have hmem : ':' ∈ (keyStep parent child).toList := by
      rw [hstep]
      simp
    rw [h] at hmem
    exact absurd hmem (by decide)

variable {c : Conversion} {m n : Model} {d : Document} {r : Run}

theorem run_offWays (hm : AllFields Field.OffWays m) (hr : c.run m d = .ok r) :
    AllFields Field.OffWays r.setting.model := by
  obtain ⟨typing, built, -, hbuilt, hsetting, -⟩ := run_cases hr
  have hoff : AllFields Field.OffWays built.model := build_offWays (m := m.withoutRows) hm hbuilt
  rw [hsetting]
  exact hoff

theorem Brings.offWays (h : Brings m r n) (hs : AllFields Field.OffWays r.setting.model) :
    AllFields Field.OffWays n := by
  intro name u hu
  obtain ⟨t, k, ht, rfl⟩ := h.table_cases hu
  exact hs name t ht

theorem offWays_after (docs : List Document) : AllFields Field.OffWays (c.after docs) :=
  after_induct docs (fun _ _ ht => by cases ht) fun _ _ _ _ _ _ hr hbrings hm =>
    hbrings.offWays (run_offWays hm hr)

/-- What is left out is inside of a child that is called like the number of the row. -/
theorem leftOut_child (hd : d.root.Distinct) (hm : m.Sound) (hoff : AllFields Field.OffWays m)
    (hr : c.run m d = .ok r) (hb : Brings m r n) (hplain : PlainBelow d.root) {x : Element}
    (hx : LeftOut r.setting.layout r.visits x) : ∃ u ∈ r.visits, ¬ r.IsIdentified u.table ∧
      ∃ y ∈ u.element.children, y.localName = "id" ∧ x ∈ y.descendants ∧
        ∃ name, r.setting.layout.get? y.id = some (.table name) := by
  obtain ⟨u, hu, hmade, y, hy, hxy, hnone⟩ := hx
  obtain ⟨htree, hmem⟩ := visit_tree hd hb hm hr hu
  obtain ⟨typing, built, -, hbuilt, hs, -⟩ := run_cases hr
  have hplaced := htree.placed
  unfold Visit.Placed at hplaced
  rw [hs] at hplaced
  obtain ⟨t, ht, hkeys⟩ := build_keyed hd hbuilt u.element hmem u.table hplaced
  have ht : r.setting.model.table? u.table = some t := by
    rw [hs]
    exact ht
  have hsound := (hb.grows.sound hm).tables _ t ht
  obtain ⟨names, hway⟩ := exists_way hy
  obtain ⟨f, hf⟩ := hsound.exists_field (hkeys names y (by rw [hs] at hway; exact hway))
  have hbelow : PlainBelow u.element := fun z hz => hplain z (mem_inner_of_inner hz hmem)
  rcases key_of_way hway hbelow hsound (run_offWays hoff hr _ t ht) hf with
    hlink | ⟨hnumbered, hchild, hstep⟩
  · -- a link would have led to the row
    exfalso
    cases f with
    | link l =>
      have hkey := mem_keysTo hf (hsound.keyed _ _ hf) (hsound.ne_uid_of_link hf)
        (mem_selectNodes_path hway hbelow)
      have hcount := htree.self.count_visits hmade ht htree.distinct y
      obtain ⟨w, hw, hid⟩ := List.countP_pos_iff.1 (hcount ▸ List.length_pos_of_mem hkey)
      have hymem := mem_descendants_iff.2 (Or.inr (linked_inner hy))
      exact hnone w hw (htree.distinct.eq_of_id (htree.mem_descendants hw) hymem (of_decide_eq_true hid))
    | _ => cases hlink
  · refine ⟨u, hu, fun hnatural => ?_, y, hchild, localName_of_keyStep hstep, hxy, table_of_linked hy⟩
    obtain ⟨t', ht', hnatural⟩ := Run.isIdentified_iff.1 hnatural
    obtain rfl := Option.some.inj (ht.symm.trans ht')
    rw [hnumbered] at hnatural
    cases hnatural

end LeftOut

/-- When a document is converted a second time right after the first one, and each element that was placed
in a table with identifiers has one, these tables keep their rows exactly if the identifiers of all elements
that come into them now, and that were left out or have none of their own, are there. If elements have
identifiers in the second conversion as well, names are plain, and no element called `id` has a row, they
keep their rows. -/
theorem sameIdentified_again (c : Conversion) (docs : List Document) {limits : Limits} {bytes : Bytes}
    {d : Document} (hd : Document.parse limits bytes = .ok d) {n n' : Model} {k k' : Nat}
    (h : c.document (c.after docs) d = .ok (n, k)) (h' : c.document n d = .ok (n', k')) :
    ∃ r r', c.run (c.after docs) d = .ok r ∧ c.run n d = .ok r' ∧ (r.GivesIds d.root →
      (n.SameIdentified n' ↔ ∀ v ∈ r'.visits, r'.IsIdentified v.table →
        v.element.attribute? "id" = none ∨ LeftOut r.setting.layout r.visits v.element →
          n.HasId v.table v.id) ∧
      (r'.GivesIds d.root → PlainBelow d.root →
        (∀ y ∈ d.root.inner, y.localName = "id" →
          ∀ name, r.setting.layout.get? y.id ≠ some (.table name)) → n.SameIdentified n')) := by
  have hm := sound_after (c := c) docs
  have hids := identified_after c docs
  have hdistinct := (Document.numbered_parse hd).distinct
  obtain ⟨r, hr, hb⟩ := brings hm h
  obtain ⟨r', hr', hb'⟩ := brings (hb.sound hm) h'
  refine ⟨r, r', hr, hr', fun hgives => ?_⟩
  rw [hb'.sameIdentified_iff (hb.sound hm) (hb.identified hm hids)]
  refine ⟨⟨fun hknown v hv hnatural _ => hknown v hv hnatural, fun hknown v hv hnatural => ?_⟩,
    fun hgives' hplain hnone v hv hnatural => ?_⟩
  · cases hid : v.element.attribute? "id" with
    | none => exact hknown v hv hnatural (Or.inl hid)
    | some id =>
      have hid : (v.element.attribute? "id").isSome = true := by rw [hid]; rfl
      exact (hasId_again hdistinct hm hids hr hb hr' hb' hgives hv hnatural hid).elim (fun hhas => hhas)
        fun hleft => hknown v hv hnatural (Or.inr hleft)
  · obtain ⟨hvtree, hmem⟩ := visit_tree hdistinct hb' (hb.sound hm) hr' hv
    have hid := hgives' v.element hmem v.table hvtree.placed hnatural
    refine (hasId_again hdistinct hm hids hr hb hr' hb' hgives hv hnatural hid).resolve_right fun hleft => ?_
    obtain ⟨u, hu, -, y, hy, hname, -, table, htable⟩ :=
      leftOut_child hdistinct hm (offWays_after docs) hr hb hplain hleft
    have hyinner := mem_inner_of_inner (mem_inner_of_mem_children hy) (visit_tree hdistinct hb hm hr hu).2
    exact hnone y hyinner hname table htable

/-- The second conversion of a document with one repeated element that has an identifier. -/
theorem repeated_again : ∃ d n n' k k', Document.ofText "<a><b xml:id='k'>x</b></a>" = .ok d ∧
    (ofText repeatedSchema).document {} d = .ok (n, k) ∧
    (ofText repeatedSchema).document n d = .ok (n', k') ∧
    n.rowsOf "b" = [⟨[("@id", .text "k"), ("v", .text "x"), ("a_id", .int 1)]⟩] ∧
    n.SameIdentified n' := by
  have heval : ((Document.ofText "<a><b xml:id='k'>x</b></a>").toOption.bind fun d =>
      ((ofText repeatedSchema).document {} d).toOption.bind fun n =>
        ((ofText repeatedSchema).document n.1 d).toOption.bind fun _ =>
          ((ofText repeatedSchema).run {} d).toOption.bind fun r =>
            ((ofText repeatedSchema).run n.1 d).toOption.map fun r' =>
              (n.1.rowsOf "b", decide (r.GivesIds d.root ∧ r'.GivesIds d.root ∧
                (∀ y ∈ d.root.inner, PlainName y.localName) ∧
                ∀ y ∈ d.root.inner, y.localName ≠ "id"))) =
      some ([⟨[("@id", .text "k"), ("v", .text "x"), ("a_id", .int 1)]⟩], true) := by
    decide +kernel
  obtain ⟨d, hd, heval⟩ := Option.bind_eq_some_iff.1 heval
  obtain ⟨⟨n, k⟩, hn, heval⟩ := Option.bind_eq_some_iff.1 heval
  obtain ⟨⟨n', k'⟩, hn', heval⟩ := Option.bind_eq_some_iff.1 heval
  obtain ⟨r, hr, heval⟩ := Option.bind_eq_some_iff.1 heval
  obtain ⟨r', hr', heval⟩ := Option.map_eq_some_iff.1 heval
  rw [toOption_eq_some_iff] at hd hn hn' hr hr'
  obtain ⟨hrows, heval⟩ := Prod.mk.inj heval
  obtain ⟨hgives, hgives', hplain, hnone⟩ := of_decide_eq_true heval
  obtain ⟨r₁, r₁', hr₁, hr₁', hagain⟩ := sameIdentified_again (ofText repeatedSchema) [] hd hn hn'
  obtain rfl := Except.ok.inj (hr.symm.trans hr₁)
  obtain rfl := Except.ok.inj (hr'.symm.trans hr₁')
  exact ⟨d, n, n', k, k', hd, hn, hn', hrows,
    (hagain hgives).2 hgives' hplain fun y hy hid => absurd hid (hnone y hy)⟩

/-- Parts that may have any attributes, each with an element `id` of a namespace, and maybe with one of
none. -/
def omittedSchema : String :=
  "<xs:schema xmlns:xs='http://www.w3.org/2001/XMLSchema' xmlns:m='urn:meta' " ++
  "targetNamespace='urn:meta'><xs:complexType name='I'><xs:sequence>" ++
  "<xs:element name='d' type='xs:string'/></xs:sequence><xs:attribute name='id' type='xs:ID'/>" ++
  "</xs:complexType><xs:element name='id' type='m:I'/><xs:element name='r'><xs:complexType><xs:sequence>" ++
  "<xs:element name='s' maxOccurs='unbounded'><xs:complexType><xs:sequence><xs:element name='p'>" ++
  "<xs:complexType><xs:sequence><xs:element ref='m:id'/>" ++
  "<xs:element name='id' type='xs:string' minOccurs='0'/></xs:sequence>" ++
  "<xs:anyAttribute processContents='skip'/></xs:complexType></xs:element></xs:sequence></xs:complexType>" ++
  "</xs:element></xs:sequence></xs:complexType></xs:element></xs:schema>"

def omittedText : String :=
  "<m:r xmlns:m='urn:meta'><s><p><m:id id='k'><d>x</d></m:id><id>1</id></p></s>" ++
  "<s><p a='1' b='2'><m:id id='l'><d>y</d></m:id></p></s></m:r>"

/-- The second element has the key of the number of its row, and is left out. In the second conversion the
first part has a row as well, whose key leads to the second element too. -/
theorem omitted_row_added : ∃ d n n' k k' r r', Document.ofText omittedText = .ok d ∧
    (ofText omittedSchema { mergeMaxColumns? := some 2 }).document {} d = .ok (n, k) ∧
    (ofText omittedSchema { mergeMaxColumns? := some 2 }).document n d = .ok (n', k') ∧
    (ofText omittedSchema { mergeMaxColumns? := some 2 }).run {} d = .ok r ∧
    (ofText omittedSchema { mergeMaxColumns? := some 2 }).run n d = .ok r' ∧
    r.GivesIds d.root ∧ r'.GivesIds d.root ∧
    n.rowsOf "id" = [] ∧ n'.rowsOf "id" = [⟨[("@id", .text "l"), ("d", .text "y")]⟩] ∧
    ¬ n.SameIdentified n' := by
  generalize hc : ofText omittedSchema { mergeMaxColumns? := some 2 } = c
  have heval : ((Document.ofText omittedText).toOption.bind fun d => (c.document {} d).toOption.bind fun n =>
      (c.document n.1 d).toOption.bind fun n' => (c.run {} d).toOption.bind fun r =>
        (c.run n.1 d).toOption.map fun r' => (n.1.rowsOf "id", n'.1.rowsOf "id",
          (n'.1.table? "id").map Table.hasNaturalId, decide (r.GivesIds d.root ∧ r'.GivesIds d.root))) =
      some ([], [⟨[("@id", .text "l"), ("d", .text "y")]⟩], some true, true) := by
    rw [← hc]
    decide +kernel
  obtain ⟨d, hd, heval⟩ := Option.bind_eq_some_iff.1 heval
  obtain ⟨⟨n, k⟩, hn, heval⟩ := Option.bind_eq_some_iff.1 heval
  obtain ⟨⟨n', k'⟩, hn', heval⟩ := Option.bind_eq_some_iff.1 heval
  obtain ⟨r, hr, heval⟩ := Option.bind_eq_some_iff.1 heval
  obtain ⟨r', hr', heval⟩ := Option.map_eq_some_iff.1 heval
  rw [toOption_eq_some_iff] at hd hn hn' hr hr'
  simp only [Prod.mk.injEq] at heval
  obtain ⟨hrows, hrows', htable, hgives⟩ := heval
  obtain ⟨hgives, hgives'⟩ := of_decide_eq_true hgives
  refine ⟨d, n, n', k, k', r, r', hd, hn, hn', hr, hr', hgives, hgives', hrows, hrows', fun hsame => ?_⟩
  obtain ⟨t, ht, hnatural⟩ := Option.map_eq_some_iff.1 htable
  have hkept := hsame "id" t ht hnatural
  rw [hrows, hrows'] at hkept
  cases hkept

end Conversion
end FeatureTables
