import FeatureTables.Proofs.Conversion.Identity

/-!
Identifiers that tables make. Where the document gives an element no identifier, its table makes one
of its name and its next number. All elements that come into one table, of whichever document, enter
one account (`traced_after`), so the identifiers that were made are those of the numbers from one on
(`Traces.made_iff`). None of them is checked against those that documents give: an element is taken
for another one exactly if an identifier that was made is also given.
-/

namespace FeatureTables

namespace Population

/-- The identifier that a table makes of a number. -/
def mintedId (table : String) (n : Int) : String := table ++ "_" ++ toString n

/-- The document gives the element no identifier. -/
def Visit.isUnnamed (v : Visit) : Bool := (v.element.attribute? "id").isNone

/-- The document gives both elements the same identifier. -/
def Visit.SharesId (v w : Visit) : Prop :=
  ∃ id, v.element.attribute? "id" = some id ∧ w.element.attribute? "id" = some id

/-- Visits have one identifier only where documents give it to both elements, and elements without
an identifier of the document have rows of their own. -/
structure ToldApart (vs : List Visit) : Prop where
  apart : vs.Pairwise fun v w => v.id = w.id → v.SharesId w
  own : ∀ v ∈ vs, v.element.attribute? "id" = none → v.row?.isSome = true

theorem Visit.SharesId.symm {v w : Visit} (h : v.SharesId w) : w.SharesId v := by
  obtain ⟨id, hv, hw⟩ := h
  exact ⟨id, hw, hv⟩

theorem ToldApart.sharesId {vs : List Visit} (h : ToldApart vs) {v w : Visit} (hv : v ∈ vs)
    (hw : w ∈ vs) (hne : v ≠ w) (hid : v.id = w.id) : v.SharesId w := by
  have : Std.Symm fun v w : Visit => v.id = w.id → v.SharesId w :=
    ⟨fun _ _ hvw heq => (hvw heq.symm).symm⟩
  exact h.apart.forall hv hw hne hid

theorem mintedId_injective (table : String) : Function.Injective fun n : Nat => mintedId table n := by
  intro i j h
  have hlist := congrArg String.toList h
  simp only [mintedId, String.toList_append] at hlist
  exact Table.toString_injective (String.toList_inj.1 (List.append_cancel_left hlist))

/-! ### Accounts of natural identifiers -/

section Traces

variable {t u : Table} {a a' b : Account} {vs : List Visit}

/-- What an element does to the account of a table with identifiers of the document. -/
theorem Enters.natural {e : Xml.Element} {id : Value} {isNew : Bool} (h : Enters t e a id isNew a')
    (ht : t.hasNaturalId = true) : ∃ s, id = .text s ∧ Names t e a.last s a'.last ∧
      (isNew = true ∧ s ∉ a.known ∧ a'.known = s :: a.known ∨
        isNew = false ∧ s ∈ a.known ∧ a'.known = a.known) := by
  cases h with
  | number hsynthetic => simp [ht] at hsynthetic
  | new _ hnames hfresh => exact ⟨_, rfl, hnames, Or.inl ⟨rfl, hfresh, rfl⟩⟩
  | known _ hnames hknown => exact ⟨_, rfl, hnames, Or.inr ⟨rfl, hknown, rfl⟩⟩

/-- An account only depends on the name of the table, and on which identifiers are known. -/
theorem Traces.congr (h : Traces t a vs a') (ht : t.hasNaturalId = true)
    (hname : u.name = t.name) (hu : u.hasNaturalId = true) (hlast : b.last = a.last)
    (hknown : ∀ id, id ∈ b.known ↔ id ∈ a.known) :
    ∃ b', Traces u b vs b' ∧ b'.last = a'.last ∧ ∀ id, id ∈ b'.known ↔ id ∈ a'.known := by
  induction h generalizing b with
  | nil => exact ⟨b, .nil, hlast, hknown⟩
  | @cons a a₁ a' v vs hv _ ih =>
    obtain ⟨s, hid, hnames, hcases⟩ := hv.natural ht
    have hnames' : Names u v.element b.last s a₁.last := by
      rw [hlast]
      generalize a.last = k, a₁.last = l at hnames
      cases hnames with
      | given h => exact .given h
      | minted h => exact hname ▸ .minted h
    obtain ⟨b₁, hb₁, hlast₁, hknown₁⟩ : ∃ b₁, Enters u v.element b v.id v.row?.isSome b₁ ∧
        b₁.last = a₁.last ∧ ∀ id, id ∈ b₁.known ↔ id ∈ a₁.known := by
      rcases hcases with ⟨hnew, hs, hknown₁⟩ | ⟨hnew, hs, hknown₁⟩
      · refine ⟨⟨a₁.last, s :: b.known⟩, ?_, rfl, fun id => by simp [hknown₁, hknown]⟩
        rw [hid, hnew]
        exact .new hu hnames' fun h => hs ((hknown s).1 h)
      · refine ⟨⟨a₁.last, b.known⟩, ?_, rfl, fun id => by rw [hknown₁, hknown]⟩
        rw [hid, hnew]
        exact .known hu hnames' ((hknown s).2 hs)
    obtain ⟨b', hb', hrest⟩ := ih hlast₁ hknown₁
    exact ⟨b', .cons hb₁ hb', hrest⟩

/-- What is known in the end was known before, or is the identifier of a new row. -/
theorem Traces.mem_known_iff (h : Traces t a vs a') (ht : t.hasNaturalId = true) (id : String) :
    id ∈ a'.known ↔ id ∈ a.known ∨ ∃ v ∈ vs, v.row?.isSome = true ∧ v.id = .text id := by
  induction h with
  | nil => simp
  | @cons a a₁ a' v vs hv _ ih =>
    obtain ⟨s, hid, -, ⟨hnew, -, hknown⟩ | ⟨hnew, -, hknown⟩⟩ := hv.natural ht
    · rw [ih, hknown, List.mem_cons, List.exists_mem_cons_iff, hid, Value.text.injEq, or_assoc,
        or_left_comm]
      simp only [hnew, true_and, eq_comm]
    · rw [ih, hknown, List.exists_mem_cons_iff]
      simp only [hnew, Bool.false_eq_true, false_and, false_or]

/-- Identifiers of the document are taken as they are. -/
theorem Traces.given (h : Traces t a vs a') (ht : t.hasNaturalId = true) :
    ∀ v ∈ vs, ∀ id, v.element.attribute? "id" = some id → v.id = .text id := by
  induction h with
  | nil => simp
  | @cons a a₁ a' v vs hv _ ih =>
    refine List.forall_mem_cons.2 ⟨fun id hattribute => ?_, ih⟩
    obtain ⟨s, hid, hnames, -⟩ := hv.natural ht
    generalize a.last = k, a₁.last = l at hnames
    cases hnames with
    | given h => rw [hid, Option.some.inj (hattribute.symm.trans h)]
    | minted h => simp [hattribute] at h

/-- The identifiers that the table makes are those of its next numbers. -/
theorem Traces.minted (h : Traces t a vs a') (ht : t.hasNaturalId = true) {k : Nat}
    (ha : a.last = k) (hk : k + vs.length < Nat.pow 2 63) : ∃ j, j ≤ vs.length ∧
      a'.last = (k + j : Nat) ∧ (vs.filter Visit.isUnnamed).map (·.id) =
        (List.range' (k + 1) j).map fun i : Nat => Value.text (mintedId t.name i) := by
  induction h generalizing k with
  | nil => exact ⟨0, Nat.le_refl 0, ha, rfl⟩
  | @cons a a₁ a' v vs hv _ ih =>
    rw [List.length_cons] at hk ⊢
    obtain ⟨s, hid, hnames, -⟩ := hv.natural ht
    rw [ha] at hnames
    generalize hlast : a₁.last = last at hnames
    cases hnames with
    | given h =>
      obtain ⟨j, hj, hend, hids⟩ := ih hlast (by omega)
      refine ⟨j, by omega, hend, ?_⟩
      rw [List.filter_cons_of_neg (by simp [Visit.isUnnamed, h]), hids]
    | minted h =>
      have hsucc : succ k = (k + 1 : Nat) := by
        rw [succ_eq (by omega), Int.natCast_add, Int.natCast_one]
      obtain ⟨j, hj, hend, hids⟩ := ih (hlast.trans hsucc) (by omega)
      refine ⟨j + 1, by omega, ?_, ?_⟩
      · rw [hend, Nat.add_right_comm, Nat.add_assoc]
      · rw [List.filter_cons_of_pos (by simp [Visit.isUnnamed, h]), List.map_cons,
          List.range'_succ, List.map_cons, hids, hid, hsucc]
        rfl

/-- An element with an identifier that the table makes has a row of its own, if no earlier element
has this identifier. -/
theorem Traces.own (h : Traces t a vs a') (ht : t.hasNaturalId = true)
    (hapart : vs.Pairwise fun v w => v.id = w.id → v.SharesId w)
    (hfresh : ∀ v ∈ vs, v.element.attribute? "id" = none → ∀ id ∈ a.known, v.id ≠ .text id) :
    ∀ v ∈ vs, v.element.attribute? "id" = none → v.row?.isSome = true := by
  induction h with
  | nil => simp
  | @cons a a₁ a' v vs hv _ ih =>
    obtain ⟨hhead, hapart⟩ := List.pairwise_cons.1 hapart
    obtain ⟨hfirst, hfresh⟩ := List.forall_mem_cons.1 hfresh
    obtain ⟨s, hid, -, hcases⟩ := hv.natural ht
    refine List.forall_mem_cons.2 ⟨fun hnone => ?_, ih hapart fun w hw hnone id hmem => ?_⟩
    · rcases hcases with ⟨hnew, -⟩ | ⟨-, hs, -⟩
      · exact hnew
      · exact absurd hid (hfirst hnone s hs)
    · rcases hcases with ⟨-, -, hknown⟩ | ⟨-, -, hknown⟩
      · rw [hknown] at hmem
        rcases List.mem_cons.1 hmem with rfl | hmem
        · -- the identifier of the first element is not that of a later one without identifier
          intro hw'
          obtain ⟨_, -, hsome⟩ := hhead w hw (hid.trans hw'.symm)
          rw [hnone] at hsome
          cases hsome
        · exact hfresh w hw hnone id hmem
      · exact hfresh w hw hnone id (hknown ▸ hmem)

/-- The identifiers that the table made are those of its numbers. -/
theorem Traces.made_iff (h : Traces t ⟨0, []⟩ vs a) (ht : t.hasNaturalId = true)
    (hcount : vs.length < Nat.pow 2 63) (id : String) :
    (∃ v ∈ vs, v.isUnnamed = true ∧ v.id = .text id) ↔
      ∃ k : Nat, 1 ≤ k ∧ (k : Int) ≤ a.last ∧ id = mintedId t.name k := by
  obtain ⟨j, -, hlast, hminted⟩ := h.minted ht (k := 0) rfl (by omega)
  have hmem : (∃ v ∈ vs, v.isUnnamed = true ∧ v.id = .text id) ↔
      Value.text id ∈ (vs.filter Visit.isUnnamed).map (·.id) := by
    simp only [List.mem_map, List.mem_filter, and_assoc]
  rw [hmem, hminted, List.mem_map]
  refine exists_congr fun k => ?_
  rw [List.mem_range'_1, Value.text.injEq, eq_comm (a := id), ← and_assoc]
  refine and_congr_left fun _ => ?_
  rw [hlast]
  omega

/-- The table makes no identifier twice. -/
theorem Traces.made_apart (h : Traces t ⟨0, []⟩ vs a) (ht : t.hasNaturalId = true)
    (hcount : vs.length < Nat.pow 2 63) :
    vs.Pairwise fun v w => v.isUnnamed = true → w.isUnnamed = true → v.id ≠ w.id := by
  obtain ⟨j, -, -, hminted⟩ := h.minted ht (k := 0) rfl (by omega)
  refine List.pairwise_filter.1 (List.pairwise_map.1 ?_)
  rw [hminted]
  exact (List.nodup_range' 1).map fun i k h => mintedId_injective t.name (by simpa using h)

/-- Elements have different identifiers, if none of those that the table made is one of the document. -/
theorem Traces.apart (h : Traces t ⟨0, []⟩ vs a) (ht : t.hasNaturalId = true)
    (hcount : vs.length < Nat.pow 2 63)
    (hclash : ∀ v ∈ vs, ∀ w ∈ vs, v.isUnnamed = false → w.isUnnamed = true → v.id ≠ w.id) :
    vs.Pairwise fun v w => v.id = w.id → v.SharesId w := by
  refine (h.made_apart ht hcount).imp_of_mem fun {v w} hv hw hne heq => ?_
  cases hv' : v.element.attribute? "id" with
  | some id =>
    cases hw' : w.element.attribute? "id" with
    | some id' =>
      have hids := (h.given ht v hv id hv').symm.trans (heq.trans (h.given ht w hw id' hw'))
      exact ⟨id, hv', by rw [hw', Value.text.inj hids]⟩
    | none => exact absurd heq (hclash v hv w hw (by simp [Visit.isUnnamed, hv'])
        (by simp [Visit.isUnnamed, hw']))
  | none =>
    have hunnamed : v.isUnnamed = true := by simp [Visit.isUnnamed, hv']
    cases hw' : w.isUnnamed with
    | false => exact absurd heq.symm (hclash w hw v hv hw' hunnamed)
    | true => exact absurd heq (hne hunnamed hw')

/-- The elements of a table are told apart, exactly if no identifier of the document is one that the
table made. -/
theorem Traces.toldApart_iff (h : Traces t ⟨0, []⟩ vs a) (ht : t.hasNaturalId = true)
    (hcount : vs.length < Nat.pow 2 63) : ToldApart vs ↔ ∀ v ∈ vs, ∀ id,
      v.element.attribute? "id" = some id → ∀ k : Nat, 1 ≤ k → (k : Int) ≤ a.last →
        id ≠ mintedId t.name k := by
  have hmade := h.made_iff ht hcount
  constructor
  · intro hvs v hv id hid k hk hka heq
    obtain ⟨w, hw, hunnamed, hwid⟩ := (hmade id).2 ⟨k, hk, hka, heq⟩
    have hnone : w.element.attribute? "id" = none := Option.isNone_iff_eq_none.1 hunnamed
    have hne : v ≠ w := by
      rintro rfl
      rw [hid] at hnone
      cases hnone
    obtain ⟨_, -, hsome⟩ := hvs.sharesId hv hw hne ((h.given ht v hv id hid).trans hwid.symm)
    rw [hnone] at hsome
    cases hsome
  · intro hclash
    have hapart := h.apart ht hcount fun v hv w hw hnamed hunnamed heq => by
      obtain ⟨id, hid⟩ := Option.isSome_iff_exists.1 (Option.isNone_eq_false_iff.1 hnamed)
      have hwid : w.id = .text id := heq.symm.trans (h.given ht v hv id hid)
      obtain ⟨k, hk, hka, hkid⟩ := (hmade id).1 ⟨w, hw, hunnamed, hwid⟩
      exact hclash v hv id hid k hk hka hkid
    exact ⟨hapart, h.own ht hapart fun _ _ _ _ hmem => by cases hmem⟩

end Traces

end Population

/-! ### The account of a table -/

open Population

/-- The visits entered one account from the first number on, which is the one of the table by now. -/
def Table.Traced (t : Table) (m : Model) (vs : List Visit) : Prop :=
  ∃ a, Traces t ⟨0, []⟩ vs a ∧ a.last = t.lastId ∧ ∀ id, id ∈ a.known ↔ id ∈ knownIds m t

namespace Table

variable {m n : Model} {t u : Table} {vs ws : List Visit}

theorem traced_create {name : String} (natural : Bool) (h : m.rowsOf name = []) :
    (create name natural).Traced m [] := by
  refine ⟨_, .nil, rfl, fun id => ?_⟩
  rw [knownIds, show (create name natural).name = name from rfl, h]
  rfl

theorem Grows.knownIds (h : t.Grows u) : knownIds m u = knownIds m t := by
  rw [knownIds_eq, knownIds_eq, h.name, h.uidName]

theorem Traced.grows (h : t.Traced m vs) (ht : t.hasNaturalId = true) (htu : t.Grows u) :
    u.Traced m vs := by
  obtain ⟨a, htraces, hlast, hknown⟩ := h
  obtain ⟨b, hb, hlast', hknown'⟩ :=
    htraces.congr (b := ⟨0, []⟩) ht htu.name (htu.hasNaturalId.trans ht) rfl fun _ => Iff.rfl
  refine ⟨b, hb, ?_, fun id => ?_⟩
  · rw [hlast', hlast, htu.lastId]
  · rw [hknown', hknown, htu.knownIds]

/-- Visits of one more document go on with the account. -/
theorem Traced.visited {a a' : Account} (h : t.Traced m vs) (ht : t.hasNaturalId = true)
    (hlast : a.last = t.lastId) (hknown : a.known = knownIds m t) (htraces : Traces t a ws a')
    (hcount : (vs ++ ws).length < Nat.pow 2 63)
    (hrows : ∀ id, id ∈ knownIds n t ↔
      id ∈ knownIds m t ∨ ∃ v ∈ ws, v.row?.isSome = true ∧ v.id = .text id) :
    ({ t with lastId := max t.lastId a'.last } : Table).Traced n (vs ++ ws) := by
  rw [List.length_append] at hcount
  obtain ⟨b, hb, hblast, hbknown⟩ := h
  obtain ⟨j, hj, hbj, -⟩ := hb.minted ht (k := 0) rfl (by omega)
  rw [Nat.zero_add] at hbj
  obtain ⟨i, -, ha', -⟩ := htraces.minted ht (k := j) (by rw [hlast, ← hblast, hbj]) (by omega)
  -- the account of the rows and that of the visits so far agree, in all that counts
  obtain ⟨b', hb', hlast', hknown'⟩ := htraces.congr ht rfl ht (hblast.trans hlast.symm)
    fun id => by rw [hbknown, hknown]
  obtain ⟨d, hd, hdlast, hdknown⟩ := (hb.append hb').congr (b := ⟨0, []⟩)
    (u := { t with lastId := max t.lastId a'.last }) ht rfl ht rfl fun _ => Iff.rfl
  refine ⟨d, hd, ?_, fun id => ?_⟩
  · show d.last = max t.lastId a'.last
    rw [hdlast, hlast', ha', ← hblast, hbj]
    omega
  · rw [hdknown, hknown', htraces.mem_known_iff ht, hknown]
    exact (hrows id).symm

end Table

namespace Conversion

open Xml

/-- The visits that elements had in a table, from the first document on. -/
def Chronicle.visitsIn (h : Chronicle) (name : String) : List Visit :=
  h.runs.flatMap fun r => r.visits.filter (·.table = name)

/-- Visits were to tables of the model, and entered their accounts. -/
structure Chronicle.Traced (h : Chronicle) : Prop where
  unseen : ∀ name, h.model.table? name = none → h.visitsIn name = []
  tables : ∀ name t, h.model.table? name = some t → t.hasNaturalId = true →
    (h.visitsIn name).length < Nat.pow 2 63 → t.Traced h.model (h.visitsIn name)

theorem traced_empty : Chronicle.Traced {} where
  unseen _ _ := rfl
  tables name t ht := by cases ht

/-- The identifiers that are known are those that were, and those of new rows. -/
theorem Brings.mem_knownIds_iff {m n : Model} {r : Run} (h : Brings m r n) {t : Table}
    (ht : r.setting.model.table? t.name = some t)
    (htexts : ∀ v ∈ r.visits.filter (·.table = t.name), ∃ id, v.id = .text id) (id : String) :
    id ∈ knownIds n t ↔ id ∈ knownIds m t ∨
      ∃ v ∈ r.visits.filter (·.table = t.name), v.row?.isSome = true ∧ v.id = .text id := by
  rw [knownIds_eq, knownIds_eq, h.rows, List.map_append, List.filterMap_append, List.mem_append,
    map_uid_made ht h.follows]
  generalize r.visits.filter (·.table = t.name) = vs at htexts ⊢
  simp only [List.filterMap_map, List.mem_filterMap, List.mem_filter, Function.comp_apply,
    Option.map_some, Option.some.injEq, and_assoc]
  refine or_congr_right (exists_congr fun v => and_congr_right fun hv => and_congr_right fun _ => ?_)
  obtain ⟨s, hs⟩ := htexts v hv
  rw [hs, Value.text.injEq]
  rfl

/-- The tables of the setting have the accounts of the rows that were there before. -/
theorem Brings.traced_before {h : Chronicle} {r : Run} {n : Model} (hbrings : Brings h.model r n)
    (hids : h.model.Identified) (ht : h.Traced) {name : String} {t : Table}
    (htable : r.setting.model.table? name = some t) (hnatural : t.hasNaturalId = true)
    (hcount : (h.visitsIn name).length < Nat.pow 2 63) : t.Traced h.model (h.visitsIn name) := by
  cases hbefore : h.model.table? name with
  | none =>
    obtain ⟨natural, hgrows⟩ := hbrings.grows.fresh name t htable hbefore
    rw [ht.unseen name hbefore]
    exact (Table.traced_create natural (hids.rows name hbefore)).grows
      (hgrows.hasNaturalId.symm.trans hnatural) hgrows
  | some t₀ =>
    obtain ⟨t', ht', hgrows⟩ := hbrings.grows.kept name t₀ hbefore
    rw [htable] at ht'
    cases ht'
    have hnatural₀ := hgrows.hasNaturalId.symm.trans hnatural
    exact (ht.tables name t₀ hbefore hnatural₀ hcount).grows hnatural₀ hgrows

theorem Chronicle.Traced.brings {h : Chronicle} {r : Run} {n : Model} (ht : h.Traced)
    (hm : h.model.Sound) (hids : h.model.Identified) (hbrings : Brings h.model r n) :
    Chronicle.Traced ⟨n, h.runs ++ [r]⟩ := by
  have hvisits : ∀ name, Chronicle.visitsIn ⟨n, h.runs ++ [r]⟩ name =
      h.visitsIn name ++ r.visits.filter (·.table = name) := fun name => by
    simp only [Chronicle.visitsIn, List.flatMap_append, List.flatMap_singleton]
  constructor
  · intro name hnone
    obtain ⟨hbefore, hvisits'⟩ := hbrings.unseen hnone
    rw [hvisits, ht.unseen name hbefore, List.nil_append, List.filter_eq_nil_iff]
    exact fun v hv hname => hvisits' v hv (of_decide_eq_true hname)
  · intro name u hu hnatural hcount
    rw [hvisits] at hcount ⊢
    obtain ⟨t, -, htable, -⟩ := hbrings.table_cases hu
    obtain ⟨a, a', hlast, hknown, htraces, hn⟩ := hbrings.tables name t htable
    rw [hn] at hu
    cases hu
    obtain rfl := (hbrings.grows.sound hm).named name t htable
    have hbefore := hbrings.traced_before hids ht htable hnatural
      (by rw [List.length_append] at hcount; omega)
    obtain ⟨_, -, -, -, htexts⟩ := htraces.texts hnatural
    refine hbefore.visited hnatural hlast (hknown hnatural) htraces hcount fun id => ?_
    refine hbrings.mem_knownIds_iff htable (fun v hv => ?_) id
    obtain ⟨id, hid, -⟩ := htexts v hv
    exact ⟨id, hid⟩

theorem traced_after (c : Conversion) (docs : List Document) : (c.chronicle docs).Traced :=
  (chronicle_induct (P := fun h => h.model.Identified ∧ h.Traced) docs
    ⟨identified_empty, traced_empty⟩ fun _ _ _ _ _ hsound _ hbrings ⟨hids, htraced⟩ =>
      ⟨hbrings.identified hsound hids, htraced.brings hsound hids hbrings⟩).2.2.2

/-- Elements in a table with identifiers of the document are told apart, exactly if none of them has
an identifier that the table made. The numbers of the table are assumed to be numbers of 64 bits. -/
theorem toldApart_after_iff (c : Conversion) (docs : List Document) {name : String} {t : Table}
    (ht : (c.after docs).table? name = some t) (hnatural : t.hasNaturalId = true)
    (hcount : ((c.chronicle docs).visitsIn name).length < Nat.pow 2 63) :
    ToldApart ((c.chronicle docs).visitsIn name) ↔
      ∀ v ∈ (c.chronicle docs).visitsIn name, ∀ id, v.element.attribute? "id" = some id →
        ∀ k : Nat, 1 ≤ k → (k : Int) ≤ t.lastId → id ≠ mintedId name k := by
  obtain rfl := (sound_after docs).named name t ht
  rw [← model_chronicle] at ht
  obtain ⟨a, htraces, hlast, -⟩ := (traced_after c docs).tables _ t ht hnatural hcount
  rw [← hlast]
  exact htraces.toldApart_iff hnatural hcount

/-- Elements with and without identifiers in one table. -/
def mintingSchema : String :=
  "<xs:schema xmlns:xs='http://www.w3.org/2001/XMLSchema'><xs:complexType name='C'><xs:sequence>" ++
  "<xs:element name='d' type='xs:string'/></xs:sequence><xs:attribute name='id' type='xs:ID'/>" ++
  "</xs:complexType><xs:element name='a'><xs:complexType><xs:sequence>" ++
  "<xs:element name='c' type='C' maxOccurs='unbounded'/></xs:sequence></xs:complexType>" ++
  "</xs:element></xs:schema>"

/-- An identifier of the document, and one that the table makes. -/
def apartDocuments : List Document :=
  documents ["<a><c id='k'><d>x</d></c></a>", "<a><c><d>y</d></c></a>"]

/-- The identifier of the first element is the first one that the table makes. -/
def collidingDocuments : List Document :=
  documents ["<a><c id='c_1'><d>x</d></c><c><d>y</d></c></a>"]

/-- The elements of two documents are told apart. -/
theorem told_apart_in_documents : ∃ t,
    ((ofText mintingSchema).after apartDocuments).table? "c" = some t ∧
    ToldApart (((ofText mintingSchema).chronicle apartDocuments).visitsIn "c") := by
  have htable : (((ofText mintingSchema).after apartDocuments).table? "c").map
      (fun t => (t.hasNaturalId, t.lastId)) = some (true, 1) := by
    decide +kernel
  have hids : (((ofText mintingSchema).chronicle apartDocuments).visitsIn "c").map
      (fun v => v.element.attribute? "id") = [some "k", none] := by
    decide +kernel
  obtain ⟨t, ht, htable⟩ := Option.map_eq_some_iff.1 htable
  obtain ⟨hnatural, hlast⟩ := Prod.mk.inj htable
  have hcount : (((ofText mintingSchema).chronicle apartDocuments).visitsIn "c").length = 2 := by
    rw [← List.length_map (f := fun v : Visit => v.element.attribute? "id"), hids]
    rfl
  refine ⟨t, ht, (toldApart_after_iff _ _ ht hnatural (by rw [hcount]; decide)).2 ?_⟩
  intro v hv id hid k hk hkt
  obtain rfl : k = 1 := by omega
  have hmem : some id ∈ [some "k", none] := hids ▸ hid ▸ List.mem_map_of_mem hv
  obtain rfl : id = "k" := by simpa using hmem
  decide

/-- The identifier that the table makes for the second element is that of the first one, so the second
one has no row. -/
theorem minted_id_collides :
    ((ofText mintingSchema).after collidingDocuments).rowsOf "c" =
      [⟨[("@id", .text "c_1"), ("d", .text "x"), ("a_id", .int 1)]⟩] ∧
    (((ofText mintingSchema).chronicle collidingDocuments).visitsIn "c").map
        (fun v => (v.element.attribute? "id", v.id, v.row?.isSome)) =
      [(some "c_1", .text "c_1", true), (none, .text "c_1", false)] ∧
    ¬ ToldApart (((ofText mintingSchema).chronicle collidingDocuments).visitsIn "c") := by
  have hvisits : (((ofText mintingSchema).chronicle collidingDocuments).visitsIn "c").map
      (fun v => (v.element.attribute? "id", v.id, v.row?.isSome)) =
        [(some "c_1", .text "c_1", true), (none, .text "c_1", false)] := by
    decide +kernel
  refine ⟨by decide +kernel, hvisits, fun h => ?_⟩
  have hmem : ((none : Option String), Value.text "c_1", false) ∈
      (((ofText mintingSchema).chronicle collidingDocuments).visitsIn "c").map
        (fun v => (v.element.attribute? "id", v.id, v.row?.isSome)) := by
    rw [hvisits]
    simp
  obtain ⟨v, hv, heq⟩ := List.mem_map.1 hmem
  simp only [Prod.mk.injEq] at heq
  have hrow := h.own v hv heq.1
  rw [heq.2.2] at hrow
  cases hrow

end Conversion

end FeatureTables
