import FeatureTables.Proofs.OrderedMap
import FeatureTables.Table
import Mathlib.Data.List.Nodup
import Mathlib.Data.List.Perm.Subperm

/-!
How tables grow. Documents only add fields to a table, join fields with known ones and relax them
(`Table.Grows`). A field keeps its key, its kind and its target on the way, and what it allows stays
allowed (`Field.Grows`). In a table that has grown from a new one each key has a column of its own
(`Table.Sound`), which keeps its name as long as the field has one.
-/

namespace FeatureTables

/-! ### Upper bounds -/

theorem MaxOccurs.isMany_join (a b : MaxOccurs) : (a.join b).isMany = (a.isMany || b.isMany) := by
  cases a with
  | unbounded => rfl
  | bounded x =>
    cases b with
    | unbounded => simp [join, isMany]
    | bounded y =>
      rw [Bool.eq_iff_iff]
      simp only [join, isMany, decide_eq_true_eq, Bool.or_eq_true]
      omega

theorem Link.isMany_join (a b : Link) : (a.occurs.max.join b.occurs.max).isMany =
    (a.isMany || b.isMany) := MaxOccurs.isMany_join _ _

namespace Field

/-! ### Fields that grow -/

/-- What later documents make of a field. -/
inductive Grows : Field → Field → Prop
  | column {a b : Column} (key : b.key = a.key) (optional : a.optional → b.optional) :
      Grows (.column a) (.column b)
  | link {a b : Link} (key : b.key = a.key) (table : b.table = a.table)
      (optional : a.optional → b.optional) (isMany : a.isMany → b.isMany) : Grows (.link a) (.link b)
  | backLink (b : BackLink) : Grows (.backLink b) (.backLink b)
  | geometry {a b : GeometryColumn} (key : b.key = a.key) (optional : a.optional → b.optional) :
      Grows (.geometry a) (.geometry b)

theorem Grows.refl (f : Field) : f.Grows f := by
  cases f with
  | column c => exact .column rfl id
  | link l => exact .link rfl rfl id id
  | backLink b => exact .backLink b
  | geometry g => exact .geometry rfl id

theorem Grows.trans {f g h : Field} (hfg : f.Grows g) (hgh : g.Grows h) : f.Grows h := by
  cases hfg with
  | column key optional =>
    cases hgh with
    | column key' optional' => exact .column (key'.trans key) (optional' ∘ optional)
  | link key table optional isMany =>
    cases hgh with
    | link key' table' optional' isMany' =>
      exact .link (key'.trans key) (table'.trans table) (optional' ∘ optional) (isMany' ∘ isMany)
  | backLink b => exact hgh
  | geometry key optional =>
    cases hgh with
    | geometry key' optional' => exact .geometry (key'.trans key) (optional' ∘ optional)

theorem grows_join (f g : Field) : f.Grows (f.join g) := by
  cases f with
  | column a =>
    cases g with
    | column b => exact .column rfl fun h => by simp [h]
    | _ => exact .refl _
  | link a =>
    cases g with
    | link b =>
      refine .link rfl rfl (fun h => by simp [h]) fun h => ?_
      exact (Link.isMany_join a b).trans (by rw [h]; rfl)
    | _ => exact .refl _
  | backLink b => cases g <;> exact .refl _
  | geometry a =>
    cases g with
    | geometry b => exact .geometry rfl fun h => by simp [h]
    | _ => exact .refl _

theorem join_backLink (f : Field) (b : BackLink) : f.join (.backLink b) = f := by
  cases f <;> rfl

theorem grows_relaxed (f : Field) : f.Grows f.relaxed := by
  cases f with
  | column c => exact .column rfl fun _ => rfl
  | link l => exact .link rfl rfl (fun _ => rfl) id
  | backLink b => exact .refl _
  | geometry g => exact .geometry rfl fun _ => rfl

theorem Grows.isOptional {f g : Field} (h : f.Grows g) (hf : f.isOptional) : g.isOptional := by
  cases h with
  | column _ optional => exact optional hf
  | link _ _ optional _ => exact optional hf
  | backLink b => exact hf
  | geometry _ optional => exact optional hf

/-- The field is a link with a column, which it has no more once children may repeat. -/
def IsSingle (f : Field) : Prop := ∃ l, f = .link l ∧ l.isMany = false

/-- A field keeps the name of its column, unless it is a link that has become one to many. -/
theorem Grows.columnName? {f g : Field} (h : f.Grows g) :
    g.columnName? = f.columnName? ∨ g.columnName? = none ∧ f.IsSingle := by
  cases h with
  | column key _ => simp [Field.columnName?, key]
  | backLink b => exact Or.inl rfl
  | geometry key _ => simp [Field.columnName?, key]
  | @link a b key table _ isMany =>
    cases ha : a.isMany with
    | true => simp [Field.columnName?, ha, isMany ha]
    | false =>
      cases hb : b.isMany with
      | true => exact Or.inr ⟨by simp [Field.columnName?, hb], a, rfl, ha⟩
      | false => simp [Field.columnName?, ha, hb, key]

end Field

namespace Table

/-! ### Free names -/

theorem toString_injective {i j : Nat} (h : toString i = toString j) : i = j := by
  have hread : ∀ n : Nat, Nat.ofDigitChars 10 (toString n).toList 0 = n := by
    intro n
    rw [Nat.toString_eq_ofList_toDigits, String.toList_ofList]
    exact Nat.ofDigitChars_toDigits (by omega) (by omega)
  rw [← hread i, h, hread]

theorem candidate_injective (name : String) {i j : Nat}
    (h : name ++ "_" ++ toString (i + 2) = name ++ "_" ++ toString (j + 2)) : i = j := by
  have hlist := congrArg String.toList h
  simp only [String.toList_append] at hlist
  have := toString_injective (String.toList_inj.1 (List.append_cancel_left hlist))
  omega

/-- One more candidate than there are names taken: one of them is free. -/
theorem exists_candidate (taken : List String) (name : String) :
    ∃ i ≤ taken.length, name ++ "_" ++ toString (i + 2) ∉ taken := by
  by_contra hall
  push Not at hall
  have hnodup : ((List.range (taken.length + 1)).map fun i =>
      name ++ "_" ++ toString (i + 2)).Nodup := by
    rw [List.nodup_map_iff_inj_on List.nodup_range]
    intro i _ j _ h
    exact candidate_injective name h
  have hsubset : (List.range (taken.length + 1)).map (fun i => name ++ "_" ++ toString (i + 2)) ⊆
      taken := by
    intro x hx
    obtain ⟨i, hi, rfl⟩ := List.mem_map.1 hx
    exact hall i (Nat.le_of_lt_succ (List.mem_range.1 hi))
  have hlength := (hnodup.subperm hsubset).length_le
  simp only [List.length_map, List.length_range] at hlength
  omega

/-- The free name is the first candidate that is not taken. -/
theorem freeName_eq (taken : List String) (name : String) : ∃ i ≤ taken.length,
    freeName taken name = name ++ "_" ++ toString (i + 2) ∧
    name ++ "_" ++ toString (i + 2) ∉ taken ∧
    ∀ j < i, name ++ "_" ++ toString (j + 2) ∈ taken := by
  obtain ⟨k, hk, hfree⟩ := exists_candidate taken name
  have hfind : freeName taken name = (((List.range (taken.length + 1)).find? fun i =>
      !taken.contains (name ++ "_" ++ toString (i + 2))).map fun i =>
        name ++ "_" ++ toString (i + 2)).getD name := by
    simp only [freeName, List.find?_map]
    rfl
  cases hi : (List.range (taken.length + 1)).find? fun i =>
      !taken.contains (name ++ "_" ++ toString (i + 2)) with
  | none =>
    have hnot := List.find?_eq_none.1 hi k (List.mem_range.2 (Nat.lt_succ_of_le hk))
    exact absurd (by simpa using hnot) hfree
  | some i =>
    obtain ⟨hnot, hmem, hfirst⟩ := List.find?_range_eq_some.1 hi
    refine ⟨i, Nat.le_of_lt_succ (List.mem_range.1 hmem), by rw [hfind, hi]; rfl, ?_, fun j hj => ?_⟩
    · simpa using hnot
    · simpa using hfirst j hj

theorem freeName_not_mem (taken : List String) (name : String) : freeName taken name ∉ taken := by
  obtain ⟨i, -, he, hfree, -⟩ := freeName_eq taken name
  rw [he]
  exact hfree

/-! ### Fields in turn -/

/-- Something holds at a step of a run if it does at the first one, or at one of the rest. -/
theorem exists_step_cons {α : Type} {P : List α → α → Prop} {x : α} {xs : List α} :
    (∃ before y, before ++ [y] <+: x :: xs ∧ P before y) ↔
      P [] x ∨ ∃ before y, before ++ [y] <+: xs ∧ P (x :: before) y := by
  constructor
  · rintro ⟨_ | ⟨z, before⟩, y, hprefix, h⟩
    · obtain ⟨rfl, -⟩ := List.cons_prefix_cons.1 hprefix
      exact Or.inl h
    · obtain ⟨rfl, hrest⟩ := List.cons_prefix_cons.1 hprefix
      exact Or.inr ⟨before, y, hrest, h⟩
  · rintro (h | ⟨before, y, hprefix, h⟩)
    · exact ⟨[], x, by simp, h⟩
    · exact ⟨x :: before, y, List.cons_prefix_cons.2 ⟨rfl, hprefix⟩, h⟩

/-! ### Tables that grow -/

/-- What documents make of a table: fields are added, joined with known ones, and relaxed. -/
inductive Grows : Table → Table → Prop
  | refl (t : Table) : Grows t t
  | add {t u : Table} (h : Grows t u) (f : Field) : Grows t (u.addField f)
  | relax {t u : Table} (h : Grows t u) (key : String) :
      Grows t { u with fields := u.fields.modify key Field.relaxed }

theorem Grows.trans {t u v : Table} (htu : t.Grows u) (huv : u.Grows v) : t.Grows v := by
  induction huv with
  | refl => exact htu
  | add _ f ih => exact ih.add f
  | relax _ key ih => exact ih.relax key

theorem Grows.foldl {α : Type} {step : Table → α → Table}
    (hstep : ∀ (t : Table) (a : α), t.Grows (step t a))
    (t : Table) (xs : List α) : t.Grows (xs.foldl step t) := by
  induction xs generalizing t with
  | nil => exact .refl t
  | cons x xs ih => exact (hstep t x).trans (ih _)

/-- Adding a field changes nothing, joins a known field, or puts a new one behind the others with a
name for its column that is not taken. -/
theorem addField_cases (t : Table) (f : Field) :
    (f.key = t.uid ∧ t.addField f = t) ∨
    (f.key ≠ t.uid ∧ ∃ g, t.fields.get? f.key = some g ∧
      t.addField f = { t with fields := t.fields.put f.key (g.join f) }) ∨
    (f.key ≠ t.uid ∧ t.fields.get? f.key = none ∧ ∃ renamed,
      t.addField f = { t with fields := t.fields.put f.key f, renamed } ∧
      (renamed = t.renamed ∧ (∀ c, f.columnName? = some c → c ∉ t.columnNames) ∨
        ∃ c, f.columnName? = some c ∧ renamed = t.renamed.put f.key (freeName t.columnNames c))) := by
  by_cases hk : f.key = t.uid
  · exact Or.inl ⟨hk, by simp [addField, hk]⟩
  · refine Or.inr ?_
    cases hg : t.fields.get? f.key with
    | some g => exact Or.inl ⟨hk, g, rfl, by simp [addField, hk, hg]⟩
    | none =>
      refine Or.inr ⟨hk, rfl, ?_⟩
      cases hc : f.columnName? with
      | none => exact ⟨t.renamed, by simp [addField, hk, hg, hc], Or.inl ⟨rfl, by simp⟩⟩
      | some c =>
        by_cases hmem : c ∈ t.columnNames
        · exact ⟨_, by simp [addField, hk, hg, hc, hmem, Option.filter], Or.inr ⟨c, rfl, rfl⟩⟩
        · refine ⟨t.renamed, by simp [addField, hk, hg, hc, hmem, Option.filter], Or.inl ⟨rfl, ?_⟩⟩
          rintro c' hc'
          cases hc'
          exact hmem

/-! ### What growing keeps -/

section Kept

variable {t u : Table}

theorem addField_name (t : Table) (f : Field) : (t.addField f).name = t.name := by
  rcases addField_cases t f with ⟨-, h⟩ | ⟨-, g, -, h⟩ | ⟨-, -, r, h, -⟩ <;> rw [h]

theorem addField_uid (t : Table) (f : Field) : (t.addField f).uid = t.uid := by
  rcases addField_cases t f with ⟨-, h⟩ | ⟨-, g, -, h⟩ | ⟨-, -, r, h, -⟩ <;> rw [h]

theorem addField_lastId (t : Table) (f : Field) : (t.addField f).lastId = t.lastId := by
  rcases addField_cases t f with ⟨-, h⟩ | ⟨-, g, -, h⟩ | ⟨-, -, r, h, -⟩ <;> rw [h]

theorem Grows.name (h : t.Grows u) : u.name = t.name := by
  induction h with
  | refl => rfl
  | add _ f ih => rw [addField_name, ih]
  | relax _ key ih => exact ih

theorem Grows.uid (h : t.Grows u) : u.uid = t.uid := by
  induction h with
  | refl => rfl
  | add _ f ih => rw [addField_uid, ih]
  | relax _ key ih => exact ih

theorem Grows.lastId (h : t.Grows u) : u.lastId = t.lastId := by
  induction h with
  | refl => rfl
  | add _ f ih => rw [addField_lastId, ih]
  | relax _ key ih => exact ih

theorem Grows.uidName (h : t.Grows u) : u.uidName = t.uidName := by
  unfold Table.uidName
  rw [h.uid]

theorem Grows.hasNaturalId (h : t.Grows u) : u.hasNaturalId = t.hasNaturalId := by
  unfold Table.hasNaturalId
  rw [h.uid]

/-- Fields stay, in their order, in front of the new ones. -/
theorem Grows.prefix_keys (h : t.Grows u) : t.fields.keys <+: u.fields.keys := by
  induction h with
  | refl => exact List.prefix_rfl
  | add _ f ih =>
    refine ih.trans ?_
    rcases addField_cases _ f with ⟨-, h⟩ | ⟨-, g, -, h⟩ | ⟨-, -, r, h, -⟩
    · exact ⟨[], by rw [h, List.append_nil]⟩
    · rw [h]
      exact OrderedMap.prefix_keys_put _ _ _
    · rw [h]
      exact OrderedMap.prefix_keys_put _ _ _
  | relax _ key ih =>
    refine ih.trans ?_
    exact ⟨[], (List.append_nil _).trans (OrderedMap.keys_modify _ _ _).symm⟩

theorem Grows.mem_keys (h : t.Grows u) {k : String} (hk : k ∈ t.fields.keys) :
    k ∈ u.fields.keys := h.prefix_keys.subset hk

theorem addField_field {t : Table} (f : Field) {k : String} {g : Field}
    (hg : t.fields.get? k = some g) :
    ∃ g', (t.addField f).fields.get? k = some g' ∧ g.Grows g' := by
  rcases addField_cases t f with ⟨-, h⟩ | ⟨-, g₀, h₀, h⟩ | ⟨-, h₀, r, h, -⟩ <;> rw [h]
  · exact ⟨g, hg, .refl g⟩
  · show ∃ g', (t.fields.put f.key _).get? k = some g' ∧ _
    rw [OrderedMap.get?_put]
    by_cases hk : k = f.key
    · subst hk
      rw [h₀] at hg
      cases hg
      exact ⟨_, if_pos rfl, Field.grows_join _ _⟩
    · exact ⟨g, by rw [if_neg hk, hg], .refl g⟩
  · show ∃ g', (t.fields.put f.key _).get? k = some g' ∧ _
    rw [OrderedMap.get?_put]
    have hk : k ≠ f.key := by
      rintro rfl
      rw [h₀] at hg
      cases hg
    exact ⟨g, by rw [if_neg hk, hg], .refl g⟩

theorem Grows.field (h : t.Grows u) {k : String} {f : Field} (hf : t.fields.get? k = some f) :
    ∃ g, u.fields.get? k = some g ∧ f.Grows g := by
  induction h with
  | refl => exact ⟨f, hf, .refl f⟩
  | add _ f' ih =>
    obtain ⟨g, hg, hfg⟩ := ih
    obtain ⟨g', hg', hgg'⟩ := addField_field f' hg
    exact ⟨g', hg', hfg.trans hgg'⟩
  | @relax u _ key ih =>
    obtain ⟨g, hg, hfg⟩ := ih
    show ∃ g', (u.fields.modify key Field.relaxed).get? k = some g' ∧ _
    rw [OrderedMap.get?_modify, hg]
    by_cases hk : k = key
    · exact ⟨g.relaxed, by simp [hk], hfg.trans (Field.grows_relaxed g)⟩
    · exact ⟨g, by simp [hk], hfg⟩

/-- The name that a column was given in place of the suggested one stays. -/
theorem Grows.renamed (h : t.Grows u) {k : String} (hk : k ∈ t.fields.keys) :
    u.renamed.get? k = t.renamed.get? k := by
  induction h with
  | refl => rfl
  | @add u h f ih =>
    rw [← ih]
    rcases addField_cases u f with ⟨-, h'⟩ | ⟨-, g, -, h'⟩ | ⟨-, hnone, r, h', hr⟩ <;> rw [h']
    rcases hr with ⟨rfl, -⟩ | ⟨c, -, rfl⟩
    · rfl
    · show (u.renamed.put _ _).get? k = _
      have hne : k ≠ f.key := by
        rintro rfl
        exact OrderedMap.get?_eq_none_iff.1 hnone (h.mem_keys hk)
      rw [OrderedMap.get?_put, if_neg hne]
  | relax _ key ih => exact ih

/-- A column keeps its name, unless its field is a link that has become one to many. -/
theorem Grows.columnName? (h : t.Grows u) {k : String} {f : Field}
    (hf : t.fields.get? k = some f) :
    u.columnName? k = t.columnName? k ∨ u.columnName? k = none ∧ f.IsSingle := by
  obtain ⟨g, hg, hfg⟩ := h.field hf
  have hr := h.renamed (OrderedMap.mem_keys_of_get? hf)
  unfold Table.columnName?
  rw [hr, hf, hg]
  cases t.renamed.get? k with
  | some c => exact Or.inl rfl
  | none => simpa using hfg.columnName?

end Kept

/-! ### Sound tables -/

/-- What holds of tables that have grown from new ones. -/
structure Sound (t : Table) : Prop where
  nodup : t.fields.keys.Nodup
  keyed : ∀ k f, t.fields.get? k = some f → f.key = k
  uid : t.uid = Key.naturalUid ∨ t.uid = Key.syntheticUid
  uidColumn : ∃ c, t.fields.get? t.uid = some (.column c)
  renamed : ∀ k, k ∉ t.fields.keys → t.renamed.get? k = none
  uidRenamed : t.renamed.get? t.uid = none
  /-- No two keys share a column. -/
  columns : ∀ k k' c, k ∈ t.fields.keys → k' ∈ t.fields.keys →
    t.columnName? k = some c → t.columnName? k' = some c → k = k'

theorem uidFor_key (natural : Bool) :
    (uidFor natural).key = Key.naturalUid ∨ (uidFor natural).key = Key.syntheticUid := by
  cases natural
  · exact Or.inr rfl
  · exact Or.inl rfl

theorem keys_create (name : String) (natural : Bool) :
    (create name natural).fields.keys = [(create name natural).uid] := rfl

theorem get?_create (name : String) (natural : Bool) (key : String) :
    (create name natural).fields.get? key =
      if key = (create name natural).uid then some (.column (uidFor natural)) else none :=
  OrderedMap.get?_put _ _ _ _

theorem sound_create (name : String) (natural : Bool) : (create name natural).Sound where
  nodup := keys_create name natural ▸ List.nodup_singleton _
  keyed k f hf := by
    rw [get?_create] at hf
    split at hf
    · cases hf
      rename_i h
      exact h.symm
    · cases hf
  uid := uidFor_key natural
  uidColumn := ⟨uidFor natural, by rw [get?_create, if_pos rfl]⟩
  renamed k _ := rfl
  uidRenamed := rfl
  columns k k' c hk hk' _ _ := by
    rw [keys_create, List.mem_singleton] at hk hk'
    rw [hk, hk']

theorem mem_columnNames {t : Table} {c : String} :
    c ∈ t.columnNames ↔ ∃ k ∈ t.fields.keys, t.columnName? k = some c := by
  simp [columnNames, List.mem_filterMap]

section Sound

variable {t u : Table}

/-- A table that grows without new keys keeps the columns of its keys apart. -/
theorem Sound.columns_of_grows (h : t.Sound) (htu : t.Grows u)
    (hkeys : u.fields.keys = t.fields.keys) (k k' c : String) (hk : k ∈ u.fields.keys)
    (hk' : k' ∈ u.fields.keys) (hc : u.columnName? k = some c) (hc' : u.columnName? k' = some c) :
    k = k' := by
  rw [hkeys] at hk hk'
  obtain ⟨f₁, hf₁⟩ := OrderedMap.mem_keys_iff.1 hk
  obtain ⟨f₂, hf₂⟩ := OrderedMap.mem_keys_iff.1 hk'
  rcases htu.columnName? hf₁ with e₁ | ⟨e₁, -⟩
  · rcases htu.columnName? hf₂ with e₂ | ⟨e₂, -⟩
    · exact h.columns k k' c hk hk' (e₁ ▸ hc) (e₂ ▸ hc')
    · rw [e₂] at hc'
      cases hc'
  · rw [e₁] at hc
    cases hc

/-- Joining changes the field of one key, and its column stays or goes. -/
theorem Sound.addField_known (h : t.Sound) {f g : Field} (hk : f.key ≠ t.uid)
    (hg : t.fields.get? f.key = some g) : (t.addField f).Sound := by
  have he : t.addField f = { t with fields := t.fields.put f.key (g.join f) } := by
    simp [Table.addField, hk, hg]
  have hgrows : t.Grows (t.addField f) := (Grows.refl t).add f
  have hkeys : (t.addField f).fields.keys = t.fields.keys := by
    rw [he]
    show (t.fields.put _ _).keys = _
    rw [OrderedMap.keys_put, if_pos (OrderedMap.mem_keys_of_get? hg)]
  refine ⟨hkeys ▸ h.nodup, ?_, he ▸ h.uid, ?_, ?_, he ▸ h.uidRenamed,
    h.columns_of_grows hgrows hkeys⟩
  · intro k f' hf'
    rw [he] at hf'
    change (t.fields.put _ _).get? k = some f' at hf'
    rw [OrderedMap.get?_put] at hf'
    split at hf'
    · cases hf'
      rename_i hkf
      rw [Field.key_join, h.keyed _ _ hg, hkf]
    · exact h.keyed k f' hf'
  · obtain ⟨c, hc⟩ := h.uidColumn
    refine ⟨c, ?_⟩
    rw [he]
    show (t.fields.put _ _).get? t.uid = _
    rw [OrderedMap.get?_put, if_neg (Ne.symm hk), hc]
  · intro k hk
    rw [hkeys] at hk
    rw [he]
    exact h.renamed k hk

/-- A table with one more field than another one, whose column has a name of its own. -/
structure Extends (t : Table) (f : Field) (u : Table) : Prop where
  keys : u.fields.keys = t.fields.keys ++ [f.key]
  field : ∀ k, u.fields.get? k = if k = f.key then some f else t.fields.get? k
  renamed : ∀ k, k ≠ f.key → u.renamed.get? k = t.renamed.get? k
  uid : u.uid = t.uid
  free : ∀ c, u.columnName? f.key = some c → c ∉ t.columnNames

theorem Extends.columnName? {f : Field} (h : t.Extends f u) {k : String} (hk : k ≠ f.key) :
    u.columnName? k = t.columnName? k := by
  unfold Table.columnName?
  rw [h.renamed k hk, h.field k, if_neg hk]

theorem Sound.extends_addField (h : t.Sound) {f : Field} {r : OrderedMap String String}
    (hnone : t.fields.get? f.key = none)
    (he : t.addField f = { t with fields := t.fields.put f.key f, renamed := r })
    (hr : r = t.renamed ∧ (∀ c, f.columnName? = some c → c ∉ t.columnNames) ∨
      ∃ c, f.columnName? = some c ∧ r = t.renamed.put f.key (freeName t.columnNames c)) :
    t.Extends f (t.addField f) := by
  have hnew : f.key ∉ t.fields.keys := OrderedMap.get?_eq_none_iff.1 hnone
  rw [he]
  refine ⟨?_, fun k => OrderedMap.get?_put _ _ _ _, fun k hk => ?_, rfl, fun c hc => ?_⟩
  · show (t.fields.put _ _).keys = _
    rw [OrderedMap.keys_put, if_neg hnew]
  · rcases hr with ⟨rfl, -⟩ | ⟨c, -, rfl⟩
    · rfl
    · show (t.renamed.put _ _).get? k = _
      rw [OrderedMap.get?_put, if_neg hk]
  · change (r.get? f.key).or (((t.fields.put f.key f).get? f.key).bind Field.columnName?) = _ at hc
    rw [OrderedMap.get?_put, if_pos rfl] at hc
    rcases hr with ⟨rfl, hfree⟩ | ⟨c', -, rfl⟩
    · rw [h.renamed _ hnew] at hc
      exact hfree c hc
    · rw [OrderedMap.get?_put, if_pos rfl] at hc
      cases hc
      exact freeName_not_mem _ _

theorem Sound.extend (h : t.Sound) {f : Field} (hu : t.Extends f u) (hnew : f.key ∉ t.fields.keys)
    (hk : f.key ≠ t.uid) : u.Sound := by
  refine ⟨?_, fun k f' hf' => ?_, hu.uid ▸ h.uid, ?_, fun k hk => ?_, ?_, ?_⟩
  · rw [hu.keys]
    exact List.nodup_append_comm.1 (List.nodup_cons.2 ⟨hnew, h.nodup⟩)
  · rw [hu.field] at hf'
    split at hf'
    · cases hf'
      rename_i hkf
      exact hkf.symm
    · exact h.keyed k f' hf'
  · obtain ⟨c, hc⟩ := h.uidColumn
    refine ⟨c, ?_⟩
    rw [hu.uid, hu.field, if_neg (Ne.symm hk), hc]
  · rw [hu.keys, List.mem_append, List.mem_singleton, not_or] at hk
    rw [hu.renamed k hk.2]
    exact h.renamed k hk.1
  · rw [hu.uid, hu.renamed _ (Ne.symm hk)]
    exact h.uidRenamed
  · intro k k' c hk hk' hc hc'
    rw [hu.keys, List.mem_append, List.mem_singleton] at hk hk'
    by_cases hkf : k = f.key <;> by_cases hkf' : k' = f.key
    · rw [hkf, hkf']
    · rw [hu.columnName? hkf'] at hc'
      exact absurd (mem_columnNames.2 ⟨k', hk'.resolve_right hkf', hc'⟩) (hu.free c (hkf ▸ hc))
    · rw [hu.columnName? hkf] at hc
      exact absurd (mem_columnNames.2 ⟨k, hk.resolve_right hkf, hc⟩) (hu.free c (hkf' ▸ hc'))
    · rw [hu.columnName? hkf] at hc
      rw [hu.columnName? hkf'] at hc'
      exact h.columns k k' c (hk.resolve_right hkf) (hk'.resolve_right hkf') hc hc'

theorem Sound.addField (h : t.Sound) (f : Field) : (t.addField f).Sound := by
  rcases addField_cases t f with ⟨-, he⟩ | ⟨hk, g, hg, -⟩ | ⟨hk, hnone, r, he, hr⟩
  · rw [he]
    exact h
  · exact h.addField_known hk hg
  · exact h.extend (h.extends_addField hnone he hr) (OrderedMap.get?_eq_none_iff.1 hnone) hk

theorem Sound.relax (h : t.Sound) (key : String) :
    ({ t with fields := t.fields.modify key Field.relaxed } : Table).Sound := by
  have hkeys : (t.fields.modify key Field.relaxed).keys = t.fields.keys :=
    OrderedMap.keys_modify _ _ _
  have hgrows := (Grows.refl t).relax key
  refine ⟨hkeys ▸ h.nodup, ?_, h.uid, ?_, fun k hk => h.renamed k (hkeys ▸ hk), h.uidRenamed,
    h.columns_of_grows hgrows hkeys⟩
  · intro k f hf
    change (t.fields.modify key Field.relaxed).get? k = some f at hf
    rw [OrderedMap.get?_modify] at hf
    split at hf
    · obtain ⟨g, hg, rfl⟩ := Option.map_eq_some_iff.1 hf
      rw [Field.key_relaxed, h.keyed k g hg]
    · exact h.keyed k f hf
  · obtain ⟨c, hc⟩ := h.uidColumn
    obtain ⟨f, hf, hcf⟩ := hgrows.field hc
    cases hcf with
    | @column _ b key optional => exact ⟨b, hf⟩

theorem Sound.grows (h : t.Sound) (htu : t.Grows u) : u.Sound := by
  induction htu with
  | refl => exact h
  | add _ f ih => exact ih.addField f
  | relax _ key ih => exact ih.relax key

/-- The identifier has the column of its name. -/
theorem Sound.columnName?_uid (h : t.Sound) : t.columnName? t.uid = some t.uidName := by
  obtain ⟨c, hc⟩ := h.uidColumn
  have hkey : c.key = t.uid := h.keyed _ _ hc
  unfold columnName? uidName
  rw [h.uidRenamed, hc, ← hkey]
  rfl

theorem Sound.mem_keys_uid (h : t.Sound) : t.uid ∈ t.fields.keys := by
  obtain ⟨c, hc⟩ := h.uidColumn
  exact OrderedMap.mem_keys_of_get? hc

theorem Sound.ne_uid_of_link (h : t.Sound) {key : String} {l : Link}
    (hf : t.fields.get? key = some (.link l)) : key ≠ t.uid := by
  rintro rfl
  obtain ⟨c, hc⟩ := h.uidColumn
  rw [hf] at hc
  cases hc

/-- Only the identifier has the column of its name. -/
theorem Sound.eq_uid (h : t.Sound) {k : String} (hk : k ∈ t.fields.keys)
    (hc : t.columnName? k = some t.uidName) : k = t.uid :=
  h.columns k t.uid _ hk h.mem_keys_uid hc h.columnName?_uid

/-! ### Keys -/

/-- The table has a field of this key, or identifies its rows by it. -/
def HasKey (t : Table) (key : String) : Prop := key = t.uid ∨ key ∈ t.fields.keys

theorem HasKey.grows {t u : Table} {key : String} (h : t.HasKey key) (htu : t.Grows u) :
    u.HasKey key := by
  rcases h with h | h
  · exact Or.inl (h.trans htu.uid.symm)
  · exact Or.inr (htu.mem_keys h)

theorem hasKey_addField (t : Table) (f : Field) : (t.addField f).HasKey f.key := by
  rcases addField_cases t f with ⟨hk, he⟩ | ⟨-, g, -, he⟩ | ⟨-, -, r, he, -⟩
  · rw [he]
    exact Or.inl hk
  · rw [he]
    exact Or.inr (OrderedMap.mem_keys_put.2 (Or.inl rfl))
  · rw [he]
    exact Or.inr (OrderedMap.mem_keys_put.2 (Or.inl rfl))

theorem Sound.exists_field {t : Table} (h : t.Sound) {key : String} (hkey : t.HasKey key) :
    ∃ f, t.fields.get? key = some f := by
  rcases hkey with rfl | hkey
  · exact OrderedMap.mem_keys_iff.1 h.mem_keys_uid
  · exact OrderedMap.mem_keys_iff.1 hkey

/-! ### Tables over many documents -/

theorem addField_numbered (t : Table) (f : Field) (n : Int) :
    ({ t with lastId := n } : Table).addField f = { t.addField f with lastId := n } := by
  unfold addField
  split
  · rfl
  · cases t.fields.get? f.key with
    | none => rfl
    | some g => rfl

/-- Growing does not depend on the numbers of rows. -/
theorem Grows.numbered (h : t.Grows u) (n : Int) :
    ({ t with lastId := n } : Table).Grows { u with lastId := n } := by
  induction h with
  | refl => exact .refl _
  | add _ f ih =>
    rw [← addField_numbered]
    exact ih.add f
  | relax _ key ih => exact ih.relax key

theorem Sound.numbered (h : t.Sound) (n : Int) : ({ t with lastId := n } : Table).Sound :=
  ⟨h.nodup, h.keyed, h.uid, h.uidColumn, h.renamed, h.uidRenamed, h.columns⟩

/-- What becomes of a table over documents: it grows, and the numbers of its rows go on. -/
def Becomes (t u : Table) : Prop := ({ t with lastId := u.lastId } : Table).Grows u

theorem Grows.becomes (h : t.Grows u) : t.Becomes u := h.numbered u.lastId

theorem becomes_numbered (t : Table) (n : Int) : t.Becomes { t with lastId := n } := Grows.refl _

theorem Becomes.field (h : t.Becomes u) {k : String} {f : Field}
    (hf : t.fields.get? k = some f) : ∃ g, u.fields.get? k = some g ∧ f.Grows g :=
  Grows.field (t := { t with lastId := u.lastId }) h hf

theorem Becomes.columnName? (h : t.Becomes u) {k : String} {f : Field}
    (hf : t.fields.get? k = some f) :
    u.columnName? k = t.columnName? k ∨ u.columnName? k = none ∧ f.IsSingle :=
  Grows.columnName? (t := { t with lastId := u.lastId }) h hf

theorem Becomes.uid (h : t.Becomes u) : u.uid = t.uid :=
  Grows.uid (t := { t with lastId := u.lastId }) h

theorem Becomes.sound (h : t.Becomes u) (ht : t.Sound) : u.Sound :=
  (ht.numbered u.lastId).grows h

/-- A column that has a name in the end had it all along, or stood under another key: that of a link
that has lost its column since. -/
theorem Becomes.column_cases (h : t.Becomes u) (ht : t.Sound) {k k' c : String} {f f' : Field}
    (hf : u.fields.get? k = some f) (hc : u.columnName? k = some c)
    (hf' : t.fields.get? k' = some f') (hc' : t.columnName? k' = some c) :
    k' = k ∨ k' ≠ k ∧ f'.IsSingle := by
  by_cases hk : k' = k
  · exact Or.inl hk
  · refine Or.inr ⟨hk, ?_⟩
    rcases h.columnName? hf' with he | ⟨-, hsingle⟩
    · obtain ⟨g, hg, -⟩ := h.field hf'
      exact absurd ((h.sound ht).columns k' k c (OrderedMap.mem_keys_of_get? hg)
        (OrderedMap.mem_keys_of_get? hf) (he.trans hc') hc) hk
    · exact hsingle

theorem Becomes.uidName (h : t.Becomes u) : u.uidName = t.uidName :=
  Grows.uidName (t := { t with lastId := u.lastId }) h

theorem Becomes.trans {v : Table} (h : t.Becomes u) (h' : u.Becomes v) : t.Becomes v :=
  (Grows.numbered h v.lastId).trans h'

end Sound

end Table
end FeatureTables
