import FeatureTables.Model.Data
import FeatureTables.Proofs.Json.Reading
import FeatureTables.Proofs.OrderedMap

/-!
Models come back from their JSON form, as it is read back from a text: exactly those do whose binary
numbers are all finite and whose types are not nested too deep (`Model.settled`). Any other one is refused
as a whole.
-/

namespace FeatureTables

open Number
open OrderedMap (lookup_cons_ite)

namespace Json

/-! ### Plain values -/

theorem asInt?_int (bits : Nat) {n : Int} (hlow : -(Nat.pow 2 (bits - 1) : Int) ≤ n)
    (hhigh : n < (Nat.pow 2 (bits - 1) : Int)) : asInt? bits (Json.int n) = some n := by
  unfold Json.int
  split
  · rename_i hn
    rw [asInt?, if_pos (by omega)]
    congr
    omega
  · rename_i hn
    rw [asInt?, if_pos (by omega)]
    congr
    omega

theorem isSound_nat (n : Nat) : (Json.nat n).isSound = true := rfl

theorem asNat?_nat {max n : Nat} (h : n ≤ max) : asNat? max (Json.nat n) = some n := by
  rw [Json.nat, asNat?, if_pos h]

/-- The fields of an object that names fields of the record only, each one once. -/
theorem fields?_object {names : List String} {members : List (String × Json)} (strict : Bool)
    (hnames : ∀ k ∈ members.map (·.1), k ∈ names) (hnodup : (members.map (·.1)).Nodup) :
    fields? names strict (object members) = some ⟨members, false⟩ := by
  have hknown : (members.filter fun m => names.contains m.1) = members :=
    List.filter_eq_self.2 fun m hm => by simpa using hnames _ (List.mem_map_of_mem hm)
  simp only [fields?, hknown]
  exact if_neg (by simp [hnodup])

/-! ### Lists and maps -/

section Lists

variable {α β : Type} {write : α → Json} {read? : Json → Option α} {kept : α → Prop} {room : Nat}

/-- What `write` makes of the value is read back as the value if it is one of those that are kept, and is
refused otherwise. -/
structure Settled (write : α → Json) (read? : Json → Option α) (kept : α → Prop) (room : Nat) (a : α) :
    Prop where
  back : kept a → read? ((write a).reread room) = some a
  refused : ¬ kept a → read? ((write a).reread room) = none

/-- Parts that are each read back or refused make a list that is read back if all of them are. -/
theorem mapM_eq_some {f : β → Option α} {g : α → β} {as : List α} (h : ∀ a ∈ as, f (g a) = some a) :
    (as.map g).mapM f = some as := by
  induction as with
  | nil => rfl
  | cons a as ih =>
    rw [List.map_cons, List.mapM_cons, h a List.mem_cons_self,
      ih fun b hb => h b (List.mem_cons_of_mem _ hb)]
    rfl

theorem mapM_eq_none {f : β → Option α} {bs : List β} {b : β} (hb : b ∈ bs) (h : f b = none) :
    bs.mapM f = none := by
  induction bs with
  | nil => cases hb
  | cons c bs ih =>
    rw [List.mapM_cons]
    rcases List.mem_cons.1 hb with rfl | hb
    · rw [h]
      rfl
    · rw [ih hb]
      cases f c <;> rfl

theorem asList?_settled {as : List α} (h : ∀ a ∈ as, Settled write read? kept room a) :
    Settled (fun as => array (as.map write)) (asList? read?) (fun as => ∀ a ∈ as, kept a) (room + 1) as where
  back hkept := by
    rw [reread_array, List.map_map, asList?]
    exact mapM_eq_some fun a ha => (h a ha).back (hkept a ha)
  refused hkept := by
    obtain ⟨a, ha, hnot⟩ : ∃ a ∈ as, ¬ kept a := by simpa using hkept
    rw [reread_array, List.map_map, asList?]
    exact mapM_eq_none (List.mem_map_of_mem ha) ((h a ha).refused hnot)

theorem put_of_not_mem {ms : List (String × α)} {k : String} {v : α} (h : k ∉ ms.map (·.1)) :
    put k v ms = ms ++ [(k, v)] := by
  induction ms with
  | nil => rfl
  | cons m ms ih =>
    rw [List.map_cons, List.mem_cons, not_or] at h
    rw [put, if_neg (Ne.symm h.1), ih h.2, List.cons_append]

/-- Members of different keys stay as they are. -/
theorem foldl_put {before ms : List (String × α)} (h : ((before ++ ms).map (·.1)).Nodup) :
    ms.foldl (fun ms m => put m.1 m.2 ms) before = before ++ ms := by
  induction ms generalizing before with
  | nil => simp
  | cons m ms ih =>
    obtain ⟨k, v⟩ := m
    have hm : k ∉ before.map (·.1) := by
      intro hm
      rw [List.map_append, List.nodup_append] at h
      exact h.2.2 k hm k List.mem_cons_self rfl
    rw [List.append_cons] at h
    show ms.foldl _ (put k v before) = _
    rw [put_of_not_mem hm, ih h, ← List.append_cons]

theorem asMap?_object (ms : List (String × Json)) : asMap? read? (object ms) =
    (ms.mapM fun m => (read? m.2).map fun v => (m.1, v)).map fun es =>
      es.foldl (fun es e => put e.1 e.2 es) [] := by
  rw [Option.map_eq_bind]
  rfl

theorem ofJson?_settled {m : OrderedMap String α} (hnodup : m.keys.Nodup)
    (h : ∀ a ∈ m.values, Settled write read? kept room a) :
    Settled (OrderedMap.toJson write) (OrderedMap.ofJson? read?) (fun m => ∀ a ∈ m.values, kept a)
      (room + 1) m := by
  obtain ⟨es⟩ := m
  have hone : ∀ e ∈ es, Settled write read? kept room e.2 := fun e he => h e.2 (List.mem_map_of_mem he)
  have hreread : (OrderedMap.toJson write ⟨es⟩).reread (room + 1) =
      object (es.map fun e => (e.1, (write e.2).reread room)) := by
    rw [OrderedMap.toJson, reread_object, List.map_map]
    rfl
  constructor
  · intro hkept
    have hpairs : (es.map fun e => (e.1, (write e.2).reread room)).mapM
        (fun m => (read? m.2).map fun v => (m.1, v)) = some es := mapM_eq_some fun e he =>
      congrArg (Option.map _) ((hone e he).back (hkept _ (List.mem_map_of_mem he)))
    rw [hreread, OrderedMap.ofJson?, asMap?_object, hpairs, Option.map_some, Option.map_some,
      foldl_put (by exact hnodup), List.nil_append]
  · intro hkept
    obtain ⟨_, hmem, hnot⟩ : ∃ a ∈ (OrderedMap.mk es).values, ¬ kept a := by
      by_contra hall
      exact hkept fun a ha => by_contra fun hnot => hall ⟨a, ha, hnot⟩
    obtain ⟨e, he, rfl⟩ := List.mem_map.1 hmem
    have hpairs : (es.map fun e => (e.1, (write e.2).reread room)).mapM
        (fun m => (read? m.2).map fun v => (m.1, v)) = none :=
      mapM_eq_none (List.mem_map_of_mem he) (congrArg (Option.map _) ((hone e he).refused hnot))
    rw [hreread, OrderedMap.ofJson?, asMap?_object, hpairs]
    rfl

end Lists

end Json

/-! ### Values and rows -/

open Json

/-- The value is no binary number, or a finite one. -/
def Value.IsFinite : Value → Prop
  | real x => x.isFinite = true
  | _ => True

/-- The value is within the words that hold it. -/
def Value.InRange : Value → Prop
  | int n => -(Nat.pow 2 63 : Int) ≤ n ∧ n < (Nat.pow 2 63 : Int)
  | geometry _ srid => -(Nat.pow 2 31 : Int) ≤ srid ∧ srid < (Nat.pow 2 31 : Int)
  | _ => True

instance : (v : Value) → Decidable v.IsFinite
  | .real x => inferInstanceAs (Decidable (x.isFinite = true))
  | .int _ | .bool _ | .text _ | .geometry .. => inferInstanceAs (Decidable True)

instance : (v : Value) → Decidable v.InRange
  | .int n => inferInstanceAs (Decidable (-(Nat.pow 2 63 : Int) ≤ n ∧ n < (Nat.pow 2 63 : Int)))
  | .geometry _ srid => inferInstanceAs
      (Decidable (-(Nat.pow 2 31 : Int) ≤ srid ∧ srid < (Nat.pow 2 31 : Int)))
  | .real _ | .bool _ | .text _ => inferInstanceAs (Decidable True)

theorem Value.settled {v : Value} (h : v.InRange) (room : Nat) :
    Settled Value.toJson Value.ofJson? Value.IsFinite (room + 2) v := by
  cases v with
  | int n =>
    refine ⟨fun _ => ?_, fun hno => absurd trivial hno⟩
    simp [Value.toJson, reread_object, reread_int, Value.ofJson?, case?, asInt?_int 64 h.1 h.2]
  | real x =>
    refine ⟨fun (hx : x.isFinite = true) => ?_, fun (hx : ¬ x.isFinite = true) => ?_⟩
    · rw [Value.toJson, reread_object, List.map_cons, reread_real, if_pos hx]
      rfl
    · rw [Value.toJson, reread_object, List.map_cons, reread_real, if_neg hx]
      rfl
  | bool b => exact ⟨fun _ => rfl, fun hno => absurd trivial hno⟩
  | text s => exact ⟨fun _ => rfl, fun hno => absurd trivial hno⟩
  | geometry wkt srid =>
    refine ⟨fun _ => ?_, fun hno => absurd trivial hno⟩
    simp [Value.toJson, reread_object, reread_int, reread_string, Value.ofJson?, Value.geometryOfJson?, case?,
      fields?_object, Fields.required, lookup_cons_ite, asString?, asInt?_int 32 h.1 h.2]

theorem Row.settled {r : Row} (h : ∀ c ∈ r.cells, c.2.InRange) (room : Nat) :
    Settled Row.toJson Row.ofJson? (fun r => ∀ c ∈ r.cells, c.2.IsFinite) (room + 5) r := by
  have hcell : ∀ c ∈ r.cells, Settled (fun c : String × Value => array [.string c.1, c.2.toJson])
      (asPair? asString? Value.ofJson?) (fun c => c.2.IsFinite) (room + 3) c := by
    intro c hc
    have hvalue := Value.settled (h c hc) room
    constructor
    · intro hkept
      simp [reread_array, reread_string, asPair?, asString?, hvalue.back hkept]
    · intro hkept
      simp [reread_array, reread_string, asPair?, asString?, hvalue.refused hkept]
  have hcells := asList?_settled hcell
  constructor
  · intro hkept
    have hback := hcells.back hkept
    simp [Row.toJson, reread_object, Row.ofJson?, fields?_object, Fields.required, hback]
  · intro hkept
    have hrefused := hcells.refused hkept
    simp [Row.toJson, reread_object, Row.ofJson?, fields?_object, Fields.required, hrefused]

/-! ### Types -/

namespace SqlType

/-- How many lists stand in each other. -/
def levels : SqlType → Nat
  | list item => item.levels + 1
  | _ => 0

theorem isSound_toJson (t : SqlType) : t.toJson.isSound = true := by
  induction t with
  | list item ih => simpa [toJson, isSound, membersAreSound] using ih
  | _ => rfl

/-- A type of few enough levels is read back. -/
theorem reread_toJson {t : SqlType} {room : Nat} (h : t.levels ≤ room) : t.toJson.reread room = t.toJson := by
  induction t generalizing room with
  | list item ih =>
    obtain ⟨room, rfl⟩ := Nat.exists_eq_add_one_of_ne_zero (by simp [levels] at h; omega : room ≠ 0)
    rw [toJson, reread_object, List.map_cons, ih (Nat.le_of_succ_le_succ h), List.map_nil]
  | _ => rfl

/-- A type of too many levels leaves something unreadable. -/
theorem not_isSound_reread {t : SqlType} {room : Nat} (h : room < t.levels) :
    (t.toJson.reread room).isSound = false := by
  induction t generalizing room with
  | list item ih =>
    cases room with
    | zero => rfl
    | succ room => simp [toJson, reread_object, isSound, membersAreSound, ih (Nat.lt_of_succ_lt_succ h)]
  | _ => exact absurd h (Nat.not_lt_zero _)

theorem ofCase?_toJson {isBare : Option Json → Bool} (h : isBare none = true) (t : SqlType) :
    ofCase? isBare t.toJson = some t := by
  induction t with
  | list item ih => simp [toJson, ofCase?, ih]
  | _ => simp [toJson, ofCase?, case?, h, lookup_cons_ite]

end SqlType

/-! ### Fields -/

namespace Field

/-- How many lists stand in each other in the type of the field. -/
def levels : Field → Nat
  | column c => c.type.levels
  | link l => l.type.levels
  | backLink b => b.type.levels
  | geometry _ => 0

/-- The numbers of the field are within the words that hold them. -/
def InRange : Field → Prop
  | link l => l.occurs.min ≤ countMax ∧ ∀ n, l.occurs.max = .bounded n → n ≤ countMax
  | geometry g => g.dimension ≤ 255 ∧ -(Nat.pow 2 31 : Int) ≤ g.srid ∧ g.srid < (Nat.pow 2 31 : Int)
  | _ => True

instance : (o : MaxOccurs) → Decidable (∀ n, o = .bounded n → n ≤ countMax)
  | .bounded n => decidable_of_iff (n ≤ countMax)
      ⟨fun h _ hn => MaxOccurs.bounded.inj hn ▸ h, fun h => h n rfl⟩
  | .unbounded => isTrue fun _ h => nomatch h

instance : (f : Field) → Decidable f.InRange
  | .link l => inferInstanceAs
      (Decidable (l.occurs.min ≤ countMax ∧ ∀ n, l.occurs.max = .bounded n → n ≤ countMax))
  | .geometry g => inferInstanceAs (Decidable
      (g.dimension ≤ 255 ∧ -(Nat.pow 2 31 : Int) ≤ g.srid ∧ g.srid < (Nat.pow 2 31 : Int)))
  | .column _ | .backLink _ => inferInstanceAs (Decidable True)

theorem sqlType?_toJson (t : SqlType) : sqlType? t.toJson = some t :=
  SqlType.ofCase?_toJson rfl t

theorem maxOccurs?_toJson {o : MaxOccurs} (h : ∀ n, o = .bounded n → n ≤ countMax) :
    maxOccurs? o.toJson = some o := by
  cases o with
  | bounded n => simp [MaxOccurs.toJson, maxOccurs?, case?, asNat?_nat (h n rfl)]
  | unbounded => rfl

theorem option_string (s? : Option String) : asOption? asString? (Json.option .string s?) = some s? := by
  cases s? <;> rfl

theorem kind?_object {kind : String} {members : List (String × Json)} (h : "kind" ∉ members.map (·.1)) :
    Field.kind? (.object (("kind", .string kind) :: members)) = some (kind, .object members) := by
  have hother : ∀ m ∈ members, m.1 ≠ "kind" := fun m hm heq => h (heq ▸ List.mem_map_of_mem hm)
  have hnone : (members.filter fun m => m.1 == "kind") = [] :=
    List.filter_eq_nil_iff.2 fun m hm => by simpa using hother m hm
  have hall : (members.filter fun m => m.1 != "kind") = members :=
    List.filter_eq_self.2 fun m hm => by simpa using hother m hm
  simp [Field.kind?, hnone, hall]

/-- A field is read from its own form. -/
theorem ofJson?_toJson {f : Field} (h : f.InRange) : Field.ofJson? f.toJson = some f := by
  cases f with
  | column c =>
    simp [Field.toJson, Field.ofJson?, isSound, membersAreSound, SqlType.isSound_toJson, kind?_object,
      Column.ofJson?, fields?_object, Fields.required, lookup_cons_ite, asString?, asBool?, sqlType?_toJson]
  | link l =>
    have hmax : l.occurs.max.toJson.isSound = true := by
      cases l.occurs.max <;> rfl
    have hgroup : (Json.option Json.string l.group?).isSound = true := by
      cases l.group? <;> rfl
    simp [Field.toJson, Field.ofJson?, isSound, membersAreSound, SqlType.isSound_toJson, hmax, hgroup,
      isSound_nat, kind?_object, Link.ofJson?, fields?_object, Fields.required, Fields.optional,
      lookup_cons_ite, asString?, asBool?, sqlType?_toJson, maxOccurs?_toJson h.2, asNat?_nat h.1,
      option_string]
  | backLink b =>
    simp [Field.toJson, Field.ofJson?, isSound, membersAreSound, SqlType.isSound_toJson, kind?_object,
      BackLink.ofJson?, fields?_object, Fields.required, lookup_cons_ite, asString?, sqlType?_toJson]
  | geometry g =>
    have hsrid : (Json.int g.srid).isSound = true := by
      unfold Json.int
      split <;> rfl
    simp [Field.toJson, Field.ofJson?, isSound, membersAreSound, hsrid, isSound_nat, kind?_object,
      GeometryColumn.ofJson?, fields?_object, Fields.required, lookup_cons_ite, asString?, asBool?,
      asNat?_nat h.1, asInt?_int 32 h.2.1 h.2.2]

/-- The form of a field of few enough levels is read back. -/
theorem reread_toJson {f : Field} {room : Nat} (h : f.levels ≤ room + 1) :
    f.toJson.reread (room + 2) = f.toJson := by
  cases f with
  | column c =>
    simp [Field.toJson, reread_object, reread_string, reread_bool, SqlType.reread_toJson h]
  | link l =>
    have hmax : l.occurs.max.toJson.reread (room + 1) = l.occurs.max.toJson := by
      cases l.occurs.max <;> rfl
    have hgroup : (Json.option Json.string l.group?).reread (room + 1) = Json.option .string l.group? := by
      cases l.group? <;> rfl
    simp [Field.toJson, reread_object, reread_string, reread_bool, reread_nat, SqlType.reread_toJson h, hmax,
      hgroup]
  | backLink b => simp [Field.toJson, reread_object, reread_string, SqlType.reread_toJson h]
  | geometry g => simp [Field.toJson, reread_object, reread_string, reread_bool, reread_nat, reread_int]

/-- That of too many levels leaves something unreadable. -/
theorem not_isSound_reread {f : Field} {room : Nat} (h : room < f.levels) :
    (f.toJson.reread (room + 1)).isSound = false := by
  cases f with
  | column c => simp [Field.toJson, reread_object, isSound, membersAreSound, SqlType.not_isSound_reread h]
  | link l => simp [Field.toJson, reread_object, isSound, membersAreSound, SqlType.not_isSound_reread h]
  | backLink b => simp [Field.toJson, reread_object, isSound, membersAreSound, SqlType.not_isSound_reread h]
  | geometry g => exact absurd h (Nat.not_lt_zero _)

theorem settled {f : Field} (h : f.InRange) (room : Nat) :
    Settled Field.toJson Field.ofJson? (fun f => f.levels ≤ room + 1) (room + 2) f where
  back hlevels := by
    rw [reread_toJson hlevels]
    exact ofJson?_toJson h
  refused hlevels := by
    have hsound := not_isSound_reread (Nat.not_le.1 hlevels)
    simp [Field.ofJson?, hsound]

end Field

/-! ### Tables and models -/

/-- The numbers of the table are within the words that hold them, and its maps have each key once. -/
structure Table.InRange (t : Table) : Prop where
  fields : ∀ f ∈ t.fields.values, f.InRange
  keys : t.fields.keys.Nodup
  lastId : -(Nat.pow 2 63 : Int) ≤ t.lastId ∧ t.lastId < (Nat.pow 2 63 : Int)
  renamed : t.renamed.keys.Nodup

instance (t : Table) : Decidable t.InRange :=
  decidable_of_iff ((∀ f ∈ t.fields.values, f.InRange) ∧ t.fields.keys.Nodup ∧
      (-(Nat.pow 2 63 : Int) ≤ t.lastId ∧ t.lastId < (Nat.pow 2 63 : Int)) ∧ t.renamed.keys.Nodup)
    ⟨fun ⟨hf, hk, hl, hr⟩ => ⟨hf, hk, hl, hr⟩, fun ⟨hf, hk, hl, hr⟩ => ⟨hf, hk, hl, hr⟩⟩

/-- No type of a field of the table has more lists in each other. -/
def Table.LevelsWithin (room : Nat) (t : Table) : Prop := ∀ f ∈ t.fields.values, f.levels ≤ room

theorem Table.settled {t : Table} (h : t.InRange) (room : Nat) :
    Settled Table.toJson Table.ofJson? (Table.LevelsWithin (room + 1)) (room + 4) t := by
  have hfields := ofJson?_settled h.keys fun f hf => Field.settled (h.fields f hf) room
  have hrenamed : OrderedMap.ofJson? asString? ((t.renamed.toJson .string).reread (room + 3)) =
      some t.renamed := by
    have htext : ∀ s ∈ t.renamed.values, Settled Json.string asString? (fun _ => True) (room + 2) s :=
      fun _ _ => ⟨fun _ => rfl, fun hno => absurd trivial hno⟩
    exact (ofJson?_settled h.renamed htext).back fun _ _ => trivial
  have hread : Table.ofJson? (t.toJson.reread (room + 4)) =
      (OrderedMap.ofJson? Field.ofJson? ((t.fields.toJson Field.toJson).reread (room + 3))).map fun fields =>
        { t with fields } := by
    cases hempty : t.renamed.entries.isEmpty with
    | true =>
      have hnone : t.renamed = {} := congrArg OrderedMap.mk (List.isEmpty_iff.1 hempty)
      simp [Table.toJson, hnone, reread_object, reread_string, reread_bool, reread_int, Table.ofJson?,
        fields?_object, Fields.required, Fields.defaulted, lookup_cons_ite, asString?, asBool?,
        asInt?_int 64 h.lastId.1 h.lastId.2, Option.map_eq_bind, Function.comp_def]
    | false =>
      simp [Table.toJson, hempty, reread_object, reread_string, reread_bool, reread_int, Table.ofJson?,
        fields?_object, Fields.required, Fields.defaulted, lookup_cons_ite, asString?, asBool?,
        asInt?_int 64 h.lastId.1 h.lastId.2, hrenamed, Option.map_eq_bind, Function.comp_def]
  constructor
  · intro hlevels
    rw [hread, hfields.back hlevels]
    rfl
  · intro hlevels
    rw [hread, hfields.refused hlevels]
    rfl

namespace Model

/-- All fields of the tables. -/
def fields (m : Model) : List Field := m.tables.values.flatMap fun t => t.fields.values

/-- What the cells of all rows hold. -/
def cellValues (m : Model) : List Value :=
  m.rows.values.flatMap fun rs => rs.flatMap fun r => r.cells.map (·.2)

theorem mem_cellValues {m : Model} {v : Value} :
    v ∈ m.cellValues ↔ ∃ rs ∈ m.rows.values, ∃ r ∈ rs, ∃ c ∈ r.cells, c.2 = v := by
  simp only [cellValues, List.mem_flatMap, List.mem_map]

/-- The numbers of the model are within the words that hold them, and its maps have each key once. -/
structure InRange (m : Model) : Prop where
  tables : ∀ t ∈ m.tables.values, t.InRange
  tableNames : m.tables.keys.Nodup
  values : ∀ v ∈ m.cellValues, v.InRange
  rowNames : m.rows.keys.Nodup

/-- The model comes back from a text with so many levels for the types of its fields. -/
structure Kept (levels : Nat) (m : Model) : Prop where
  fields : ∀ f ∈ m.fields, f.levels ≤ levels
  values : ∀ v ∈ m.cellValues, v.IsFinite

instance (m : Model) : Decidable m.InRange :=
  decidable_of_iff ((∀ t ∈ m.tables.values, t.InRange) ∧ m.tables.keys.Nodup ∧
      (∀ v ∈ m.cellValues, v.InRange) ∧ m.rows.keys.Nodup)
    ⟨fun ⟨ht, hn, hv, hr⟩ => ⟨ht, hn, hv, hr⟩, fun ⟨ht, hn, hv, hr⟩ => ⟨ht, hn, hv, hr⟩⟩

instance (levels : Nat) (m : Model) : Decidable (m.Kept levels) :=
  decidable_of_iff ((∀ f ∈ m.fields, f.levels ≤ levels) ∧ ∀ v ∈ m.cellValues, v.IsFinite)
    ⟨fun ⟨hf, hv⟩ => ⟨hf, hv⟩, fun ⟨hf, hv⟩ => ⟨hf, hv⟩⟩

theorem settled {m : Model} (h : m.InRange) (room : Nat) :
    Settled Model.toJson Model.ofJson? (Kept (room + 3)) (room + 8) m := by
  have htables := ofJson?_settled h.tableNames fun t ht => Table.settled (h.tables t ht) (room + 2)
  have hrows := ofJson?_settled h.rowNames fun rs hrs => asList?_settled fun r hr =>
    Row.settled (fun c hc => h.values _ (mem_cellValues.2 ⟨rs, hrs, r, hr, c, hc, rfl⟩)) room
  have hroot : asOption? asString? ((Json.option Json.string m.rootTable?).reread (room + 7)) =
      some m.rootTable? := by
    cases m.rootTable? <;> rfl
  have hread : Model.ofJson? (m.toJson.reread (room + 8)) =
      (OrderedMap.ofJson? Table.ofJson? ((m.tables.toJson Table.toJson).reread (room + 7))).bind fun tables =>
        (OrderedMap.ofJson? (asList? Row.ofJson?)
          ((m.rows.toJson fun rows => array (rows.map Row.toJson)).reread (room + 7))).map fun rows =>
            { m with tables, rows } := by
    simp [Model.toJson, reread_object, Model.ofJson?, fields?_object, Fields.required, Fields.optional,
      lookup_cons_ite, hroot, Option.map_eq_bind, Function.comp_def]
  have hlevels : (∀ t ∈ m.tables.values, t.LevelsWithin (room + 3)) ↔ ∀ f ∈ m.fields, f.levels ≤ room + 3 := by
    simp only [Table.LevelsWithin, fields, List.mem_flatMap]
    exact ⟨fun h f ⟨t, ht, hf⟩ => h t ht f hf, fun h t ht f hf => h f ⟨t, ht, hf⟩⟩
  have hfinite : (∀ rs ∈ m.rows.values, ∀ r ∈ rs, ∀ c ∈ r.cells, c.2.IsFinite) ↔
      ∀ v ∈ m.cellValues, v.IsFinite := by
    simp only [mem_cellValues]
    exact ⟨fun h v ⟨rs, hrs, r, hr, c, hc, hv⟩ => hv ▸ h rs hrs r hr c hc,
      fun h rs hrs r hr c hc => h _ ⟨rs, hrs, r, hr, c, hc, rfl⟩⟩
  constructor
  · intro hkept
    rw [hread, htables.back (hlevels.2 hkept.fields), hrows.back (hfinite.2 hkept.values)]
    rfl
  · intro hkept
    rw [hread]
    by_cases hfields : ∀ f ∈ m.fields, f.levels ≤ room + 3
    · rw [htables.back (hlevels.2 hfields),
        hrows.refused fun hvalues => hkept ⟨hfields, hfinite.1 hvalues⟩]
      rfl
    · rw [htables.refused fun h => hfields (hlevels.1 h)]
      rfl

end Model

/-! ### Numbers -/

theorem SqlType.exact_toJson (t : SqlType) : t.toJson.Exact := by
  induction t with
  | list item ih => simpa [toJson, exact_object] using ih
  | _ => exact exact_string _

theorem Field.exact_toJson {f : Field} (h : f.InRange) : f.toJson.Exact := by
  have hword : ∀ {n}, n ≤ countMax → n ≤ wordMax := fun hn => Nat.le_trans hn (by decide)
  cases f with
  | column c => simp [Field.toJson, exact_object, exact_string, exact_bool, SqlType.exact_toJson]
  | link l =>
    have hmax : l.occurs.max.toJson.Exact := by
      cases hmax : l.occurs.max with
      | bounded n => simpa [MaxOccurs.toJson, exact_object] using exact_nat (hword (h.2 n hmax))
      | unbounded => exact exact_string _
    have hgroup : (Json.option Json.string l.group?).Exact := by
      cases l.group? with
      | none => exact exact_null
      | some s => exact exact_string s
    simp [Field.toJson, exact_object, exact_string, exact_bool, SqlType.exact_toJson,
      exact_nat (hword h.1), hmax,
      hgroup]
  | backLink b => simp [Field.toJson, exact_object, exact_string, SqlType.exact_toJson]
  | geometry g =>
    have hdimension : g.dimension ≤ wordMax := Nat.le_trans h.1 (by decide)
    simp [Field.toJson, exact_object, exact_string, exact_bool, exact_nat hdimension,
      exact_int (by decide) h.2]

theorem OrderedMap.exact_toJson {α : Type} {write : α → Json} {m : OrderedMap String α}
    (h : ∀ a ∈ m.values, (write a).Exact) : (m.toJson write).Exact := by
  refine exact_object.2 fun e he => ?_
  obtain ⟨⟨k, v⟩, hkv, rfl⟩ := List.mem_map.1 he
  exact h v (List.mem_map_of_mem hkv)

theorem Table.exact_toJson {t : Table} (h : t.InRange) : t.toJson.Exact := by
  have hfields := OrderedMap.exact_toJson fun f hf => Field.exact_toJson (h.fields f hf)
  have hrenamed := OrderedMap.exact_toJson fun s (_ : s ∈ t.renamed.values) => exact_string s
  have hlastId := exact_int (by decide) h.lastId
  unfold Table.toJson
  split <;> simp [exact_object, exact_string, exact_bool, hfields, hrenamed, hlastId]

theorem Value.exact_toJson {v : Value} (h : v.InRange)
    (hreal : ∀ x, v = .real x → x.isFinite = true → x.ReadsBack) : v.toJson.Exact := by
  cases v with
  | int n => simpa [Value.toJson, exact_object] using exact_int (by decide) h
  | real x => simpa [Value.toJson, exact_object] using exact_real (hreal x rfl)
  | bool b => simpa [Value.toJson, exact_object] using exact_bool b
  | text s => simpa [Value.toJson, exact_object] using exact_string s
  | geometry wkt srid => simp [Value.toJson, exact_object, exact_string, exact_int (by decide) h]

/-- The numbers of a model are exact if those finite ones among its binary ones are. -/
theorem Model.exact_toJson {m : Model} (h : m.InRange)
    (hreals : ∀ x, Value.real x ∈ m.cellValues → x.isFinite = true → x.ReadsBack) : m.toJson.Exact := by
  have htables := OrderedMap.exact_toJson fun t ht => Table.exact_toJson (h.tables t ht)
  have hrow : ∀ rs ∈ m.rows.values, (array (rs.map Row.toJson)).Exact := by
    intro rs hrs
    refine exact_array.2 fun j hj => ?_
    obtain ⟨r, hr, rfl⟩ := List.mem_map.1 hj
    have hcell : ∀ c ∈ r.cells, c.2.toJson.Exact := fun c hc =>
      have hmem := mem_cellValues.2 ⟨rs, hrs, r, hr, c, hc, rfl⟩
      Value.exact_toJson (h.values _ hmem) fun x hx => hreals x (hx ▸ hmem)
    have hcells : (array (r.cells.map fun c => .array [.string c.1, c.2.toJson])).Exact := by
      refine exact_array.2 fun j hj => ?_
      obtain ⟨c, hc, rfl⟩ := List.mem_map.1 hj
      simp [exact_array, exact_string, hcell c hc]
    simpa [Row.toJson, exact_object] using hcells
  have hrows := OrderedMap.exact_toJson hrow
  have hroot : (Json.option Json.string m.rootTable?).Exact := by
    cases m.rootTable? with
    | none => exact exact_null
    | some s => exact exact_string s
  simp [Model.toJson, exact_object, htables, hrows, hroot]

end FeatureTables
