import FeatureTables.Proofs.Table.Growth

/-!
Tables that are joined. Under each key but that of the identifier stand the fields of both tables, joined
if there are two (`get?_join`). So the first table grows, and its keys keep their columns, but for links
that the second one takes to repeat (`columnName?_join`). The keys of the second table do so as far
as both tables name their columns alike (`Sound.columns_join_iff`).
-/

namespace FeatureTables

namespace Field

theorem columnName?_join_links (a b : Link) : ((link a).join (.link b)).columnName? =
    if b.isMany then none else (link a).columnName? := by
  show (if (a.occurs.max.join b.occurs.max).isMany then none else some (Key.columnName a.key ++ "_id")) =
    if b.isMany then none else if a.isMany then none else some (Key.columnName a.key ++ "_id")
  rw [Link.isMany_join]
  cases a.isMany <;> cases b.isMany <;> rfl

theorem columnName?_join (f g : Field) : (f.join g).columnName? = f.columnName? ∨
    ∃ l l', f = .link l ∧ g = .link l' ∧ l.isMany = false ∧ l'.isMany = true := by
  cases f with
  | link a =>
    cases g with
    | link b =>
      rw [columnName?_join_links]
      cases hb : b.isMany with
      | false => exact Or.inl rfl
      | true =>
        cases ha : a.isMany with
        | false => exact Or.inr ⟨a, b, rfl, rfl, ha, hb⟩
        | true => exact Or.inl (by simp [columnName?, ha])
    | _ => exact Or.inl rfl
  | _ => cases g <;> exact Or.inl rfl

end Field

namespace Table

variable {t v : Table} {key : String}

/-! ### Fields -/

theorem get?_addField (t : Table) (f : Field) (key : String) :
    (t.addField f).fields.get? key = if key = f.key ∧ key ≠ t.uid then
      (t.fields.get? key).merge Field.join (some f) else t.fields.get? key := by
  rcases addField_cases t f with ⟨huid, he⟩ | ⟨huid, g, hg, he⟩ | ⟨huid, hnone, r, he, -⟩ <;> rw [he]
  · rw [if_neg]
    rintro ⟨rfl, hne⟩
    exact hne huid
  · show (t.fields.put f.key _).get? key = _
    rw [OrderedMap.get?_put]
    by_cases hkey : key = f.key
    · rw [if_pos hkey, if_pos ⟨hkey, hkey ▸ huid⟩, hkey, hg]
      rfl
    · rw [if_neg hkey, if_neg fun h => hkey h.1]
  · show (t.fields.put f.key _).get? key = _
    rw [OrderedMap.get?_put]
    by_cases hkey : key = f.key
    · rw [if_pos hkey, if_pos ⟨hkey, hkey ▸ huid⟩, hkey, hnone]
      rfl
    · rw [if_neg hkey, if_neg fun h => hkey h.1]

/-- Fields with distinct keys are added each under its own key. -/
theorem get?_addFields {es : List (String × Field)} (hes : (es.map (·.1)).Nodup)
    (hkeyed : ∀ e ∈ es, e.2.key = e.1) (t : Table) (key : String) :
    ((es.map (·.2)).foldl addField t).fields.get? key = if key = t.uid then t.fields.get? key else
      (t.fields.get? key).merge Field.join (es.lookup key) := by
  induction es generalizing t with
  | nil => simp
  | cons e es ih =>
    obtain ⟨a, f⟩ := e
    rw [List.map_cons, List.nodup_cons] at hes
    have hf : f.key = a := hkeyed (a, f) List.mem_cons_self
    rw [List.map_cons, List.foldl_cons, ih hes.2 fun e he => hkeyed e (List.mem_cons_of_mem _ he),
      addField_uid, get?_addField, hf, OrderedMap.lookup_cons_ite]
    by_cases huid : key = t.uid
    · simp [huid]
    · by_cases hkey : key = a
      · have hnone : es.lookup key = none := OrderedMap.get?_eq_none_iff (m := ⟨es⟩).2 (hkey ▸ hes.1)
        simp [hkey, hkey ▸ hnone]
      · simp [huid, hkey]

theorem Sound.keyed_entries (ht : t.Sound) : ∀ e ∈ t.fields.entries, e.2.key = e.1 :=
  fun _ he => ht.keyed _ _ (OrderedMap.get?_of_mem_entries ht.nodup he)

theorem get?_join (t : Table) (hv : v.Sound) (key : String) : (t.join v).fields.get? key =
    if key = t.uid then t.fields.get? key else
      (t.fields.get? key).merge Field.join (v.fields.get? key) :=
  get?_addFields hv.nodup hv.keyed_entries _ key

theorem mem_keys_addField {f : Field} : key ∈ (t.addField f).fields.keys ↔
    key = f.key ∧ key ≠ t.uid ∨ key ∈ t.fields.keys := by
  simp only [OrderedMap.mem_keys_iff, get?_addField]
  by_cases h : key = f.key ∧ key ≠ t.uid
  · rw [if_pos h]
    cases t.fields.get? key <;> exact iff_of_true ⟨_, rfl⟩ (Or.inl h)
  · rw [if_neg h, or_iff_right h]

/-! ### Growth -/

theorem grows_addFields (t : Table) (fs : List Field) : t.Grows (fs.foldl addField t) :=
  .foldl (fun t f => (Grows.refl t).add f) t fs

theorem grows_join (t v : Table) : ({ t with
    mergeable := t.mergeable && v.mergeable, lastId := max t.lastId v.lastId } : Table).Grows
      (t.join v) := grows_addFields _ _

theorem join_name (t v : Table) : (t.join v).name = t.name := (grows_join t v).name

theorem join_uidName (t v : Table) : (t.join v).uidName = t.uidName := (grows_join t v).uidName

theorem Sound.counted (ht : t.Sound) (mergeable : Bool) (lastId : Int) :
    ({ t with mergeable, lastId } : Table).Sound :=
  ⟨ht.nodup, ht.keyed, ht.uid, ht.uidColumn, ht.renamed, ht.uidRenamed, ht.columns⟩

theorem Sound.join (ht : t.Sound) (v : Table) : (t.join v).Sound :=
  (ht.counted _ _).grows (grows_join t v)

theorem mem_keys_join_left (hkey : key ∈ t.fields.keys) : key ∈ (t.join v).fields.keys :=
  (grows_join t v).mem_keys hkey

theorem mem_keys_join_right (ht : t.Sound) (hv : v.Sound) (hkey : key ∈ v.fields.keys) :
    key ∈ (t.join v).fields.keys := by
  by_cases huid : key = t.uid
  · exact mem_keys_join_left (huid ▸ ht.mem_keys_uid)
  · obtain ⟨g, hg⟩ := OrderedMap.mem_keys_iff.1 hkey
    rw [OrderedMap.mem_keys_iff, get?_join t hv, if_neg huid, hg]
    cases t.fields.get? key with
    | none => exact ⟨_, rfl⟩
    | some f => exact ⟨_, rfl⟩

/-! ### Columns -/

/-- The link under the key has a column, and the other table takes its children to repeat. -/
def loses (t v : Table) (key : String) : Bool :=
  match t.fields.get? key, v.fields.get? key with
  | some (.link l), some (.link l') => !l.isMany && l'.isMany && (t.renamed.get? key).isNone
  | _, _ => false

theorem loses_iff : t.loses v key = true ↔ ∃ l l', t.fields.get? key = some (.link l) ∧
    v.fields.get? key = some (.link l') ∧ l.isMany = false ∧ l'.isMany = true ∧
    t.renamed.get? key = none := by
  unfold loses
  split
  · rename_i l l' hl hl'
    simp [hl, hl', and_assoc]
  · rename_i hno
    simp only [Bool.false_eq_true, false_iff]
    rintro ⟨l, l', hl, hl', -⟩
    exact hno l l' hl hl'

theorem columnName?_eq {f : Field} (hf : t.fields.get? key = some f) :
    t.columnName? key = (t.renamed.get? key).or f.columnName? := by
  rw [columnName?, hf]
  rfl

theorem columnName?_join_of_loses (ht : t.Sound) (hv : v.Sound) (h : t.loses v key = true) :
    (t.join v).columnName? key = none := by
  obtain ⟨l, l', hl, hl', -, hmany, hrenamed⟩ := loses_iff.1 h
  have hjoin := get?_join t hv key
  rw [if_neg (ht.ne_uid_of_link hl), hl, hl'] at hjoin
  rw [columnName?_eq hjoin, (grows_join t v).renamed (OrderedMap.mem_keys_of_get? hl), hrenamed,
    Field.columnName?_join_links, hmany]
  rfl

/-- Keys of the first table keep their columns, but for the links that the second one takes to
repeat. -/
theorem columnName?_join (hv : v.Sound) (hkey : key ∈ t.fields.keys) (hkeeps : t.loses v key = false) :
    (t.join v).columnName? key = t.columnName? key := by
  obtain ⟨f, hf⟩ := OrderedMap.mem_keys_iff.1 hkey
  have hrenamed : (t.join v).renamed.get? key = t.renamed.get? key := (grows_join t v).renamed hkey
  have hjoin := get?_join t hv key
  rw [hf] at hjoin
  rw [columnName?_eq hf, ← hrenamed]
  split at hjoin
  · exact columnName?_eq hjoin
  · cases hg : v.fields.get? key with
    | none =>
      rw [hg] at hjoin
      exact columnName?_eq hjoin
    | some g =>
      rw [hg] at hjoin
      rw [columnName?_eq hjoin]
      cases hr : (t.join v).renamed.get? key with
      | some column => rfl
      | none =>
        rcases f.columnName?_join g with h | ⟨l, l', rfl, rfl, hsingle, hmany⟩
        · rw [h]
        · have hloses : t.loses v key = true :=
            loses_iff.2 ⟨l, l', hf, hg, hsingle, hmany, hrenamed.symm.trans hr⟩
          rw [hloses] at hkeeps
          cases hkeeps

/-! ### Columns of new keys -/

/-- A new field whose column is free has the column that its key suggests. -/
theorem columnName?_addField (ht : t.Sound) {f : Field} (hnew : f.key ∉ t.fields.keys)
    (hfree : ∀ c, f.columnName? = some c → c ∉ t.columnNames) :
    (t.addField f).columnName? f.key = f.columnName? := by
  have huid : f.key ≠ t.uid := fun h => hnew (h ▸ ht.mem_keys_uid)
  have hnone := OrderedMap.get?_eq_none_iff.2 hnew
  have hadd : t.addField f = { t with fields := t.fields.put f.key f } := by
    cases hc : f.columnName? with
    | none => simp [addField, huid, hnone, hc]
    | some c => simp [addField, huid, hnone, hc, hfree c hc, Option.filter]
  have hf : (t.addField f).fields.get? f.key = some f := by
    rw [get?_addField, if_pos ⟨rfl, huid⟩, hnone]
    rfl
  rw [columnName?_eq hf, hadd]
  show (t.renamed.get? f.key).or _ = _
  rw [ht.renamed _ hnew]
  rfl

theorem mem_columnNames_addField (ht : t.Sound) {f : Field}
    (hfree : f.key ∉ t.fields.keys → ∀ c, f.columnName? = some c → c ∉ t.columnNames) {c : String}
    (hc : c ∈ (t.addField f).columnNames) :
    c ∈ t.columnNames ∨ f.key ∉ t.fields.keys ∧ f.columnName? = some c := by
  obtain ⟨key, hkey, hc⟩ := mem_columnNames.1 hc
  by_cases hold : key ∈ t.fields.keys
  · obtain ⟨g, hg⟩ := OrderedMap.mem_keys_iff.1 hold
    rcases ((Grows.refl t).add f).columnName? hg with h | ⟨h, -⟩ <;> rw [h] at hc
    · exact Or.inl (mem_columnNames.2 ⟨key, hold, hc⟩)
    · cases hc
  · obtain ⟨g, hg⟩ := OrderedMap.mem_keys_iff.1 hkey
    rw [get?_addField] at hg
    split at hg
    · rename_i h
      obtain ⟨rfl, -⟩ := h
      exact Or.inr ⟨hold, (columnName?_addField ht hold (hfree hold)).symm.trans hc⟩
    · exact absurd (OrderedMap.mem_keys_of_get? hg) hold

theorem columnName?_addFields_of_notMem {es : List (String × Field)} (hes : (es.map (·.1)).Nodup)
    (hkeyed : ∀ e ∈ es, e.2.key = e.1) (hkey : key ∈ t.fields.keys) (hout : key ∉ es.map (·.1)) :
    ((es.map (·.2)).foldl addField t).columnName? key = t.columnName? key := by
  obtain ⟨f, hf⟩ := OrderedMap.mem_keys_iff.1 hkey
  have hfield := get?_addFields hes hkeyed t key
  have hnone : es.lookup key = none := OrderedMap.get?_eq_none_iff (m := ⟨es⟩).2 hout
  rw [hnone, Option.merge_none_right, ite_self, hf] at hfield
  rw [columnName?_eq hfield, columnName?_eq hf, (grows_addFields t _).renamed hkey]

/-- New fields have the columns that their keys suggest, if these are free and distinct. -/
theorem columnName?_addFields {es : List (String × Field)} (hes : (es.map (·.1)).Nodup)
    (hkeyed : ∀ e ∈ es, e.2.key = e.1) (ht : t.Sound)
    (hfree : ∀ e ∈ es, e.1 ∉ t.fields.keys → ∀ c, e.2.columnName? = some c → c ∉ t.columnNames)
    (hdistinct : ∀ e ∈ es, ∀ e' ∈ es, ∀ c, e.1 ∉ t.fields.keys → e'.1 ∉ t.fields.keys →
      e.2.columnName? = some c → e'.2.columnName? = some c → e.1 = e'.1) :
    ∀ e ∈ es, e.1 ∉ t.fields.keys →
      ((es.map (·.2)).foldl addField t).columnName? e.1 = e.2.columnName? := by
  induction es generalizing t with
  | nil => simp
  | cons e es ih =>
    obtain ⟨a, f⟩ := e
    obtain rfl : f.key = a := hkeyed (a, f) List.mem_cons_self
    rw [List.map_cons, List.nodup_cons] at hes
    have hkeyed' := fun e he => hkeyed e (List.mem_cons_of_mem _ he)
    have hne : ∀ e ∈ es, e.1 ≠ f.key := fun e he h => hes.1 (List.mem_map.2 ⟨e, he, h⟩)
    have hfreeHead := hfree _ List.mem_cons_self
    have hold : ∀ {key}, key ∉ (t.addField f).fields.keys → key ∉ t.fields.keys :=
      fun h h' => h (((Grows.refl t).add f).mem_keys h')
    refine List.forall_mem_cons.2 ⟨fun hnew => ?_, fun e he hnew => ?_⟩
    · rw [List.map_cons, List.foldl_cons, columnName?_addFields_of_notMem hes.2 hkeyed' ?_ hes.1]
      · exact columnName?_addField ht hnew (hfreeHead hnew)
      · exact mem_keys_addField.2 (Or.inl ⟨rfl, fun h => hnew (h ▸ ht.mem_keys_uid)⟩)
    · refine ih hes.2 hkeyed' (ht.addField f) (fun e he hnew c hc hmem => ?_)
        (fun e he e' he' c hnew hnew' => hdistinct e (List.mem_cons_of_mem _ he) e'
          (List.mem_cons_of_mem _ he') c (hold hnew) (hold hnew')) e he ?_
      · rcases mem_columnNames_addField ht hfreeHead hmem with hmem | ⟨hhead, hc'⟩
        · exact hfree e (List.mem_cons_of_mem _ he) (hold hnew) c hc hmem
        · exact hne e he (hdistinct e (List.mem_cons_of_mem _ he) _ List.mem_cons_self c (hold hnew)
            hhead hc hc')
      · exact fun h => (mem_keys_addField.1 h).elim (fun h => hne e he h.1) hnew

/-- Both tables name their columns alike: a key of both has the same column in both, and a column of both
the same key. -/
def NamesAlike (t v : Table) : Prop :=
  ∀ key ∈ t.fields.keys, ∀ key' ∈ v.fields.keys,
    (key = key' → t.columnName? key = v.columnName? key') ∧
    ∀ c, t.columnName? key = some c → v.columnName? key' = some c → key = key'

/-- The keys of the second table keep their columns, exactly if both tables name their columns alike. -/
theorem Sound.columns_join_iff (ht : t.Sound) (hv : v.Sound)
    (hkeeps : ∀ key ∈ t.fields.keys, t.loses v key = false)
    (hplain : ∀ key ∈ v.fields.keys, key ∉ t.fields.keys → v.renamed.get? key = none) :
    (∀ key ∈ v.fields.keys, (t.join v).columnName? key = v.columnName? key) ↔ t.NamesAlike v := by
  constructor
  · intro h key hkey key' hkey'
    have hjoin := columnName?_join hv hkey (hkeeps key hkey)
    refine ⟨?_, fun c hc hc' => ?_⟩
    · rintro rfl
      rw [← hjoin, h key hkey']
    · exact (ht.join v).columns key key' c (mem_keys_join_left hkey) (mem_keys_join_right ht hv hkey')
        (hjoin.trans hc) ((h key' hkey').trans hc')
  · intro h key hkey
    by_cases hold : key ∈ t.fields.keys
    · rw [columnName?_join hv hold (hkeeps key hold)]
      exact (h key hold key hkey).1 rfl
    · have hcolumn : ∀ e ∈ v.fields.entries, e.1 ∉ t.fields.keys →
          v.columnName? e.1 = e.2.columnName? := by
        intro e he hnew
        have hf := OrderedMap.get?_of_mem_entries hv.nodup he
        rw [columnName?_eq hf, hplain e.1 (OrderedMap.mem_keys_of_get? hf) hnew]
        rfl
      obtain ⟨f, hf⟩ := OrderedMap.mem_keys_iff.1 hkey
      have he := OrderedMap.mem_entries_of_get? hf
      rw [hcolumn _ he hold]
      refine columnName?_addFields hv.nodup hv.keyed_entries (ht.counted _ _) ?_ ?_ _ he hold
      · intro e he hnew c hc hmem
        obtain ⟨k, hk, hk'⟩ := mem_columnNames.1 hmem
        have hmem' := OrderedMap.mem_keys_of_get? (OrderedMap.get?_of_mem_entries hv.nodup he)
        rw [← hcolumn e he hnew] at hc
        exact hnew ((h k hk e.1 hmem').2 c hk' hc ▸ hk)
      · intro e he e' he' c hnew hnew' hc hc'
        rw [← hcolumn e he hnew] at hc
        rw [← hcolumn e' he' hnew'] at hc'
        exact hv.columns e.1 e'.1 c (List.mem_map_of_mem he) (List.mem_map_of_mem he') hc hc'

end Table

end FeatureTables
