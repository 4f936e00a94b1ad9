import FeatureTables.OrderedMap
import Mathlib.Data.List.Basic

/-!
Laws of ordered maps: what a change does to the value of each key, and to the order of the keys.
-/

namespace FeatureTables.OrderedMap

variable {κ α : Type} [DecidableEq κ]

/-! ### Keys and values -/

@[simp] theorem get?_empty (k : κ) : ({} : OrderedMap κ α).get? k = none := rfl

theorem get?_eq_none_iff {m : OrderedMap κ α} {k : κ} : m.get? k = none ↔ k ∉ m.keys := by
  obtain ⟨es⟩ := m
  show es.lookup k = none ↔ k ∉ es.map (·.1)
  induction es with
  | nil => simp
  | cons e es ih =>
    obtain ⟨a, b⟩ := e
    rw [lookup_cons_ite]
    by_cases h : k = a
    · simp [h]
    · simp [h, ih]

theorem mem_keys_iff {m : OrderedMap κ α} {k : κ} : k ∈ m.keys ↔ ∃ v, m.get? k = some v := by
  rw [← not_iff_not, ← get?_eq_none_iff]
  cases m.get? k <;> simp

theorem mem_keys_of_get? {m : OrderedMap κ α} {k : κ} {v : α} (h : m.get? k = some v) :
    k ∈ m.keys := mem_keys_iff.2 ⟨v, h⟩

theorem mem_entries_of_get? {m : OrderedMap κ α} {k : κ} {v : α} (h : m.get? k = some v) :
    (k, v) ∈ m.entries := by
  obtain ⟨es⟩ := m
  change es.lookup k = some v at h
  induction es with
  | nil => simp at h
  | cons e es ih =>
    obtain ⟨a, b⟩ := e
    rw [lookup_cons_ite] at h
    by_cases hk : k = a
    · simp [hk] at h
      simp [hk, h]
    · rw [if_neg hk] at h
      exact List.mem_cons_of_mem _ (ih h)

theorem get?_of_mem_entries {m : OrderedMap κ α} {k : κ} {v : α} (hm : m.keys.Nodup)
    (h : (k, v) ∈ m.entries) : m.get? k = some v := by
  obtain ⟨es⟩ := m
  show es.lookup k = some v
  change (es.map (·.1)).Nodup at hm
  induction es with
  | nil => simp at h
  | cons e es ih =>
    obtain ⟨a, b⟩ := e
    rw [List.map_cons, List.nodup_cons] at hm
    rw [lookup_cons_ite]
    rcases List.mem_cons.1 h with h' | h'
    · cases h'
      simp
    · have hk : k ≠ a := by
        rintro rfl
        exact hm.1 (List.mem_map.2 ⟨(k, v), h', rfl⟩)
      rw [if_neg hk]
      exact ih h' hm.2

theorem mem_entries_iff {m : OrderedMap κ α} {k : κ} {v : α} (hm : m.keys.Nodup) :
    (k, v) ∈ m.entries ↔ m.get? k = some v :=
  ⟨get?_of_mem_entries hm, mem_entries_of_get?⟩

/-! ### Changing the value of a key -/

/-- Values that are changed under their keys are found there. -/
theorem lookup_map_entries {β : Type} (es : List (κ × α)) (f : κ → α → β) (k : κ) :
    (es.map fun e => (e.1, f e.1 e.2)).lookup k = (es.lookup k).map (f k) := by
  induction es with
  | nil => rfl
  | cons e es ih =>
    obtain ⟨a, b⟩ := e
    rw [List.map_cons, lookup_cons_ite, lookup_cons_ite, ih]
    by_cases h : k = a
    · simp [h]
    · simp [h]

theorem get?_modify (m : OrderedMap κ α) (k k' : κ) (f : α → α) :
    (m.modify k f).get? k' = if k' = k then (m.get? k').map f else m.get? k' := by
  refine (lookup_map_entries m.entries (fun a v => if a = k then f v else v) k').trans ?_
  by_cases h : k' = k
  · simp only [if_pos h]
    rfl
  · simp only [if_neg h]
    exact Option.map_id'

theorem keys_modify (m : OrderedMap κ α) (k : κ) (f : α → α) : (m.modify k f).keys = m.keys := by
  obtain ⟨es⟩ := m
  simp [keys, modify]

/-- A change that leaves the value of the key alone leaves the map alone. -/
theorem modify_of_get? {m : OrderedMap κ α} {k : κ} {f : α → α} (hm : m.keys.Nodup)
    (h : ∀ v, m.get? k = some v → f v = v) : m.modify k f = m := by
  obtain ⟨es⟩ := m
  refine congrArg OrderedMap.mk ((List.map_congr_left ?_).trans (List.map_id es))
  rintro ⟨a, v⟩ he
  by_cases ha : a = k
  · simp only [if_pos ha, h v (ha ▸ get?_of_mem_entries hm he), id_eq]
  · simp only [if_neg ha, id_eq]

/-! ### Putting -/

/-- Putting the value that is there changes nothing. -/
theorem put_of_get? {m : OrderedMap κ α} {k : κ} {v : α} (h : m.get? k = some v) : m.put k v = m := by
  obtain ⟨es⟩ := m
  refine congrArg OrderedMap.mk ?_
  change es.lookup k = some v at h
  induction es with
  | nil => cases h
  | cons e es ih =>
    obtain ⟨a, b⟩ := e
    rw [lookup_cons_ite] at h
    by_cases hk : k = a
    · rw [if_pos hk] at h
      obtain rfl := Option.some.inj h
      rw [putIn, if_pos hk.symm, hk]
    · rw [if_neg hk] at h
      rw [putIn, if_neg fun heq => hk heq.symm, ih h]

/-- The value of a new key comes behind the others. -/
theorem put_of_not_mem {m : OrderedMap κ α} {k : κ} {v : α} (h : k ∉ m.keys) :
    m.put k v = ⟨m.entries ++ [(k, v)]⟩ := by
  obtain ⟨es⟩ := m
  refine congrArg OrderedMap.mk ?_
  change k ∉ es.map (·.1) at h
  induction es with
  | nil => rfl
  | cons e es ih =>
    obtain ⟨a, b⟩ := e
    rw [List.map_cons, List.mem_cons, not_or] at h
    rw [putIn, if_neg (Ne.symm h.1), ih h.2, List.cons_append]

theorem keys_put (m : OrderedMap κ α) (k : κ) (v : α) :
    (m.put k v).keys = if k ∈ m.keys then m.keys else m.keys ++ [k] := by
  obtain ⟨es⟩ := m
  show (putIn k v es).map (·.1) =
    if k ∈ es.map (·.1) then es.map (·.1) else es.map (·.1) ++ [k]
  induction es with
  | nil => simp [putIn]
  | cons e es ih =>
    obtain ⟨a, b⟩ := e
    by_cases h : a = k
    · simp [putIn, h]
    · have h' : ¬ k = a := fun hk => h hk.symm
      rw [putIn, if_neg h, List.map_cons, ih]
      by_cases hk : k ∈ es.map (·.1)
      · simp [hk]
      · rw [if_neg hk, List.map_cons, if_neg (by simp [h', hk])]
        simp

theorem prefix_keys_put (m : OrderedMap κ α) (k : κ) (v : α) : m.keys <+: (m.put k v).keys := by
  rw [keys_put]
  split
  · exact List.prefix_rfl
  · exact List.prefix_append _ _

theorem mem_keys_put {m : OrderedMap κ α} {k k' : κ} {v : α} :
    k' ∈ (m.put k v).keys ↔ k' = k ∨ k' ∈ m.keys := by
  rw [keys_put]
  split
  · constructor
    · exact Or.inr
    · rintro (rfl | h) <;> assumption
  · simp [or_comm]

theorem nodup_keys_put {m : OrderedMap κ α} {k : κ} {v : α} (h : m.keys.Nodup) :
    (m.put k v).keys.Nodup := by
  rw [keys_put]
  split
  · exact h
  · rw [List.nodup_append]
    refine ⟨h, by simp, ?_⟩
    rintro a ha b hb rfl
    simp only [List.mem_singleton] at hb
    exact absurd (hb ▸ ha) (by assumption)

theorem nodup_keys_putAll {m : OrderedMap κ α} (es : List (κ × α)) (h : m.keys.Nodup) :
    (putAll m es).keys.Nodup := by
  induction es generalizing m with
  | nil => exact h
  | cons e es ih => exact ih (nodup_keys_put h)

theorem nodup_keys_ofList (es : List (κ × α)) : (ofList es).keys.Nodup :=
  nodup_keys_putAll es List.nodup_nil

theorem get?_putAll {m : OrderedMap κ α} {es : List (κ × α)} (k : κ)
    (h : (es.map (·.1)).Nodup) : (putAll m es).get? k = (es.lookup k).or (m.get? k) := by
  induction es generalizing m with
  | nil => rfl
  | cons e es ih =>
    obtain ⟨a, b⟩ := e
    rw [List.map_cons, List.nodup_cons] at h
    show (putAll (m.put a b) es).get? k = _
    rw [ih h.2, get?_put, lookup_cons_ite]
    by_cases hk : k = a
    · have : es.lookup k = none :=
        get?_eq_none_iff (m := ⟨es⟩).2 (hk ▸ h.1)
      rw [this, if_pos hk, if_pos hk]
      rfl
    · simp [hk]

/-- In a list of entries with distinct keys each entry is found again. -/
theorem get?_ofList {es : List (κ × α)} (k : κ) (h : (es.map (·.1)).Nodup) :
    (ofList es).get? k = es.lookup k := by
  show (putAll {} es).get? k = _
  rw [get?_putAll k h]
  simp

end FeatureTables.OrderedMap
