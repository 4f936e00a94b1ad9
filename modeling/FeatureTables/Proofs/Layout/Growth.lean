import FeatureTables.Proofs.Layout.Steps
import FeatureTables.Proofs.Table.Growth

/-!
How models grow. Building a document keeps the tables of the model where they are and lets them grow;
all other tables have grown from new ones (`build_grows`). Rows are not touched.
-/

namespace FeatureTables

namespace Model

/-- What building makes of a model. -/
structure Grows (m n : Model) : Prop where
  rows : n.rows = m.rows
  order : m.tables.keys <+: n.tables.keys
  nodup : m.tables.keys.Nodup → n.tables.keys.Nodup
  kept : ∀ name t, m.table? name = some t → ∃ u, n.table? name = some u ∧ t.Grows u
  fresh : ∀ name u, n.table? name = some u → m.table? name = none →
    ∃ natural, (Table.create name natural).Grows u

/-- What holds of models that have grown from the empty one. -/
structure Sound (m : Model) : Prop where
  nodup : m.tables.keys.Nodup
  named : ∀ name t, m.table? name = some t → t.name = name
  tables : ∀ name t, m.table? name = some t → t.Sound

theorem Grows.refl (m : Model) : m.Grows m where
  rows := rfl
  order := List.prefix_rfl
  nodup := id
  kept _ t ht := ⟨t, ht, .refl t⟩
  fresh name u hu hm := by
    rw [hu] at hm
    cases hm

theorem Grows.trans {m n k : Model} (hmn : m.Grows n) (hnk : n.Grows k) : m.Grows k where
  rows := hnk.rows.trans hmn.rows
  order := hmn.order.trans hnk.order
  nodup h := hnk.nodup (hmn.nodup h)
  kept name t ht := by
    obtain ⟨u, hu, htu⟩ := hmn.kept name t ht
    obtain ⟨v, hv, huv⟩ := hnk.kept name u hu
    exact ⟨v, hv, htu.trans huv⟩
  fresh name v hv hm := by
    cases hn : n.table? name with
    | none => exact hnk.fresh name v hv hn
    | some u =>
      obtain ⟨natural, hu⟩ := hmn.fresh name u hn hm
      obtain ⟨v', hv', huv⟩ := hnk.kept name u hn
      rw [hv] at hv'
      cases hv'
      exact ⟨natural, hu.trans huv⟩

theorem Grows.sound {m n : Model} (h : m.Grows n) (hm : m.Sound) : n.Sound := by
  have hall : ∀ name u, n.table? name = some u → u.name = name ∧ u.Sound := by
    intro name u hu
    cases ht : m.table? name with
    | some t =>
      obtain ⟨u', hu', htu⟩ := h.kept name t ht
      rw [hu] at hu'
      cases hu'
      exact ⟨htu.name.trans (hm.named name t ht), (hm.tables name t ht).grows htu⟩
    | none =>
      obtain ⟨natural, htu⟩ := h.fresh name u hu ht
      exact ⟨htu.name, (Table.sound_create name natural).grows htu⟩
  exact ⟨h.nodup hm.nodup, fun name u hu => (hall name u hu).1, fun name u hu => (hall name u hu).2⟩

theorem sound_empty : ({} : Model).Sound where
  nodup := List.nodup_nil
  named name t ht := by cases ht
  tables name t ht := by cases ht

/-! ### The changes of a model -/

/-- Changing one table. -/
theorem grows_modify (m : Model) (name : String) {f : Table → Table}
    (hf : ∀ t : Table, t.Grows (f t)) :
    m.Grows { m with tables := m.tables.modify name f } where
  rows := rfl
  order := ⟨[], (List.append_nil _).trans (OrderedMap.keys_modify _ _ _).symm⟩
  nodup h := by
    show (m.tables.modify name f).keys.Nodup
    rwa [OrderedMap.keys_modify]
  kept k t ht := by
    show ∃ u, (m.tables.modify name f).get? k = some u ∧ _
    rw [OrderedMap.get?_modify, show m.tables.get? k = some t from ht]
    by_cases hk : k = name
    · exact ⟨f t, by simp [hk], hf t⟩
    · exact ⟨t, by simp [hk], .refl t⟩
  fresh k u hu hm := by
    change (m.tables.modify name f).get? k = some u at hu
    rw [OrderedMap.get?_modify, show m.tables.get? k = none from hm] at hu
    simp at hu

/-- Adding a new table. -/
theorem grows_addTable (m : Model) {name : String} (natural : Bool) (h : m.table? name = none) :
    m.Grows (m.addTable (Table.create name natural)) := by
  have hadd : m.addTable (Table.create name natural) =
      { m with tables := m.tables.put name (Table.create name natural) } := by
    unfold addTable
    rw [show m.table? (Table.create name natural).name = none from h]
    rfl
  rw [hadd]
  refine ⟨rfl, OrderedMap.prefix_keys_put _ _ _, OrderedMap.nodup_keys_put, ?_, ?_⟩
  · intro k t ht
    have hk : k ≠ name := by
      rintro rfl
      rw [h] at ht
      cases ht
    refine ⟨t, ?_, .refl t⟩
    show (m.tables.put _ _).get? k = some t
    rw [OrderedMap.get?_put, if_neg hk]
    exact ht
  · intro k u hu hm
    change (m.tables.put _ _).get? k = some u at hu
    rw [OrderedMap.get?_put] at hu
    split at hu
    · cases hu
      rename_i hk
      exact ⟨natural, hk ▸ .refl _⟩
    · rw [show m.tables.get? k = none from hm] at hu
      cases hu

theorem grows_rootTable (m : Model) (rootTable? : Option String) :
    m.Grows { m with rootTable? } := by
  obtain ⟨hrows, horder, hnodup, hkept, hfresh⟩ := Grows.refl m
  exact ⟨hrows, horder, hnodup, hkept, hfresh⟩

theorem grows_settle (m : Model) (o : Owed) : m.Grows (m.settle o) := by
  refine grows_modify m o.target fun t => ?_
  split
  · exact .refl t
  · exact (Table.Grows.refl t).add _

theorem grows_settling (m : Model) (os : List Owed) : m.Grows (os.foldl settle m) := by
  induction os generalizing m with
  | nil => exact .refl m
  | cons o os ih => exact (grows_settle m o).trans (ih _)

theorem grows_addBackLinks (m : Model) : m.Grows m.addBackLinks := grows_settling m m.owed

end Model

namespace Layout

open Xml

theorem grows_relaxing (t : Table) (keys : List String) :
    t.Grows { t with fields := keys.foldl (fun fields key => fields.modify key Field.relaxed) t.fields } := by
  induction keys generalizing t with
  | nil => exact .refl t
  | cons key keys ih => exact ((Table.Grows.refl t).relax key).trans (ih _)

/-- A field of a document is added, and fields in conflict with it are relaxed. -/
theorem grows_addField (t : Table) (f : Field) : t.Grows (addField t f) := by
  unfold addField
  cases conflicts t f with
  | nil => exact (Table.Grows.refl t).add f
  | cons key keys => exact (grows_relaxing t (key :: keys)).add f.relaxed

/-- Building lets the model grow. -/
theorem kept_grows {s : Setting} : Kept s fun b b' => b.model.Grows b'.model where
  refl b := .refl _
  trans := Model.Grows.trans
  placed b e p _ _ _ := .refl _
  started b name natural := by
    rcases b.started_cases name natural with ⟨-, heq⟩ | ⟨hnone, heq⟩ <;> rw [heq]
    · exact .refl _
    · exact Model.grows_addTable b.model natural hnone
  extended b name fields :=
    Model.grows_modify b.model name fun t => Table.Grows.foldl grows_addField t fields

theorem build_grows {s : Setting} {m : Model} {root : Element} {o : Outcome}
    (h : build s m root = .ok o) : m.Grows o.model := by
  obtain ⟨b, hb, -, hm⟩ := build_eq_ok_iff.1 h
  have hgrows : m.Grows b.model := kept_grows.buildTable (fun _ _ _ _ _ => .refl _) hb
  rw [hm]
  exact (hgrows.trans (Model.grows_rootTable b.model _)).trans (Model.grows_addBackLinks _)

end Layout
end FeatureTables
