import FeatureTables.Proofs.Conversion.History
import Mathlib.Algebra.GroupWithZero.Nat

/-!
A document appends to the model, or leaves it as it was. Building lets tables grow and keeps the rows;
populating counts on and puts rows behind rows; and each of these changes is one step of the same order
on models (`Model.Appends`), which says how many rows came. A document that fails changes nothing, so
that documents which fail may as well be left out (`convert_appends`).
-/

namespace FeatureTables

namespace Model

/-- The second model is the first one with more in it: tables and fields come behind those that are
there, numbers go up, and `k` rows come behind those of their tables. -/
structure Appends (m n : Model) (k : Nat) : Prop where
  order : m.tables.keys <+: n.tables.keys
  tables : ∀ name t, m.table? name = some t → ∃ u, n.table? name = some u ∧
    u.name = t.name ∧ u.uid = t.uid ∧ t.fields.keys <+: u.fields.keys ∧ t.lastId ≤ u.lastId
  rows : ∀ name, m.rowsOf name <+: n.rowsOf name
  count : n.rowCount = m.rowCount + k

section Appends

variable {m n l : Model} {j k : Nat}

theorem Appends.refl (m : Model) : m.Appends m 0 where
  order := List.prefix_rfl
  tables _ t ht := ⟨t, ht, rfl, rfl, List.prefix_rfl, Int.le_refl _⟩
  rows _ := List.prefix_rfl
  count := rfl

theorem Appends.trans (h : m.Appends n j) (h' : n.Appends l k) : m.Appends l (j + k) where
  order := h.order.trans h'.order
  tables name t ht := by
    obtain ⟨u, hu, hname, huid, hkeys, hlast⟩ := h.tables name t ht
    obtain ⟨v, hv, hname', huid', hkeys', hlast'⟩ := h'.tables name u hu
    exact ⟨v, hv, hname'.trans hname, huid'.trans huid, hkeys.trans hkeys',
      Int.le_trans hlast hlast'⟩
  rows name := (h.rows name).trans (h'.rows name)
  count := by rw [h'.count, h.count, Nat.add_assoc]

/-- Many changes one after the other append what they append one by one. -/
theorem appends_foldl {α : Type} {step : Model → α → Model} {brings : α → Nat}
    (hstep : ∀ (m : Model) a, m.Appends (step m a) (brings a)) (m : Model) (xs : List α) :
    m.Appends (xs.foldl step m) ((xs.map brings).sum) := by
  induction xs generalizing m with
  | nil => exact .refl m
  | cons x xs ih => exact (hstep m x).trans (ih (step m x))

/-- Building appends no rows. -/
theorem Grows.appends (h : m.Grows n) : m.Appends n 0 where
  order := h.order
  tables name t ht := by
    obtain ⟨u, hu, htu⟩ := h.kept name t ht
    exact ⟨u, hu, htu.name, htu.uid, htu.prefix_keys, Int.le_of_eq htu.lastId.symm⟩
  rows name := by
    have hrows : m.rowsOf name = n.rowsOf name := by
      unfold rowsOf
      rw [h.rows]
    exact hrows ▸ List.prefix_rfl
  count := by
    unfold rowCount
    rw [h.rows, Nat.add_zero]

/-! ### Populating -/

theorem appends_counted (m : Model) (name : String) (last : Int) :
    m.Appends { m with tables := m.tables.modify name fun t =>
      { t with lastId := max t.lastId last } } 0 where
  order := ⟨[], (List.append_nil _).trans (OrderedMap.keys_modify _ _ _).symm⟩
  tables k t ht := by
    show ∃ u, (m.tables.modify name _).get? k = some u ∧ _
    rw [OrderedMap.get?_modify, show m.tables.get? k = some t from ht]
    by_cases hk : k = name
    · rw [if_pos hk]
      exact ⟨_, rfl, rfl, rfl, List.prefix_rfl, Int.le_max_left _ _⟩
    · rw [if_neg hk]
      exact ⟨t, rfl, rfl, rfl, List.prefix_rfl, Int.le_refl _⟩
  rows _ := List.prefix_rfl
  count := rfl

theorem foldl_length (es : List (String × List Row)) (n : Nat) :
    (es.map (·.2)).foldl (fun n rows => n + rows.length) n =
      n + (es.map fun e => e.2.length).sum := by
  induction es generalizing n with
  | nil => rfl
  | cons e es ih =>
    rw [List.map_cons, List.foldl_cons, ih, List.map_cons, List.sum_cons, Nat.add_assoc]

theorem rowCount_eq (m : Model) : m.rowCount = (m.rows.entries.map fun e => e.2.length).sum := by
  unfold rowCount OrderedMap.values
  rw [foldl_length, Nat.zero_add]

theorem sum_putIn (name : String) (rows : List Row) (es : List (String × List Row)) :
    ((OrderedMap.putIn name ((es.lookup name).getD [] ++ rows) es).map fun e => e.2.length).sum =
      (es.map fun e => e.2.length).sum + rows.length := by
  induction es with
  | nil => simp [OrderedMap.putIn]
  | cons e es ih =>
    obtain ⟨a, b⟩ := e
    rw [OrderedMap.lookup_cons_ite, OrderedMap.putIn]
    by_cases ha : a = name
    · rw [if_pos ha, if_pos ha.symm]
      simp only [List.map_cons, List.sum_cons, Option.getD_some, List.length_append]
      omega
    · rw [if_neg ha, if_neg fun h => ha h.symm, List.map_cons, List.sum_cons, ih, List.map_cons,
        List.sum_cons, Nat.add_assoc]

theorem appends_addRows (m : Model) (name : String) (rows : List Row) :
    m.Appends (m.addRows name rows) rows.length where
  order := List.prefix_rfl
  tables _ t ht := ⟨t, ht, rfl, rfl, List.prefix_rfl, Int.le_refl _⟩
  rows name' := by
    rw [Population.rowsOf_addRows]
    split
    · rename_i hname
      rw [hname]
      exact List.prefix_append _ _
    · exact List.prefix_rfl
  count := by
    rw [rowCount_eq, rowCount_eq]
    exact sum_putIn name rows m.rows.entries

/-- Rows that become part of a model are appended to it. -/
theorem appends_commit (m : Model) (p : Population) : m.Appends (p.commit m) p.rowCount := by
  have hcounted :=
    appends_foldl (fun m (e : String × Int) => appends_counted m e.1 e.2) m p.lastIds.entries
  have hrows (m : Model) :=
    appends_foldl (fun m (e : String × List Row) => appends_addRows m e.1 e.2) m p.rows.entries
  have hcount : (p.lastIds.entries.map fun _ => 0).sum + (p.rows.entries.map fun e =>
      e.2.length).sum = p.rowCount := by
    unfold Population.rowCount OrderedMap.values
    rw [foldl_length]
    simp
  rw [← hcount]
  exact hcounted.trans (hrows _)

end Appends

end Model

namespace Conversion

open Population Xml

variable {c : Conversion}

/-- What becomes of the model with a document: it stays, or it has more in it. -/
theorem convert_cases (c : Conversion) (m : Model) (d : Document) :
    (∃ e, (c.convert d).run.run m = (.error e, m)) ∨
      ∃ k n, (c.convert d).run.run m = (.ok k, n) ∧ m.Appends n k := by
  rw [run_convert]
  cases hs : c.setting m d with
  | error e => exact Or.inl ⟨e, rfl⟩
  | ok r =>
    obtain ⟨s, table?⟩ := r
    have hbuilt := (setting_grows hs).appends
    cases table? with
    | none => exact Or.inr ⟨0, s.model, rfl, hbuilt⟩
    | some table =>
      cases hp : ofRoot s d.root table with
      | error e => exact Or.inl ⟨e, by simp only [hp]⟩
      | ok p =>
        refine Or.inr ⟨p.rowCount, p.commit s.model, by simp only [hp], ?_⟩
        have h := hbuilt.trans (Model.appends_commit s.model p)
        rwa [Nat.zero_add] at h

/-! ### Many documents -/

/-- Converts documents one after the other, whatever becomes of each of them. -/
def each (c : Conversion) (docs : List Document) : StateM Model (List (Except Error Nat)) :=
  docs.mapM fun d => (c.convert d).run

/-- The documents that were converted, given what became of each. -/
def successful (docs : List Document) (results : List (Except Error Nat)) : List Document :=
  ((docs.zip results).filter (·.2.isOk)).map (·.1)

theorem run_each_cons (d : Document) (docs : List Document) (m : Model) :
    (c.each (d :: docs)).run m =
      (((c.convert d).run.run m).1 :: ((c.each docs).run ((c.convert d).run.run m).2).1,
        ((c.each docs).run ((c.convert d).run.run m).2).2) := by
  unfold each
  rw [List.mapM_cons]
  rfl

/-- Documents that fail may as well be left out. -/
theorem run_each_successful (docs : List Document) (m : Model) :
    (c.each (successful docs ((c.each docs).run m).1)).run m =
      (((c.each docs).run m).1.filter (·.isOk), ((c.each docs).run m).2) := by
  induction docs generalizing m with
  | nil => rfl
  | cons d docs ih =>
    rw [run_each_cons]
    rcases convert_cases c m d with ⟨e, h⟩ | ⟨k, n, h, -⟩
    · rw [h]
      exact ih m
    · rw [h]
      show (c.each (d :: successful docs ((c.each docs).run n).1)).run m = _
      rw [run_each_cons, h]
      dsimp only
      rw [ih n]
      rfl

/-- A document that fails leaves the model as it was, and one that does not only appends to it, as many
rows as it says. So documents of which some fail make the same model as the others alone. -/
theorem convert_appends (c : Conversion) :
    (∀ m d, match (c.convert d).run.run m with
      | (.error _, n) => n = m
      | (.ok k, n) => m.Appends n k) ∧
    ∀ m docs, let (results, n) := (c.each docs).run m
      (c.each (successful docs results)).run m = (results.filter (·.isOk), n) := by
  refine ⟨fun m d => ?_, fun m docs => run_each_successful docs m⟩
  rcases convert_cases c m d with ⟨e, h⟩ | ⟨k, n, h, happends⟩
  · rw [h]
  · rw [h]
    exact happends

end Conversion

end FeatureTables
