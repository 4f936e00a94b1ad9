import FeatureTables.Proofs.Population.Rows

/-!
The rows of a document before and after they are part of the model: where the accounts of the tables
start, and what the model is once the rows are in it.
-/

namespace FeatureTables.Population

open Xml

/-! ### The start -/

section Start

variable {s : Setting} {name : String} {t : Table}

theorem map_named_eq_keys (hnodup : s.model.tables.keys.Nodup)
    (hnamed : ∀ name u, s.model.table? name = some u → u.name = name) {β : Type} (f : Table → β) :
    s.model.tables.values.map (fun t => (t.name, f t)) =
      s.model.tables.entries.map fun (name, t) => (name, f t) := by
  rw [OrderedMap.values, List.map_map]
  refine List.map_congr_left fun (name, t) ht => ?_
  have : t.name = name := hnamed name t (OrderedMap.get?_of_mem_entries hnodup ht)
  simp [this]

theorem lookup_filter_entries {α : Type} (es : List (String × α)) (c : α → Bool) {k : String}
    {v : α} (h : es.lookup k = some v) (hv : c v = true) :
    (es.filter fun e => c e.2).lookup k = some v := by
  induction es with
  | nil => cases h
  | cons e es ih =>
    obtain ⟨a, b⟩ := e
    rw [OrderedMap.lookup_cons_ite] at h
    by_cases hk : k = a
    · rw [if_pos hk] at h
      cases h
      rw [List.filter_cons_of_pos (by simpa using hv), OrderedMap.lookup_cons_ite, if_pos hk]
    · rw [if_neg hk] at h
      by_cases hb : c b = true
      · rw [List.filter_cons_of_pos (by simpa using hb), OrderedMap.lookup_cons_ite, if_neg hk]
        exact ih h
      · rw [List.filter_cons_of_neg (by simpa using hb)]
        exact ih h

variable (hnodup : s.model.tables.keys.Nodup)
  (hnamed : ∀ name u, s.model.table? name = some u → u.name = name)
include hnodup hnamed

theorem start_lastIds : s.start.lastIds.get? name = (s.model.table? name).map (·.lastId) := by
  have hkeys : ((s.model.tables.entries.map fun (name, t) => (name, t.lastId)).map (·.1)).Nodup := by
    rw [List.map_map]
    exact hnodup
  show (OrderedMap.ofList _).get? name = _
  rw [map_named_eq_keys hnodup hnamed, OrderedMap.get?_ofList name hkeys]
  exact OrderedMap.lookup_map_entries s.model.tables.entries (fun _ t => t.lastId) name

theorem start_emitted (ht : s.model.table? name = some t) (hnatural : t.hasNaturalId = true) :
    s.start.emitted.get? name = some (knownIds s.model t) := by
  have hfilter : (s.model.tables.values.filter Table.hasNaturalId).map
      (fun t => (t.name, knownIds s.model t)) =
      (s.model.tables.entries.filter fun e => e.2.hasNaturalId).map
        fun (name, t) => (name, knownIds s.model t) := by
    rw [OrderedMap.values, List.filter_map, List.map_map]
    refine List.map_congr_left fun (name, t) hmem => ?_
    have : t.name = name :=
      hnamed name t (OrderedMap.get?_of_mem_entries hnodup (List.mem_filter.1 hmem).1)
    simp [this]
  have hkeys : (((s.model.tables.entries.filter fun e => e.2.hasNaturalId).map
      fun (name, t) => (name, knownIds s.model t)).map (·.1)).Nodup := by
    rw [List.map_map]
    exact hnodup.sublist (List.filter_sublist.map _)
  show (OrderedMap.ofList _).get? name = _
  rw [hfilter, OrderedMap.get?_ofList name hkeys,
    OrderedMap.lookup_map_entries _ (fun _ t => knownIds s.model t),
    lookup_filter_entries _ _ ht hnatural]
  rfl

/-- The account of a table starts with the numbers and the rows of the model. -/
theorem start_account (ht : s.model.table? name = some t) :
    (s.start.account t).last = t.lastId ∧
      (t.hasNaturalId = true → (s.start.account t).known = knownIds s.model t) := by
  have hname := hnamed name t ht
  subst hname
  constructor
  · show (s.start.lastIds.get? t.name).getD t.lastId = _
    rw [start_lastIds hnodup hnamed, ht]
    rfl
  · intro hnatural
    show (s.start.emitted.get? t.name).getD [] = _
    rw [start_emitted hnodup hnamed ht hnatural]
    rfl

end Start

/-! ### The end -/

theorem ofRoot_eq_ok_iff {s : Setting} {root : Element} {table : String} {q : Population} :
    ofRoot s root table = .ok q ↔ ∃ v p,
      Leads (visit s (depthOf s root) root table none) s.start v p ∧ p.toPopulation = q := by
  unfold ofRoot Leads
  rw [populate_eq_visit]
  show (match Id.run (((fun v : Visit => v.id) <$>
    visit s (depthOf s root) root table none).run.run s.start) with
    | (.ok _, p) => Except.ok p.toPopulation
    | (.error e, _) => .error e) = .ok q ↔ _
  rw [ExceptT.run_map, StateT.run_map]
  cases (visit s (depthOf s root) root table none).run.run s.start with
  | mk r p =>
  cases r with
  | error e => simp [Id.run, Except.map, Functor.map]
  | ok v => simp [Id.run, Except.map, Functor.map]

theorem visitsOf_eq_ok_iff {s : Setting} {root : Element} {table : String} {v : Visit} :
    visitsOf s root table = .ok v ↔
      ∃ p, Leads (visit s (depthOf s root) root table none) s.start v p := by
  unfold visitsOf Leads
  constructor
  · exact fun h => ⟨_, Prod.ext h rfl⟩
  · rintro ⟨p, h⟩
    exact congrArg Prod.fst h

/-- Each table takes over how far its numbers went. -/
theorem foldl_counted (es : List (String × Int)) (hes : (es.map (·.1)).Nodup) (m : Model) :
    let n := es.foldl (fun m (name, n) =>
      { m with tables := m.tables.modify name fun t => { t with lastId := max t.lastId n } }) m
    n.rows = m.rows ∧ n.tables.keys = m.tables.keys ∧ ∀ name, n.table? name =
      (m.table? name).map fun t => { t with lastId := (es.lookup name).elim t.lastId (max t.lastId) } := by
  induction es generalizing m with
  | nil =>
    refine ⟨rfl, rfl, fun name => ?_⟩
    show m.table? name = _
    cases m.table? name <;> rfl
  | cons e es ih =>
    obtain ⟨a, i⟩ := e
    rw [List.map_cons, List.nodup_cons] at hes
    obtain ⟨hrows, hkeys, htables⟩ := ih hes.2
      { m with tables := m.tables.modify a fun t => { t with lastId := max t.lastId i } }
    refine ⟨hrows, hkeys.trans (OrderedMap.keys_modify _ _ _), fun name => ?_⟩
    rw [List.foldl_cons, htables name]
    show ((m.tables.modify a _).get? name).map _ = (m.tables.get? name).map _
    rw [OrderedMap.get?_modify, OrderedMap.lookup_cons_ite]
    by_cases hname : name = a
    · have : es.lookup name = none := OrderedMap.get?_eq_none_iff (m := ⟨es⟩).2 (hname ▸ hes.1)
      rw [if_pos hname, if_pos hname, this, Option.map_map]
      rfl
    · rw [if_neg hname, if_neg hname]

theorem rowsOf_addRows (m : Model) (name name' : String) (rows : List Row) :
    (m.addRows name rows).rowsOf name' =
      if name' = name then m.rowsOf name ++ rows else m.rowsOf name' := by
  show ((m.rows.put name (m.rowsOf name ++ rows)).get? name').getD [] = _
  rw [OrderedMap.get?_put]
  split <;> rfl

/-- The rows of each table come behind those that are there. -/
theorem foldl_addRows (es : List (String × List Row)) (hes : (es.map (·.1)).Nodup) (m : Model) :
    let n := es.foldl (fun m (name, rows) => m.addRows name rows) m
    n.tables = m.tables ∧
      ∀ name, n.rowsOf name = m.rowsOf name ++ (es.lookup name).getD [] := by
  induction es generalizing m with
  | nil => exact ⟨rfl, fun name => (List.append_nil _).symm⟩
  | cons e es ih =>
    obtain ⟨a, rows⟩ := e
    rw [List.map_cons, List.nodup_cons] at hes
    obtain ⟨htables, hrows⟩ := ih hes.2 (m.addRows a rows)
    refine ⟨htables, fun name => ?_⟩
    rw [List.foldl_cons, hrows name, rowsOf_addRows, OrderedMap.lookup_cons_ite]
    by_cases hname : name = a
    · have : es.lookup name = none := OrderedMap.get?_eq_none_iff (m := ⟨es⟩).2 (hname ▸ hes.1)
      rw [if_pos hname, if_pos hname, this, hname]
      exact List.append_nil _
    · rw [if_neg hname, if_neg hname]

section Commit

variable {p : Population} (hnodup : p.rows.keys.Nodup) (hnodupIds : p.lastIds.keys.Nodup)
  (m : Model)

include hnodup hnodupIds

theorem table?_commit (name : String) : (p.commit m).table? name = (m.table? name).map fun t =>
    { t with lastId := (p.lastIds.get? name).elim t.lastId (max t.lastId) } := by
  unfold commit
  obtain ⟨-, -, htables⟩ := foldl_counted p.lastIds.entries hnodupIds m
  obtain ⟨heq, -⟩ := foldl_addRows p.rows.entries hnodup (p.lastIds.entries.foldl _ m)
  show OrderedMap.get? (Model.tables _) name = _
  rw [heq]
  exact htables name

theorem keys_commit : (p.commit m).tables.keys = m.tables.keys := by
  unfold commit
  obtain ⟨-, hkeys, -⟩ := foldl_counted p.lastIds.entries hnodupIds m
  obtain ⟨heq, -⟩ := foldl_addRows p.rows.entries hnodup (p.lastIds.entries.foldl _ m)
  rw [heq]
  exact hkeys

theorem rowsOf_commit (name : String) :
    (p.commit m).rowsOf name = m.rowsOf name ++ p.rowsOf name := by
  unfold commit
  obtain ⟨hrows, -, -⟩ := foldl_counted p.lastIds.entries hnodupIds m
  obtain ⟨-, h⟩ := foldl_addRows p.rows.entries hnodup (p.lastIds.entries.foldl _ m)
  rw [h name]
  congr 1
  exact congrArg (fun rows => (OrderedMap.get? rows name).getD []) hrows

end Commit

end FeatureTables.Population
