import FeatureTables.Conversion
import FeatureTables.Proofs.Layout.Growth
import FeatureTables.Proofs.Population.Commit
import Mathlib.Data.List.Induction

/-!
The documents that one conversion has seen, and the rows that were born of them. Each row of the model
is known with the visit that made it (`rowsOf_after`), each table has become of the one in which the
row was made (`settled_after`), and what a document does to the model is one statement (`Brings`).
-/

namespace FeatureTables.Conversion

open Population Xml

/-! ### One document -/

/-- What a document is populated with: the setting, and the table of the root unless the root says
nothing. -/
def setting (c : Conversion) (m : Model) (d : Document) :
    Except Error (Setting × Option String) := do
  let typing ← Typing.ofRoot c.catalog d.root
  let built ← Layout.build ⟨typing, c.options⟩ m.withoutRows d.root
  return (⟨{ built.model with rows := m.rows }, built.layout, c.codec⟩, built.rootTable?)

/-- A row, and how it was made. -/
structure Birth where
  setting : Setting
  visit : Visit
  row : Row

/-- The visits of a document in their setting. -/
structure Run where
  setting : Setting
  visit? : Option Visit

def Run.visits (r : Run) : List Visit := r.visit?.toList.flatMap Visit.all

theorem Run.mem_visits_of_below {r : Run} {v w : Visit} (hv : v ∈ r.visits) (hw : w ∈ v.visits) :
    w ∈ r.visits := by
  obtain ⟨root, hroot, hmem⟩ := List.mem_flatMap.1 hv
  exact List.mem_flatMap.2 ⟨root, hroot, Visit.mem_all_of_mem_visits hmem hw⟩

def Run.births (r : Run) : List Birth :=
  r.visits.filterMap fun v => v.row?.map (Birth.mk r.setting v)

def run (c : Conversion) (m : Model) (d : Document) : Except Error Run := do
  let (s, table?) ← c.setting m d
  match table? with
  | none => return ⟨s, none⟩
  | some table => return ⟨s, some (← visitsOf s d.root table)⟩

/-! ### Many documents -/

/-- The model so far, and how its rows were made. -/
structure History where
  model : Model := {}
  births : List Birth := []

/-- Converts one more document. One that fails changes nothing. -/
def step (c : Conversion) (h : History) (d : Document) : History :=
  match c.document h.model d, c.run h.model d with
  | .ok (m, _), .ok r => ⟨m, h.births ++ r.births⟩
  | _, _ => h

def history (c : Conversion) (docs : List Document) : History := docs.foldl c.step {}

/-- The model so far, and the runs of the documents that were converted. -/
structure Chronicle where
  model : Model := {}
  runs : List Run := []

def Chronicle.next (c : Conversion) (h : Chronicle) (d : Document) : Chronicle :=
  match c.document h.model d, c.run h.model d with
  | .ok (m, _), .ok r => ⟨m, h.runs ++ [r]⟩
  | _, _ => h

def chronicle (c : Conversion) (docs : List Document) : Chronicle :=
  docs.foldl (Chronicle.next c) {}

/-- The model after documents, of which each one that fails is passed over. -/
def after (c : Conversion) (docs : List Document) : Model :=
  docs.foldl (fun m d => match c.document m d with
    | .ok (n, _) => n
    | .error _ => m) {}

/-- How the rows of the model after documents were made. -/
def births (c : Conversion) (docs : List Document) : List Birth := (c.history docs).births

/-! ### Conversions of texts -/

/-- The conversion with the schema of a text. -/
def ofText (schema : String) (options : BuildOptions := {}) : Conversion :=
  ({ catalog := (Schema.Catalog.ofText schema).toOption.getD {} } : Conversion).withOptions options

/-- The documents of those texts that are documents. -/
def documents (texts : List String) : List Document :=
  texts.filterMap fun s => (Document.ofText s).toOption

/-! ### What a document brings -/

/-- A document brings its visits into a model: tables grow, elements enter the accounts of their
tables, and rows come behind those that are there. -/
structure Brings (m : Model) (r : Run) (n : Model) : Prop where
  grows : m.Grows r.setting.model
  follows : ∀ v ∈ r.visits, Follows r.setting v
  keys : n.tables.keys = r.setting.model.tables.keys
  tables : ∀ name t, r.setting.model.table? name = some t → ∃ a a', a.last = t.lastId ∧
    (t.hasNaturalId = true → a.known = knownIds m t) ∧
    Traces t a (r.visits.filter (·.table = name)) a' ∧
    n.table? name = some { t with lastId := max t.lastId a'.last }
  rows : ∀ name, n.rowsOf name = m.rowsOf name ++ made name r.visits
  parent : ∀ v, r.visit? = some v → v.parent? = none

theorem grows_withoutRows {m n : Model} (h : m.withoutRows.Grows n) :
    m.Grows { n with rows := m.rows } where
  rows := rfl
  order := h.order
  nodup := h.nodup
  kept := h.kept
  fresh := h.fresh

/-- The setting of a document is what building it leads to, with the rows of the model. -/
theorem setting_cases {c : Conversion} {m : Model} {d : Document} {s : Setting}
    {table? : Option String} (h : c.setting m d = .ok (s, table?)) : ∃ typing built,
      Typing.ofRoot c.catalog d.root = .ok typing ∧
      Layout.build ⟨typing, c.options⟩ m.withoutRows d.root = .ok built ∧
      s = ⟨{ built.model with rows := m.rows }, built.layout, c.codec⟩ ∧
      table? = built.rootTable? := by
  simp only [setting, bind_eq_ok_iff, pure, Except.pure, Except.ok.injEq] at h
  obtain ⟨typing, htyping, built, hbuilt, hs⟩ := h
  obtain ⟨rfl, rfl⟩ := Prod.mk.inj hs
  exact ⟨typing, built, htyping, hbuilt, rfl, rfl⟩

/-- A run is the visit of the root in its setting. -/
theorem run_cases {c : Conversion} {m : Model} {d : Document} {r : Run} (h : c.run m d = .ok r) :
    ∃ typing built, Typing.ofRoot c.catalog d.root = .ok typing ∧
      Layout.build ⟨typing, c.options⟩ m.withoutRows d.root = .ok built ∧
      r.setting = ⟨{ built.model with rows := m.rows }, built.layout, c.codec⟩ ∧
      (built.rootTable? = none ∧ r.visit? = none ∨ ∃ table v, built.rootTable? = some table ∧
        r.visit? = some v ∧ visitsOf r.setting d.root table = .ok v) := by
  simp only [run, bind_eq_ok_iff] at h
  obtain ⟨⟨s, table?⟩, hs, h⟩ := h
  obtain ⟨typing, built, htyping, hbuilt, rfl, rfl⟩ := setting_cases hs
  refine ⟨typing, built, htyping, hbuilt, ?_⟩
  cases htable : built.rootTable? with
  | none =>
    simp only [htable, pure, Except.pure, Except.ok.injEq] at h
    subst h
    exact ⟨rfl, Or.inl ⟨rfl, rfl⟩⟩
  | some table =>
    simp only [htable, bind_eq_ok_iff, pure, Except.pure, Except.ok.injEq] at h
    obtain ⟨v, hv, rfl⟩ := h
    exact ⟨rfl, Or.inr ⟨table, v, rfl, rfl, hv⟩⟩

theorem setting_grows {c : Conversion} {m : Model} {d : Document} {s : Setting}
    {table? : Option String} (h : c.setting m d = .ok (s, table?)) : m.Grows s.model := by
  obtain ⟨typing, built, -, hbuilt, rfl, -⟩ := setting_cases h
  exact grows_withoutRows (Layout.build_grows hbuilt)

section Convert

variable {α β : Type}

/-- A step that does not touch the model leaves it as it is, also if it fails. -/
theorem run_lift_bind (x : Except Error α) (f : α → ConvertM β) (m : Model) :
    (ExceptT.run ((liftM x : ConvertM α) >>= f)).run m =
      match x with
      | .error e => (.error e, m)
      | .ok a => (f a).run.run m := by
  cases x <;> rfl

theorem run_get_bind (f : Model → ConvertM β) (m : Model) :
    (ExceptT.run ((get : ConvertM Model) >>= f)).run m = (f m).run.run m := rfl

theorem ok_bind (a : α) (f : α → Except Error β) : Except.ok a >>= f = f a := rfl

/-- A document is converted in its setting. If this fails, in building or in populating, the model is
again what it was. -/
theorem run_convert (c : Conversion) (m : Model) (d : Document) :
    (c.convert d).run.run m =
      match c.setting m d with
      | .error e => (.error e, m)
      | .ok (s, none) => (.ok 0, s.model)
      | .ok (s, some table) =>
        match ofRoot s d.root table with
        | .ok p => (.ok p.rowCount, p.commit s.model)
        | .error e => (.error e, m) := by
  unfold convert setting
  cases Typing.ofRoot c.catalog d.root with
  | error e => rfl
  | ok typing =>
    simp only [run_lift_bind, run_get_bind, ok_bind]
    cases Layout.build ⟨typing, c.options⟩ m.withoutRows d.root with
    | error e => rfl
    | ok built =>
      simp only [ok_bind, pure, Except.pure]
      cases built.rootTable? with
      | none => rfl
      | some table =>
        dsimp only
        cases ofRoot ⟨{ built.model with rows := m.rows }, built.layout, c.codec⟩ d.root table <;> rfl

end Convert

/-- A document is converted in its setting. -/
theorem document_eq {c : Conversion} {m : Model} {d : Document} :
    c.document m d = (do
      let (s, table?) ← c.setting m d
      match table? with
      | none => return (s.model, 0)
      | some table =>
        let p ← ofRoot s d.root table
        return (p.commit s.model, p.rowCount)) := by
  unfold document
  rw [run_convert]
  cases c.setting m d with
  | error e => rfl
  | ok r =>
    obtain ⟨s, table?⟩ := r
    cases table? with
    | none => rfl
    | some table =>
      dsimp only [bind, Except.bind]
      cases ofRoot s d.root table <;> rfl

theorem document_cases {c : Conversion} {m n : Model} {d : Document} {k : Nat}
    (h : c.document m d = .ok (n, k)) : ∃ s table?, c.setting m d = .ok (s, table?) ∧
      (table? = none ∧ n = s.model ∧ k = 0 ∨ ∃ table p, table? = some table ∧
        ofRoot s d.root table = .ok p ∧ n = p.commit s.model ∧ k = p.rowCount) := by
  rw [document_eq, bind_eq_ok_iff] at h
  obtain ⟨⟨s, table?⟩, hs, h⟩ := h
  refine ⟨s, table?, hs, ?_⟩
  cases table? with
  | none =>
    simp only [pure, Except.pure, Except.ok.injEq, Prod.mk.injEq] at h
    exact Or.inl ⟨rfl, h.1.symm, h.2.symm⟩
  | some table =>
    simp only [bind_eq_ok_iff, pure, Except.pure, Except.ok.injEq, Prod.mk.injEq] at h
    obtain ⟨p, hp, hn, hk⟩ := h
    exact Or.inr ⟨table, p, rfl, hp, hn.symm, hk.symm⟩

section Brings

variable {c : Conversion} {m n : Model} {d : Document} {r : Run}

theorem brings_nothing {s : Setting} (h : m.Grows s.model) : Brings m ⟨s, none⟩ s.model where
  grows := h
  follows v hv := by cases hv
  keys := rfl
  tables name t ht :=
    ⟨⟨t.lastId, knownIds m t⟩, _, rfl, fun _ => rfl, .nil, by rw [ht, Int.max_self]⟩
  rows name := by
    show (s.model.rows.get? name).getD [] = _
    rw [h.rows]
    exact (List.append_nil _).symm
  parent v hv := by cases hv

theorem brings_visits {s : Setting} {v : Visit} {p : Progress} (hm : s.model.Sound)
    (hgrows : m.Grows s.model) (hv : v.parent? = none) (h : Visited s s.start v.all p) :
    Brings m ⟨s, some v⟩ (p.toPopulation.commit s.model) := by
  have hnodup : p.rows.keys.Nodup := h.nodup List.nodup_nil
  have hnodupIds : p.lastIds.keys.Nodup := h.nodupIds (OrderedMap.nodup_keys_ofList _)
  have hvisits : (Run.mk s (some v)).visits = v.all := List.append_nil _
  refine ⟨hgrows, ?_, keys_commit hnodup hnodupIds _, ?_, ?_, ?_⟩
  · rw [hvisits]
    exact h.follows
  · intro name t ht
    obtain ⟨hlast, hknown⟩ := start_account hm.nodup hm.named ht
    refine ⟨_, _, hlast, fun hnatural => ?_, hvisits ▸ h.traces name t ht, ?_⟩
    · rw [hknown hnatural]
      unfold knownIds Model.rowsOf
      rw [show (Run.mk s (some v)).setting.model = s.model from rfl, hgrows.rows]
    · have hmem : name ∈ s.start.lastIds.keys := by
        rw [OrderedMap.mem_keys_iff, start_lastIds hm.nodup hm.named]
        exact ⟨t.lastId, by rw [show s.model.table? name = some t from ht]; rfl⟩
      obtain ⟨last, hend⟩ := OrderedMap.mem_keys_iff.1 (h.counted name hmem)
      rw [table?_commit hnodup hnodupIds, ht]
      simp only [Option.map_some, Progress.account, hm.named name t ht, hend, Option.elim_some,
        Option.getD_some]
  · intro name
    rw [rowsOf_commit hnodup hnodupIds, h.rows, hvisits]
    show (s.model.rows.get? name).getD [] ++ _ = _
    rw [hgrows.rows]
    rfl
  · intro w hw
    cases hw
    exact hv

/-- A document that is converted brings its visits into the model. -/
theorem brings (hm : m.Sound) {k : Nat} (h : c.document m d = .ok (n, k)) :
    ∃ r, c.run m d = .ok r ∧ Brings m r n := by
  obtain ⟨s, table?, hs, hcases⟩ := document_cases h
  have hgrows := setting_grows hs
  have hsound := hgrows.sound hm
  rcases hcases with ⟨rfl, rfl, -⟩ | ⟨table, p, rfl, hp, rfl, -⟩
  · exact ⟨⟨s, none⟩, by rw [run, hs]; rfl, brings_nothing hgrows⟩
  · obtain ⟨v, q, hv, rfl⟩ := ofRoot_eq_ok_iff.1 hp
    obtain ⟨-, -, hparent, hvisited⟩ := visit_faithful hsound.named _ hv
    refine ⟨⟨s, some v⟩, ?_, brings_visits hsound hgrows hparent hvisited⟩
    simp only [run, hs, bind, Except.bind, visitsOf_eq_ok_iff.2 ⟨q, hv⟩]
    rfl

/-- The tables are those of the setting, with other numbers. -/
theorem Brings.table_cases (h : Brings m r n) {name : String} {u : Table}
    (hu : n.table? name = some u) :
    ∃ t k, r.setting.model.table? name = some t ∧ u = { t with lastId := k } := by
  have hmem : name ∈ r.setting.model.tables.keys := by
    rw [← h.keys]
    exact OrderedMap.mem_keys_of_get? hu
  obtain ⟨t, ht⟩ := OrderedMap.mem_keys_iff.1 hmem
  obtain ⟨a, a', -, -, -, hn⟩ := h.tables name t ht
  rw [hn] at hu
  cases hu
  exact ⟨t, _, ht, rfl⟩

/-- A table that is not there has not been there before, and had no visits. -/
theorem Brings.unseen (h : Brings m r n) {name : String} (hname : n.table? name = none) :
    m.table? name = none ∧ ∀ v ∈ r.visits, v.table ≠ name := by
  have hnone : r.setting.model.table? name = none := by
    show r.setting.model.tables.get? name = none
    rw [OrderedMap.get?_eq_none_iff, ← h.keys]
    exact OrderedMap.get?_eq_none_iff.1 hname
  constructor
  · cases ht : m.table? name with
    | none => rfl
    | some t =>
      obtain ⟨u, hu, -⟩ := h.grows.kept name t ht
      rw [hnone] at hu
      cases hu
  · rintro v hv rfl
    obtain ⟨t, ht⟩ := (h.follows v hv).table
    rw [hnone] at ht
    cases ht

theorem Brings.sound (h : Brings m r n) (hm : m.Sound) : n.Sound := by
  have hs := h.grows.sound hm
  refine ⟨h.keys ▸ hs.nodup, fun name u hu => ?_, fun name u hu => ?_⟩
  · obtain ⟨t, k, ht, rfl⟩ := h.table_cases hu
    exact hs.named name t ht
  · obtain ⟨t, k, ht, rfl⟩ := h.table_cases hu
    exact (hs.tables name t ht).numbered k

/-- What becomes of the tables of the setting. -/
theorem Brings.becomes (h : Brings m r n) {name : String} {t : Table}
    (ht : r.setting.model.table? name = some t) :
    ∃ u, n.table? name = some u ∧ t.Becomes u := by
  obtain ⟨a, a', -, -, -, hn⟩ := h.tables name t ht
  exact ⟨_, hn, Table.becomes_numbered t _⟩

end Brings

/-! ### What many documents bring -/

section History

variable {c : Conversion}

theorem chronicle_concat (docs : List Document) (d : Document) :
    c.chronicle (docs ++ [d]) = (c.chronicle docs).next c d := by
  rw [chronicle, List.foldl_append]
  rfl

theorem history_concat (docs : List Document) (d : Document) :
    c.history (docs ++ [d]) = c.step (c.history docs) d := by
  rw [history, List.foldl_append]
  rfl

theorem after_concat (docs : List Document) (d : Document) :
    c.after (docs ++ [d]) = match c.document (c.after docs) d with
      | .ok (n, _) => n
      | .error _ => c.after docs := by
  rw [after, List.foldl_append]
  rfl

/-- A document that fails changes nothing, any other one brings its run. -/
theorem next_cases {h : Chronicle} (hm : h.model.Sound) (d : Document) :
    (h.next c d = h ∧ ∃ e, c.document h.model d = .error e) ∨ ∃ r n k,
      c.document h.model d = .ok (n, k) ∧ c.run h.model d = .ok r ∧ Brings h.model r n ∧
      h.next c d = ⟨n, h.runs ++ [r]⟩ := by
  unfold Chronicle.next
  cases hd : c.document h.model d with
  | error e => exact Or.inl ⟨rfl, e, rfl⟩
  | ok nk =>
    obtain ⟨n, k⟩ := nk
    obtain ⟨r, hr, hbrings⟩ := brings hm hd
    exact Or.inr ⟨r, n, k, rfl, hr, hbrings, by rw [hr]⟩

/-- What holds before all documents and is kept by each one that is converted holds after them. -/
theorem chronicle_induct {P : Chronicle → Prop} (docs : List Document) (empty : P {})
    (step : ∀ d ∈ docs, ∀ h r n, h.model.Sound → c.run h.model d = .ok r → Brings h.model r n →
      P h → P ⟨n, h.runs ++ [r]⟩) :
    (c.chronicle docs).model = c.after docs ∧ (c.after docs).Sound ∧ P (c.chronicle docs) := by
  induction docs using List.reverseRecOn with
  | nil => exact ⟨rfl, Model.sound_empty, empty⟩
  | append_singleton docs d ih =>
    obtain ⟨hmodel, hsound, hP⟩ := ih fun d' hd' => step d' (List.mem_append_left _ hd')
    rw [chronicle_concat, after_concat]
    rcases next_cases (hmodel ▸ hsound) d with ⟨h, e, he⟩ | ⟨r, n, k, hn, hr, hbrings, h⟩
    · rw [h, ← hmodel, he]
      exact ⟨rfl, hmodel ▸ hsound, hP⟩
    · rw [h, ← hmodel, hn]
      exact ⟨rfl, hbrings.sound (hmodel ▸ hsound),
        step d (by simp) _ r n (hmodel ▸ hsound) hr hbrings hP⟩

theorem model_chronicle (docs : List Document) : (c.chronicle docs).model = c.after docs :=
  (chronicle_induct (P := fun _ => True) docs trivial fun _ _ _ _ _ _ _ _ _ => trivial).1

/-- The births of a history are those of the runs. -/
theorem history_eq (docs : List Document) : c.history docs =
    ⟨(c.chronicle docs).model, (c.chronicle docs).runs.flatMap Run.births⟩ := by
  induction docs using List.reverseRecOn with
  | nil => rfl
  | append_singleton docs d ih =>
    rw [history_concat, chronicle_concat, ih]
    unfold step Chronicle.next
    cases c.document (c.chronicle docs).model d with
    | error e => rfl
    | ok nk =>
      cases c.run (c.chronicle docs).model d with
      | error e => rfl
      | ok r =>
        dsimp only
        rw [List.flatMap_append, List.flatMap_singleton]

theorem after_eq (docs : List Document) : c.after docs = (c.history docs).model := by
  rw [history_eq]
  exact (model_chronicle docs).symm

theorem sound_after (docs : List Document) : (c.after docs).Sound :=
  (chronicle_induct (P := fun _ => True) docs trivial fun _ _ _ _ _ _ _ _ _ => trivial).2.1

theorem history_induct {P : History → Prop} (empty : P {})
    (step : ∀ h r n, h.model.Sound → Brings h.model r n → P h → P ⟨n, h.births ++ r.births⟩)
    (docs : List Document) : (c.history docs).model.Sound ∧ P (c.history docs) := by
  obtain ⟨-, -, hP⟩ := chronicle_induct (c := c)
    (P := fun h => P ⟨h.model, h.runs.flatMap Run.births⟩) docs empty
    fun d _ h r n hsound _ hbrings hP => by
      rw [List.flatMap_append, List.flatMap_singleton]
      exact step _ r n hsound hbrings hP
  refine ⟨?_, history_eq (c := c) docs ▸ hP⟩
  rw [← after_eq]
  exact sound_after docs

/-- The same for what is said of the model alone. -/
theorem after_induct {P : Model → Prop} (docs : List Document) (empty : P {})
    (step : ∀ d ∈ docs, ∀ {m n r}, m.Sound → c.run m d = .ok r → Brings m r n → P m → P n) :
    P (c.after docs) := by
  obtain ⟨hmodel, -, hP⟩ := chronicle_induct (c := c) (P := fun h => P h.model) docs empty
    fun d hd h r n hsound hr hbrings hP => step d hd hsound hr hbrings hP
  exact hmodel ▸ hP

theorem made_eq (r : Run) (name : String) :
    made name r.visits = (r.births.filter (·.visit.table = name)).map (·.row) := by
  unfold made Run.births
  induction r.visits with
  | nil => rfl
  | cons v vs ih =>
    simp only [List.filterMap_cons, ih]
    cases hrow : v.row? with
    | none => by_cases hname : v.table = name <;> simp [hname]
    | some row => by_cases hname : v.table = name <;> simp [hname]

/-- The rows of a table are those that were born in it, in this order. -/
theorem rowsOf_after (docs : List Document) (name : String) : (c.after docs).rowsOf name =
    ((c.births docs).filter (·.visit.table = name)).map (·.row) := by
  rw [after_eq]
  unfold births
  refine (history_induct (P := fun h => h.model.rowsOf name =
    (h.births.filter (·.visit.table = name)).map (·.row)) rfl ?_ docs).2
  intro h r n _ hbrings ih
  rw [hbrings.rows, ih, made_eq, List.filter_append, List.map_append]

theorem mem_rowsOf_after {docs : List Document} {name : String} {row : Row} :
    row ∈ (c.after docs).rowsOf name ↔
      ∃ b ∈ c.births docs, b.visit.table = name ∧ b.row = row := by
  simp [rowsOf_after, and_assoc]

/-- A row of a table of the model, made by a visit of an earlier form of the table. -/
structure Birth.Settled (b : Birth) (m : Model) (t u : Table) : Prop where
  made : b.visit.row? = some b.row
  follows : Follows b.setting b.visit
  table : b.setting.model.table? b.visit.table = some t
  sound : b.setting.model.Sound
  becomes : t.Becomes u
  grown : m.table? b.visit.table = some u

theorem mem_births {r : Run} {b : Birth} (hb : b ∈ r.births) :
    b.setting = r.setting ∧ b.visit ∈ r.visits ∧ b.visit.row? = some b.row := by
  obtain ⟨v, hv, hb⟩ := List.mem_filterMap.1 hb
  obtain ⟨row, hrow, rfl⟩ := Option.map_eq_some_iff.1 hb
  exact ⟨rfl, hv, hrow⟩

theorem settled_after (docs : List Document) :
    ∀ b ∈ c.births docs, ∃ t u, b.Settled (c.after docs) t u := by
  rw [after_eq]
  refine (history_induct (P := fun h => ∀ b ∈ h.births, ∃ t u, b.Settled h.model t u)
    (fun b hb => by cases hb) ?_ docs).2
  intro h r n hsound hbrings ih b hb
  rcases List.mem_append.1 hb with hb | hb
  · obtain ⟨t, u, hsettled⟩ := ih b hb
    obtain ⟨v, hv, huv⟩ := hbrings.grows.kept _ u hsettled.grown
    obtain ⟨w, hw, hvw⟩ := hbrings.becomes hv
    exact ⟨t, w, hsettled.made, hsettled.follows, hsettled.table, hsettled.sound,
      (hsettled.becomes.trans huv.becomes).trans hvw, hw⟩
  · obtain ⟨hsetting, hvisit, hrow⟩ := mem_births hb
    have hfollows := hbrings.follows _ hvisit
    obtain ⟨t, found, ht, -⟩ := hfollows.of_row hrow
    obtain ⟨u, hu, htu⟩ := hbrings.becomes ht
    exact ⟨t, u, hrow, hsetting ▸ hfollows, hsetting ▸ ht, hsetting ▸ hbrings.grows.sound hsound,
      htu, hu⟩

end History

end FeatureTables.Conversion
