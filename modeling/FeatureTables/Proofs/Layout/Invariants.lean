import FeatureTables.Proofs.Layout.Growth

/-!
Invariants of building. A property that fields keep (`Field.Lasts`) holds of all fields of a table but
its identifier as soon as it holds of those that are added (`Table.All`). So an invariant of models is
kept by the building of a whole document, if it is kept by each new table and by fields that have what
all fields of elements have in common (`Invariant.build`).
-/

namespace FeatureTables

/-- A property that a field keeps when it is joined with other ones, or relaxed. -/
structure Field.Lasts (P : Field → Prop) : Prop where
  join : ∀ {f} g, P f → P (f.join g)
  relaxed : ∀ {f}, P f → P f.relaxed

namespace Table

variable {t u : Table} {P Q : Field → Prop}

/-! ### The fields of one table -/

/-- The fields have the property, except the one that identifies rows. -/
def All (P : Field → Prop) (t : Table) : Prop :=
  ∀ key f, t.fields.get? key = some f → key ≠ t.uid → P f

theorem All.mono (h : t.All P) (hPQ : ∀ f, P f → Q f) : t.All Q :=
  fun key f hf hkey => hPQ f (h key f hf hkey)

theorem all_create (P : Field → Prop) (name : String) (natural : Bool) :
    (create name natural).All P := by
  intro key f hf hkey
  rw [get?_create] at hf
  split at hf
  · exact absurd (by assumption) hkey
  · cases hf

theorem All.addField (hP : Field.Lasts P) (h : t.All P) {f : Field} (hf : P f) :
    (t.addField f).All P := by
  intro key g hg hkey
  rw [addField_uid] at hkey
  have hput : ∀ new, P new → (t.fields.put f.key new).get? key = some g → P g := by
    intro new hnew hg
    rw [OrderedMap.get?_put] at hg
    split at hg
    · cases hg
      exact hnew
    · exact h key g hg hkey
  rcases addField_cases t f with ⟨-, he⟩ | ⟨hf', known, hknown, he⟩ | ⟨-, -, r, he, -⟩
  · rw [he] at hg
    exact h key g hg hkey
  · rw [he] at hg
    exact hput _ (hP.join f (h _ _ hknown hf')) hg
  · rw [he] at hg
    exact hput _ hf hg

theorem All.relax (hP : Field.Lasts P) (h : t.All P) (key : String) :
    ({ t with fields := t.fields.modify key Field.relaxed } : Table).All P := by
  intro key' g hg hkey
  change (t.fields.modify key Field.relaxed).get? key' = some g at hg
  rw [OrderedMap.get?_modify] at hg
  split at hg
  · obtain ⟨f, hf, rfl⟩ := Option.map_eq_some_iff.1 hg
    exact hP.relaxed (h key' f hf hkey)
  · exact h key' g hg hkey

theorem All.relaxing (hP : Field.Lasts P) (h : t.All P) (keys : List String) :
    ({ t with fields := keys.foldl (fun fields key => fields.modify key Field.relaxed) t.fields } :
      Table).All P := by
  induction keys generalizing t with
  | nil => exact h
  | cons key keys ih => exact ih (h.relax hP key)

/-- The fields of an element are added to a table. -/
theorem All.extend (hP : Field.Lasts P) (h : t.All P) {fs : List Field} (hfs : ∀ f ∈ fs, P f) :
    (fs.foldl Layout.addField t).All P := by
  induction fs generalizing t with
  | nil => exact h
  | cons f fs ih =>
    refine ih ?_ fun g hg => hfs g (List.mem_cons_of_mem _ hg)
    have hf := hfs f List.mem_cons_self
    unfold Layout.addField
    cases Layout.conflicts t f with
    | nil => exact h.addField hP hf
    | cons key keys => exact (h.relaxing hP (key :: keys)).addField hP (hP.relaxed hf)

/-! ### The identifier -/

/-- The column that identifies rows keeps its type, and whether it numbers them. -/
theorem Grows.uidColumn (h : t.Grows u) {c : Column} (hc : t.fields.get? t.uid = some (.column c)) :
    ∃ d, u.fields.get? u.uid = some (.column d) ∧ d.type = c.type ∧
      d.autoIncrement = c.autoIncrement := by
  induction h with
  | refl => exact ⟨c, hc, rfl, rfl⟩
  | @add u _ f ih =>
    obtain ⟨d, hd, hrest⟩ := ih
    refine ⟨d, ?_, hrest⟩
    rw [addField_uid]
    rcases addField_cases u f with ⟨-, he⟩ | ⟨hf, g, -, he⟩ | ⟨hf, -, r, he, -⟩ <;> rw [he]
    · exact hd
    · show (u.fields.put f.key _).get? u.uid = _
      rw [OrderedMap.get?_put, if_neg (Ne.symm hf), hd]
    · show (u.fields.put f.key _).get? u.uid = _
      rw [OrderedMap.get?_put, if_neg (Ne.symm hf), hd]
  | @relax u _ key ih =>
    obtain ⟨d, hd, hrest⟩ := ih
    show ∃ d', (u.fields.modify key Field.relaxed).get? u.uid = some (.column d') ∧ _
    rw [OrderedMap.get?_modify]
    split
    · exact ⟨{ d with optional := true }, by rw [hd]; rfl, hrest⟩
    · exact ⟨d, hd, hrest⟩

theorem Grows.uidType (h : t.Grows u) (ht : t.Sound) : u.uidType = t.uidType := by
  obtain ⟨c, hc⟩ := ht.uidColumn
  obtain ⟨d, hd, htype, -⟩ := h.uidColumn hc
  unfold Table.uidType
  rw [hc, hd]
  exact htype

end Table

namespace Layout

open Xml Element

/-! ### The fields of elements -/

/-- What building keeps: `I` of models, as long as tables have names with `N` and elements are such
that `E`. The fields of elements have `F` then. -/
structure Invariant (E : Element → Prop) (N : String → Prop) (I : Model → Prop)
    (F : Model → Field → Prop) : Prop where
  next : ∀ {name e} parent natural, N name → E e → N (nextName name (keyStep parent e) natural)
  grows : ∀ {m n f}, I m → m.Grows n → F m f → F n f
  started : ∀ {m name} natural, I m → N name → m.table? name = none →
    I (m.addTable (Table.create name natural))
  extended : ∀ {m name} {fs : List Field}, I m → (∀ f ∈ fs, F m f) →
    I { m with tables := m.tables.modify name (fs.foldl addField) }
  own : ∀ {m e t f}, f ∈ ownFields e t → F m f
  geometry : ∀ {m o e optional}, F m (geometryField o e optional)
  link : ∀ {m parent e table u t optional}, E e → m.table? table = some u →
    F m (linkField m (keyStep parent e) table t optional)
  under : ∀ {m f} step optional, F m f → F m (f.under step optional)

/-- Building has kept the invariant, and the fields that were found have what they have in common. -/
structure Keeps (I : Model → Prop) (F : Model → Field → Prop) (b : Building) (fs : List Field)
    (b' : Building) : Prop where
  grows : b.model.Grows b'.model
  model : I b'.model
  fields : ∀ f ∈ fs, F b'.model f

section Invariant

variable {E : Element → Prop} {N : String → Prop} {I : Model → Prop} {F : Model → Field → Prop}
  {s : Setting} {name : String} {parent e : Element} {b b' : Building} {fs : List Field}

theorem Invariant.startedTable (h : Invariant E N I F) (hI : I b.model) (hname : N name)
    (natural : Bool) : I (b.started name natural).model := by
  rcases b.started_cases name natural with ⟨-, heq⟩ | ⟨hnone, heq⟩ <;> rw [heq]
  · exact hI
  · exact h.started natural hI hname hnone

/-- A row of its own: the table is there in the end. -/
theorem Invariant.row (h : Invariant E N I F) {p : Placement} {natural : Bool} {b₁ : Building}
    (hown : Keeps I F ((b.started name natural).placed e p) fs b₁) :
    b.model.Grows (b₁.extended name fs).model ∧ I (b₁.extended name fs).model ∧
      ∃ u, (b₁.extended name fs).model.table? name = some u := by
  have hgrows : (b.started name natural).model.Grows (b₁.extended name fs).model :=
    hown.grows.trans ((kept_grows (s := ⟨{}, {}⟩)).extended b₁ name fs)
  obtain ⟨t, ht⟩ := b.exists_started name natural
  obtain ⟨u, hu, -⟩ := hgrows.kept name t ht
  exact ⟨((kept_grows (s := ⟨{}, {}⟩)).started b name natural).trans hgrows,
    h.extended hown.model hown.fields, u, hu⟩

theorem Invariant.childFields (h : Invariant E N I F) (hname : N name) (he : E e) (hI : I b.model)
    {fields : String → BuildM (List Field)}
    (hfields : ∀ {next b fs b'}, N next → I b.model → Leads (fields next) b fs b' → Keeps I F b fs b')
    (hb : Leads (childFields s name parent e fields) b fs b') : Keeps I F b fs b' := by
  obtain ⟨t, -, hcases⟩ := childFields_cases hb
  rcases hcases with ⟨rfl, rfl, -⟩ | ⟨-, rfl, rfl, -⟩ | ⟨-, below, own, hown, rfl, -, rfl⟩ |
    ⟨-, target, natural, own, b₁, hown, rfl, rfl, -, -, rfl⟩
  · exact ⟨.refl _, hI, fun f hf => List.mem_singleton.1 hf ▸ h.geometry⟩
  · exact ⟨.refl _, hI, fun f hf => by cases hf⟩
  · obtain ⟨hgrows, hmodel, hall⟩ :=
      hfields (b := b.placed e .inlined) (h.next parent false hname he) hI hown
    refine ⟨hgrows, hmodel, fun f hf => ?_⟩
    obtain ⟨g, hg, rfl⟩ := List.mem_map.1 hf
    exact h.under _ _ (hall g hg)
  · have htarget := h.next parent natural hname he
    obtain ⟨hgrows, hmodel, u, hu⟩ := h.row (b := b)
      (hfields htarget (h.startedTable hI htarget natural) hown)
    exact ⟨hgrows, hmodel, fun f hf => List.mem_singleton.1 hf ▸ h.link he hu⟩

theorem Invariant.collectAmong (h : Invariant E N I F) (hname : N name) {es : List Element}
    (hE : ∀ c ∈ es, E c) (hI : I b.model)
    (hcollect : ∀ c ∈ es, ∀ {name b fs b'}, N name → I b.model →
      Leads (Layout.collect s name c) b fs b' → Keeps I F b fs b')
    (hb : Leads (Layout.collectAmong s name parent es) b fs b') : Keeps I F b fs b' := by
  induction es generalizing b fs with
  | nil =>
    obtain ⟨rfl, rfl⟩ := leads_collectAmong_nil.1 hb
    exact ⟨.refl _, hI, fun f hf => by cases hf⟩
  | cons c es ih =>
    obtain ⟨first, b₁, rest, hfirst, hrest, rfl⟩ := leads_collectAmong_cons.1 hb
    have hkeeps := h.childFields hname (hE c List.mem_cons_self) hI
      (hcollect c List.mem_cons_self) hfirst
    have hkeeps' := ih (fun d hd => hE d (List.mem_cons_of_mem _ hd)) hkeeps.model
      (fun d hd => hcollect d (List.mem_cons_of_mem _ hd)) hrest
    refine ⟨hkeeps.grows.trans hkeeps'.grows, hkeeps'.model, fun f hf => ?_⟩
    rcases List.mem_append.1 hf with hf | hf
    · exact h.grows hkeeps.model hkeeps'.grows (hkeeps.fields f hf)
    · exact hkeeps'.fields f hf

theorem Invariant.collect (h : Invariant E N I F) (e : Element) (hE : ∀ y ∈ e.inner, E y) :
    ∀ {name b fs b'}, N name → I b.model → Leads (Layout.collect s name e) b fs b' →
      Keeps I F b fs b' := by
  induction e using induct_tree with
  | h e ih =>
    intro name b fs b' hname hI hb
    obtain ⟨t, rest, -, hrest, rfl⟩ := leads_collect.1 hb
    have hkeeps := h.collectAmong hname (fun c hc => hE c (mem_inner_of_mem_children hc)) hI
      (fun c hc => ih c hc fun y hy => hE y (mem_inner_iff.2
        ⟨c, hc, mem_descendants_iff.2 (Or.inr hy)⟩)) hrest
    refine ⟨hkeeps.grows, hkeeps.model, fun f hf => ?_⟩
    rcases List.mem_append.1 hf with hf | hf
    · exact h.own hf
    · exact hkeeps.fields f hf

/-- Before links back are added, the model of a document has what the invariant says. -/
theorem Invariant.buildTable (h : Invariant E N I F) (hname : N name) (hE : ∀ y ∈ e.inner, E y)
    (hI : I b.model) {r : Option String}
    (hb : Leads (Layout.buildTable s e name (Layout.collect s name e)) b r b') : I b'.model := by
  obtain ⟨t, -, hcases⟩ := buildTable_cases hb
  rcases hcases with ⟨-, -, rfl⟩ | ⟨-, -, fs, b₁, hfs, rfl⟩
  · exact hI
  · exact (h.row (b := b) (h.collect e hE hname (h.startedTable hI hname _) hfs)).2.1

end Invariant

end Layout

end FeatureTables
