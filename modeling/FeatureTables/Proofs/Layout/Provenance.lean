import FeatureTables.Proofs.Layout.Contents
import FeatureTables.Proofs.Layout.Growth
import FeatureTables.Proofs.Model.LinksBack
import FeatureTables.Proofs.Table.Absorption

/-!
Where the fields of tables come from. The table of a row has been told all fields that the row brings
(`Equipped`), and each of its fields has grown from one that was there before or that a row of the
table brings (`Builds`). So the tables of a document that is built into an empty model have the fields
that its rows bring, and no others but links back (`build_records`).
-/

namespace FeatureTables

/-! ### The fields of one table -/

namespace Table

/-- A field of a table with one field added was there, or is the one that was added. -/
theorem addField_origin {t : Table} {f g : Field} {key : String}
    (h : (t.addField f).fields.get? key = some g) :
    (∃ g₀, t.fields.get? key = some g₀ ∧ g₀.Grows g) ∨ f.key = key ∧ f.Grows g := by
  rcases addField_cases t f with ⟨-, he⟩ | ⟨-, known, hknown, he⟩ | ⟨-, -, r, he, -⟩
  · rw [he] at h
    exact Or.inl ⟨g, h, .refl g⟩
  · rw [he] at h
    change (t.fields.put f.key (known.join f)).get? key = some g at h
    rw [OrderedMap.get?_put] at h
    split at h
    · rename_i hkey
      obtain rfl := Option.some.inj h
      exact Or.inl ⟨known, hkey ▸ hknown, Field.grows_join known f⟩
    · exact Or.inl ⟨g, h, .refl g⟩
  · rw [he] at h
    change (t.fields.put f.key f).get? key = some g at h
    rw [OrderedMap.get?_put] at h
    split at h
    · rename_i hkey
      obtain rfl := Option.some.inj h
      exact Or.inr ⟨hkey.symm, .refl _⟩
    · exact Or.inl ⟨g, h, .refl g⟩

theorem relax_origin {t : Table} {g : Field} {k key : String}
    (h : (t.fields.modify k Field.relaxed).get? key = some g) :
    ∃ g₀, t.fields.get? key = some g₀ ∧ g₀.Grows g := by
  rw [OrderedMap.get?_modify] at h
  split at h
  · obtain ⟨g₀, hg₀, rfl⟩ := Option.map_eq_some_iff.1 h
    exact ⟨g₀, hg₀, Field.grows_relaxed g₀⟩
  · exact ⟨g, h, .refl g⟩

/-- The type of the identifiers that a link refers to is that of the first time. -/
theorem covers_untyped {t : Table} {f : Field} : t.Covers f.untyped ↔ t.Covers f := by
  have habsorbs : ∀ g : Field, g.Absorbs f.untyped ↔ g.Absorbs f := fun g => by
    cases g <;> cases f <;> rfl
  simp only [Covers, Field.key_untyped, habsorbs]

end Table

namespace Layout

open Xml Element

theorem relaxing_origin {t : Table} {keys : List String} {g : Field} {key : String}
    (h : (keys.foldl (fun fields key => fields.modify key Field.relaxed) t.fields).get? key =
      some g) : ∃ g₀, t.fields.get? key = some g₀ ∧ g₀.Grows g := by
  induction keys generalizing t with
  | nil => exact ⟨g, h, .refl g⟩
  | cons k keys ih =>
    obtain ⟨g₁, hg₁, hgrows⟩ := ih (t := { t with fields := t.fields.modify k Field.relaxed }) h
    obtain ⟨g₀, hg₀, hgrows₀⟩ := Table.relax_origin hg₁
    exact ⟨g₀, hg₀, hgrows₀.trans hgrows⟩

theorem addField_origin {t : Table} {f g : Field} {key : String}
    (h : (addField t f).fields.get? key = some g) :
    (∃ g₀, t.fields.get? key = some g₀ ∧ g₀.Grows g) ∨ f.key = key ∧ f.Grows g := by
  unfold addField at h
  cases hkeys : conflicts t f with
  | nil =>
    rw [hkeys] at h
    exact Table.addField_origin h
  | cons k keys =>
    rw [hkeys] at h
    rcases Table.addField_origin h with ⟨g₁, hg₁, hgrows⟩ | ⟨hkey, hgrows⟩
    · obtain ⟨g₀, hg₀, hgrows₀⟩ := relaxing_origin hg₁
      exact Or.inl ⟨g₀, hg₀, hgrows₀.trans hgrows⟩
    · exact Or.inr ⟨Field.key_relaxed f ▸ hkey, (Field.grows_relaxed f).trans hgrows⟩

theorem foldl_origin {fs : List Field} {t : Table} {g : Field} {key : String}
    (h : (fs.foldl addField t).fields.get? key = some g) :
    (∃ g₀, t.fields.get? key = some g₀ ∧ g₀.Grows g) ∨ ∃ f ∈ fs, f.key = key ∧ f.Grows g := by
  induction fs generalizing t with
  | nil => exact Or.inl ⟨g, h, .refl g⟩
  | cons f fs ih =>
    rcases ih h with ⟨g₁, hg₁, hgrows⟩ | ⟨f', hf', hkey, hgrows⟩
    · rcases addField_origin hg₁ with ⟨g₀, hg₀, hgrows₀⟩ | ⟨hkey, hgrows₀⟩
      · exact Or.inl ⟨g₀, hg₀, hgrows₀.trans hgrows⟩
      · exact Or.inr ⟨f, List.mem_cons_self, hkey, hgrows₀.trans hgrows⟩
    · exact Or.inr ⟨f', List.mem_cons_of_mem _ hf', hkey, hgrows⟩

theorem covers_addField (t : Table) (f : Field) : (addField t f).Covers f := by
  unfold addField
  cases conflicts t f with
  | nil => exact Table.covers_addField t f
  | cons key keys => exact (Table.covers_addField _ f.relaxed).of_relaxed

theorem covers_foldl {fs : List Field} {f : Field} (hf : f ∈ fs) (t : Table) :
    (fs.foldl addField t).Covers f := by
  induction fs generalizing t with
  | nil => cases hf
  | cons g fs ih =>
    rcases List.mem_cons.1 hf with rfl | hf
    · exact (covers_addField t f).grows (Table.Grows.foldl grows_addField _ fs)
    · exact ih hf _

/-! ### What building elements does to tables -/

/-- The table in which an element was placed has been told all fields that the element brings. -/
def Equipped (s : Setting) (m : Model) (l : Layout) (e : Element) : Prop :=
  ∀ name, l.get? e.id = some (.table name) → ∃ t, m.table? name = some t ∧
    ∀ f, Carries s l e f → t.Covers f

/-- The field has grown from one that the row of one of these elements brings. -/
def TracedTo (s : Setting) (l : Layout) (es : List Element) (name key : String) (f : Field) : Prop :=
  ∃ y ∈ es, l.get? y.id = some (.table name) ∧ ∃ g, Carries s l y g ∧ g.key = key ∧ g.Grows f

/-- The elements have been built: the rows among them have told their tables all their fields, and each
field of a table was there before, or comes from such a row. -/
structure Builds (s : Setting) (es : List Element) (b b' : Building) : Prop where
  equipped : ∀ y ∈ es, Equipped s b'.model b'.layout y
  traced : ∀ name u key f, b'.model.table? name = some u → u.fields.get? key = some f →
    key ≠ u.uid →
    (∃ t f₀, b.model.table? name = some t ∧ t.fields.get? key = some f₀ ∧ f₀.Grows f) ∨
      TracedTo s b'.layout es name key f

section Builds

variable {s : Setting} {m n : Model} {l l' : Layout} {e : Element} {b b₁ b' : Building}
  {es es' : List Element} {name key : String} {f : Field}

theorem Equipped.mono (h : Equipped s m l e) (hm : m.Grows n)
    (heq : ∀ y ∈ e.descendants, l'.get? y.id = l.get? y.id) : Equipped s n l' e := by
  intro name hname
  rw [heq e (mem_descendants_self e)] at hname
  obtain ⟨t, ht, hcovers⟩ := h name hname
  obtain ⟨u, hu, htu⟩ := hm.kept name t ht
  refine ⟨u, hu, fun f hf => (hcovers f (hf.congr fun y hy => ?_)).grows htu⟩
  exact (heq y (mem_descendants_iff.2 (Or.inr hy))).symm

theorem TracedTo.mono {g : Field} (h : TracedTo s l es name key f) (hsub : es ⊆ es')
    (heq : ∀ y ∈ es, ∀ z ∈ y.descendants, l'.get? z.id = l.get? z.id) (hf : f.Grows g) :
    TracedTo s l' es' name key g := by
  obtain ⟨y, hy, hplaced, f', hf', hkey, hgrows⟩ := h
  refine ⟨y, hsub hy, ?_, f', hf'.congr fun z hz => ?_, hkey, hgrows.trans hf⟩
  · rw [heq y hy y (mem_descendants_self y), hplaced]
  · exact heq y hy z (mem_descendants_iff.2 (Or.inr hz))

/-- Elements are built one after the other. -/
theorem Builds.append (h : Builds s es b b₁) (h' : Builds s es' b₁ b')
    (hgrows : b₁.model.Grows b'.model)
    (heq : ∀ y ∈ es, ∀ z ∈ y.descendants, b'.layout.get? z.id = b₁.layout.get? z.id) :
    Builds s (es ++ es') b b' where
  equipped y hy := by
    rcases List.mem_append.1 hy with hy | hy
    · exact (h.equipped y hy).mono hgrows (heq y hy)
    · exact h'.equipped y hy
  traced name u key f hu hf hkey := by
    rcases h'.traced name u key f hu hf hkey with ⟨t, f₁, ht, hf₁, hgrows₁⟩ | htraced
    · have huid : u.uid = t.uid := by
        obtain ⟨u', hu', htu⟩ := hgrows.kept name t ht
        obtain rfl := Option.some.inj (hu.symm.trans hu')
        exact htu.uid
      rcases h.traced name t key f₁ ht hf₁ (huid ▸ hkey) with ⟨t₀, f₀, ht₀, hf₀, hgrows₀⟩ | htraced
      · exact Or.inl ⟨t₀, f₀, ht₀, hf₀, hgrows₀.trans hgrows₁⟩
      · exact Or.inr (htraced.mono (List.subset_append_left _ _) heq hgrows₁)
    · exact Or.inr (htraced.mono (List.subset_append_right _ _) (fun _ _ _ _ => rfl) (.refl f))

/-- Placing an element that has no row changes no table. -/
theorem builds_put {c : Element} (hd : c.Distinct)
    (hnone : ∀ y ∈ c.descendants, b.layout.get? y.id = none) {p : Placement}
    (hp : ∀ target, p ≠ .table target) : Builds s c.descendants b (b.placed c p) where
  equipped y hy target htarget := by
    rw [Building.placed_layout] at htarget
    rcases mem_descendants_iff.1 hy with rfl | hy
    · rw [NodeMap.get?_put, if_pos rfl] at htarget
      exact absurd (Option.some.inj htarget) (hp target)
    · rw [inner_put hd hnone p y hy] at htarget
      cases htarget
  traced name u key f hu hf _ := Or.inl ⟨u, f, hu, hf, .refl f⟩

/-- A table that is started has its identifier for a field. -/
theorem started_traced {natural : Bool} {target : String} {u : Table}
    (hu : (b.started target natural).model.table? name = some u) (hf : u.fields.get? key = some f)
    (hkey : key ≠ u.uid) : b.model.table? name = some u := by
  rw [Building.table?_started] at hu
  split at hu
  · rename_i hname
    cases ht : b.model.table? target with
    | some t => rw [hname, ht, ← hu, ht, Option.getD_some]
    | none =>
      rw [ht, Option.getD_none] at hu
      obtain rfl := Option.some.inj hu
      change (OrderedMap.empty.put (Table.uidFor natural).key _).get? key = some f at hf
      rw [OrderedMap.get?_put, if_neg (show key ≠ (Table.uidFor natural).key from hkey)] at hf
      cases hf
  · exact hu

/-- The table of a row takes the fields that the row brings. -/
theorem equipped_extended {c : Element} {target : String} {own : List Field}
    (hself : b₁.layout.get? c.id = some (.table target))
    (hcarries : ∀ f, Carries s b₁.layout c f ↔ f ∈ own.map Field.untyped)
    (htable : ∃ t, b₁.model.table? target = some t) :
    Equipped s (b₁.extended target own).model (b₁.extended target own).layout c := by
  intro name hname
  rw [Building.extended_layout, hself] at hname
  cases hname
  obtain ⟨t, ht⟩ := htable
  refine ⟨own.foldl addField t, ?_, fun f hf => ?_⟩
  · show (b₁.model.tables.modify target _).get? target = _
    rw [OrderedMap.get?_modify, if_pos rfl, show b₁.model.tables.get? target = some t from ht]
    rfl
  · obtain ⟨g, hg, rfl⟩ := List.mem_map.1 ((hcarries f).1 hf)
    exact Table.covers_untyped.2 (covers_foldl hg t)

/-- A field was there before the table of a row was extended, or the row brings it. -/
theorem extended_origin {c : Element} {target : String} {own : List Field} {u : Table}
    (hself : b₁.layout.get? c.id = some (.table target))
    (hcarries : ∀ f, Carries s b₁.layout c f ↔ f ∈ own.map Field.untyped)
    (hu : (b₁.extended target own).model.table? name = some u) (hf : u.fields.get? key = some f) :
    (∃ t g, b₁.model.table? name = some t ∧ t.uid = u.uid ∧ t.fields.get? key = some g ∧ g.Grows f) ∨
      TracedTo s b₁.layout c.descendants name key f := by
  change (b₁.model.tables.modify target _).get? name = some u at hu
  rw [OrderedMap.get?_modify] at hu
  split at hu
  · rename_i hname
    obtain ⟨t, ht, rfl⟩ := Option.map_eq_some_iff.1 hu
    rcases foldl_origin hf with ⟨g, hg, hgf⟩ | ⟨g, hg, hkey', hgf⟩
    · exact Or.inl ⟨t, g, ht, (Table.Grows.foldl grows_addField t own).uid.symm, hg, hgf⟩
    · refine Or.inr ⟨c, mem_descendants_self c, hname ▸ hself, g.untyped, ?_, ?_, ?_⟩
      · exact (hcarries _).2 (List.mem_map_of_mem hg)
      · rw [Field.key_untyped, hkey']
      · exact (Field.grows_untyped g).trans hgf
  · exact Or.inl ⟨u, f, hu, rfl, hf, .refl f⟩

/-- An element is given a row of its own. -/
theorem builds_extended {c : Element} {target : String} {natural : Bool} {own : List Field}
    (hd : c.Distinct)
    (hinner : Builds s c.inner ((b.started target natural).placed c (.table target)) b₁)
    (hown : Leads (collect s target c) ((b.started target natural).placed c (.table target)) own b₁) :
    Builds s c.descendants b (b₁.extended target own) := by
  have hgrows : b₁.model.Grows (b₁.extended target own).model :=
    kept_grows (s := s).extended b₁ target own
  have hself := collect_self hd hown
  have hcarries := collect_carries hd hown
  refine ⟨fun y hy => ?_, fun name u key f hu hf hkey => ?_⟩
  · rcases mem_descendants_iff.1 hy with rfl | hy
    · obtain ⟨t₀, ht₀⟩ := b.exists_started target natural
      obtain ⟨t, ht, -⟩ := (kept_grows.collect y hown).kept target t₀ ht₀
      exact equipped_extended hself hcarries ⟨t, ht⟩
    · exact (hinner.equipped y hy).mono hgrows fun _ _ => rfl
  · rcases extended_origin hself hcarries hu hf with ⟨t, g, ht, huid, hg, hgf⟩ | htraced
    · rcases hinner.traced name t key g ht hg (huid ▸ hkey) with ⟨t₀, g₀, ht₀, hg₀, hgg⟩ | htraced
      · have hkey₀ : key ≠ t₀.uid := by
          obtain ⟨t', ht', htt⟩ := (kept_grows.collect c hown).kept name t₀ ht₀
          obtain rfl := Option.some.inj (ht.symm.trans ht')
          rw [← htt.uid, huid]
          exact hkey
        exact Or.inl ⟨t₀, g₀, started_traced ht₀ hg₀ hkey₀, hg₀, hgg.trans hgf⟩
      · refine Or.inr (htraced.mono (fun y hy => ?_) (fun _ _ _ _ => rfl) hgf)
        exact mem_descendants_iff.2 (Or.inr hy)
    · exact Or.inr htraced

theorem childFields_builds {parent c : Element} {fs : List Field} (hd : c.Distinct)
    (hnone : ∀ y ∈ c.descendants, b.layout.get? y.id = none)
    (hcollect : ∀ {name b fs b'}, (∀ y ∈ c.inner, b.layout.get? y.id = none) →
      Leads (collect s name c) b fs b' → Builds s c.inner b b')
    (h : Leads (childFields s name parent c fun below => collect s below c) b fs b') :
    Builds s c.descendants b b' := by
  obtain ⟨t, -, h⟩ := childFields_cases h
  rcases h with ⟨rfl, -⟩ | ⟨-, rfl, -⟩ | ⟨-, below, own, hown, -⟩ |
    ⟨-, target, natural, own, b₁, hown, rfl, -⟩
  · exact builds_put hd hnone (by simp)
  · exact builds_put hd hnone (by simp)
  · have hinner := hcollect (inner_put hd hnone .inlined) hown
    have hself := collect_self hd hown
    refine ⟨fun y hy => ?_, fun name u key f hu hf hkey => ?_⟩
    · rcases mem_descendants_iff.1 hy with rfl | hy
      · intro target htarget
        rw [hself] at htarget
        cases htarget
      · exact hinner.equipped y hy
    · rcases hinner.traced name u key f hu hf hkey with h | htraced
      · exact Or.inl h
      · refine Or.inr (htraced.mono (fun y hy => ?_) (fun _ _ _ _ => rfl) (.refl f))
        exact mem_descendants_iff.2 (Or.inr hy)
  · refine builds_extended hd (hcollect ?_ hown) hown
    exact inner_put hd (by simpa using hnone) (.table target)

theorem collectAmong_builds {parent : Element} {fs : List Field}
    (hdistinct : ∀ c ∈ es, c.Distinct) (hnodup : ((es.flatMap descendants).map (·.id)).Nodup)
    (hnone : ∀ y ∈ es.flatMap descendants, b.layout.get? y.id = none)
    (hchild : ∀ c ∈ es, ∀ {b fs b'}, (∀ y ∈ c.descendants, b.layout.get? y.id = none) →
      Leads (childFields s name parent c fun below => collect s below c) b fs b' →
      Builds s c.descendants b b')
    (h : Leads (collectAmong s name parent es) b fs b') : Builds s (es.flatMap descendants) b b' := by
  induction es generalizing b fs with
  | nil =>
    obtain ⟨-, rfl⟩ := leads_collectAmong_nil.1 h
    exact ⟨by simp, fun name u key f hu hf _ => Or.inl ⟨u, f, hu, hf, .refl f⟩⟩
  | cons c es ih =>
    obtain ⟨first, b₁, rest, hfirst, hrest, -⟩ := leads_collectAmong_cons.1 h
    rw [List.flatMap_cons] at hnodup hnone ⊢
    have hsep := collectAmong_separate hdistinct hnodup hfirst hrest
    have hbuilds := hchild c List.mem_cons_self (fun y hy => hnone y (List.mem_append_left _ hy))
      hfirst
    have hbuilds' := ih (fun d hd => hdistinct d (List.mem_cons_of_mem _ hd)) hsep.nodup
      (hsep.fresh hnone) (fun d hd => hchild d (List.mem_cons_of_mem _ hd)) hrest
    exact hbuilds.append hbuilds' (kept_grows.collectAmong (fun d _ => kept_grows.collect d) hrest)
      fun y hy z hz => hsep.same z (mem_descendants_trans hz hy)

theorem collect_builds {fs : List Field} (hd : e.Distinct)
    (hnone : ∀ y ∈ e.inner, b.layout.get? y.id = none) (h : Leads (collect s name e) b fs b') :
    Builds s e.inner b b' := by
  induction e using induct_tree generalizing name b fs b' with
  | h e ih =>
    obtain ⟨t, rest, -, hrest, -⟩ := leads_collect.1 h
    exact collectAmong_builds (fun c hc => hd.child hc) hd.nodup_inner hnone
      (fun c hc {b fs b'} hnone h => childFields_builds (hd.child hc) hnone
        (fun hnone h => ih c hc (hd.child hc) hnone h) h) hrest

end Builds

/-! ### Documents -/

section Build

variable {s : Setting} {root : Element} {o : Outcome}

/-- What is placed has a typing. Geometries are placed as such, and no others but for the root. -/
theorem build_typed {m : Model} (h : build s m root = .ok o) {i : NodeId} {p : Placement}
    (hp : o.layout.get? i = some p) : ∃ t, s.typing.get? i = some t ∧
      (p = .geometry → t.isGeometry = true) ∧
      (p ≠ .geometry → i = root.id ∨ t.isGeometry = false) := by
  obtain ⟨b, hb, hlayout, -⟩ := build_eq_ok_iff.1 h
  rw [hlayout] at hp
  have hroot : ∀ (b : Building) p t, p ≠ .geometry → typingOf s root = .ok t → ∀ i,
      (b.placed root p).layout.get? i = b.layout.get? i ∨ ∃ t, s.typing.get? i = some t ∧
        ((b.placed root p).layout.get? i = some .geometry → t.isGeometry = true) ∧
        ((b.placed root p).layout.get? i ≠ some .geometry → i = root.id ∨ t.isGeometry = false) := by
    intro b p t hp ht i
    rw [Building.placed_layout, NodeMap.get?_put]
    split
    · rename_i hi
      exact Or.inr ⟨t, hi ▸ typingOf_eq_ok_iff.1 ht, fun h => absurd (Option.some.inj h) hp,
        fun _ => Or.inl hi⟩
    · exact Or.inl rfl
  rcases (kept_typed s root).buildTable hroot hb i with hsame | ⟨t, ht, hgeometry, hother⟩
  · rw [hsame] at hp
    cases hp
  · rw [hp] at hgeometry hother
    exact ⟨t, ht, fun h => hgeometry (h ▸ rfl), fun h => hother fun hp => h (Option.some.inj hp)⟩

theorem buildTable_builds {m : Model} {r : Option String} {b : Building} (hd : root.Distinct)
    (h : Leads (buildTable s root root.localName (collect s root.localName root)) { model := m } r b) :
    Builds s root.descendants { model := m } b := by
  have hnone : ∀ y ∈ root.descendants, ({ model := m } : Building).layout.get? y.id = none :=
    fun _ _ => rfl
  obtain ⟨t, -, ⟨-, -, rfl⟩ | ⟨-, -, fs, b₁, hcollect, rfl⟩⟩ := buildTable_cases h
  · exact builds_put hd hnone (by simp)
  · refine builds_extended hd (collect_builds hd ?_ hcollect) hcollect
    exact inner_put hd (by simpa using hnone) (.table root.localName)

/-- In the end, the table of each row has been told all fields that the row brings. -/
theorem build_equipped {m : Model} (hd : root.Distinct) (h : build s m root = .ok o) :
    ∀ y ∈ root.descendants, Equipped s o.model o.layout y := by
  obtain ⟨b, hb, hlayout, hmodel⟩ := build_eq_ok_iff.1 h
  have hgrows : b.model.Grows o.model := by
    rw [hmodel]
    exact (Model.grows_rootTable b.model _).trans (Model.grows_addBackLinks _)
  intro y hy
  exact ((buildTable_builds hd hb).equipped y hy).mono hgrows fun _ _ => by rw [hlayout]

theorem addBackLinks_origin {m : Model} {name key : String} {u : Table} {f : Field}
    (hu : m.addBackLinks.table? name = some u) (hf : u.fields.get? key = some f) :
    (∃ bl, f = .backLink bl) ∨ ∃ t, m.table? name = some t ∧ t.fields.get? key = some f := by
  rw [Model.table?_addBackLinks] at hu
  obtain ⟨t, ht, rfl⟩ := Option.map_eq_some_iff.1 hu
  have htrails : t.Trails (fun _ => True) ((m.backLinksTo name).foldl Table.putBack t) :=
    (Table.Trails.refl _ t).foldl fun _ _ => trivial
  exact (htrails.origin hf).symm.imp id fun hf => ⟨t, ht, hf⟩

/-- The tables of a document that was built into an empty model have the fields that its rows bring,
and no others but their identifiers and links back. -/
structure Records (s : Setting) (root : Element) (o : Outcome) : Prop where
  brought : ∀ y ∈ root.descendants, ∀ name, o.layout.get? y.id = some (.table name) →
    ∃ u, o.model.table? name = some u ∧ ∀ g, Carries s o.layout y g → g.key = u.uid ∨
      ∃ f, u.fields.get? g.key = some f ∧ TracedTo s o.layout root.descendants name g.key f
  traced : ∀ name u key f, o.model.table? name = some u → u.fields.get? key = some f →
    key ≠ u.uid → (∃ bl, f = .backLink bl) ∨
      TracedTo s o.layout root.descendants name key f

theorem build_records (hd : root.Distinct) (h : build s {} root = .ok o) : Records s root o := by
  obtain ⟨b, hb, hlayout, hmodel⟩ := build_eq_ok_iff.1 h
  have hbuilds := buildTable_builds hd hb
  have hgrows : b.model.Grows o.model := by
    rw [hmodel]
    exact (Model.grows_rootTable b.model _).trans (Model.grows_addBackLinks _)
  have htraced : ∀ {name t key f₀ f}, b.model.table? name = some t →
      t.fields.get? key = some f₀ → key ≠ t.uid → f₀.Grows f →
      TracedTo s o.layout root.descendants name key f := by
    intro name t key f₀ f ht hf₀ hkey hf
    rcases hbuilds.traced name t key f₀ ht hf₀ hkey with ⟨t', -, ht', -⟩ | htraced
    · cases ht'
    · exact htraced.mono (List.Subset.refl _) (fun _ _ _ _ => by rw [hlayout]) hf
  refine ⟨fun y hy name hname => ?_, fun name u key f hu hf hkey => ?_⟩
  · obtain ⟨t, ht, hcovers⟩ := hbuilds.equipped y hy name (hlayout ▸ hname)
    obtain ⟨u, hu, htu⟩ := hgrows.kept name t ht
    refine ⟨u, hu, fun g hg => ?_⟩
    by_cases hkey : g.key = t.uid
    · exact Or.inl (hkey.trans htu.uid.symm)
    · obtain ⟨f₀, hf₀⟩ := OrderedMap.mem_keys_iff.1 ((hcovers g (hlayout ▸ hg)).hasKey.resolve_left hkey)
      obtain ⟨f, hf, hff⟩ := htu.field hf₀
      exact Or.inr ⟨f, hf, htraced ht hf₀ hkey hff⟩
  · rw [hmodel] at hu
    rcases addBackLinks_origin hu hf with hback | ⟨t, ht, hf₀⟩
    · exact Or.inl hback
    · obtain ⟨u', hu', htu⟩ := hgrows.kept name t ht
      rw [hmodel] at hu'
      obtain rfl := Option.some.inj (hu.symm.trans hu')
      exact Or.inr (htraced ht hf₀ (htu.uid ▸ hkey) (.refl f))

end Build

end Layout

end FeatureTables
