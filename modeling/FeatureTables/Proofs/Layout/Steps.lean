import FeatureTables.Layout.Building
import FeatureTables.Proofs.OrderedMap
import FeatureTables.Proofs.Xml.Tree

/-!
What building does, as a relation between the state before and after (`Leads`). Building an element
comes down to three changes of the state: an element is placed, a table is started, fields are added
to a table. `childFields_cases` says which of them a child brings about, and `Kept.collect` carries
whatever these three keep through a whole document.
-/

namespace FeatureTables

/-- Rows may lack what a child with this typing brings. -/
def NodeTyping.isOptional (t : NodeTyping) : Bool := t.occurs.min == 0 || t.nillable

namespace Layout

open Xml

/-! ### Leading from one state to another -/

section Leads

variable {α β : Type} {b b' : Building}

/-- Building from `b` gives `a` and ends in `b'`. -/
def Leads (x : BuildM α) (b : Building) (a : α) (b' : Building) : Prop := x.run b = .ok (a, b')

theorem leads_pure {a a' : α} : Leads (pure a) b a' b' ↔ a' = a ∧ b' = b := by
  show Except.ok (a, b) = Except.ok (a', b') ↔ _
  simp [eq_comm]

theorem leads_bind {x : BuildM α} {f : α → BuildM β} {c : β} :
    Leads (x >>= f) b c b' ↔ ∃ a b₁, Leads x b a b₁ ∧ Leads (f a) b₁ c b' := by
  unfold Leads
  rw [StateT.run_bind]
  cases hx : x.run b with
  | error e => simp [bind, Except.bind]
  | ok r =>
    obtain ⟨a, b₁⟩ := r
    constructor
    · exact fun h => ⟨a, b₁, rfl, h⟩
    · rintro ⟨a', b₂, h, h'⟩
      cases h
      exact h'

theorem leads_lift {x : Except Error α} {a : α} :
    Leads (liftM x) b a b' ↔ x = .ok a ∧ b' = b := by
  unfold Leads
  cases x with
  | error e =>
    simp [liftM, monadLift, MonadLift.monadLift, StateT.lift, StateT.run, bind, Except.bind]
  | ok r =>
    simp [liftM, monadLift, MonadLift.monadLift, StateT.lift, StateT.run, bind, Except.bind, pure,
      Except.pure, eq_comm]

theorem leads_modify {f : Building → Building} {u : Unit} :
    Leads (modify f) b u b' ↔ b' = f b := by
  simp [Leads, modify, modifyGet, MonadStateOf.modifyGet, StateT.modifyGet, StateT.run, pure,
    Except.pure, eq_comm]

theorem leads_get {c : Building} : Leads get b c b' ↔ c = b ∧ b' = b := by
  simp [Leads, get, getThe, MonadStateOf.get, StateT.get, StateT.run, pure, Except.pure, eq_comm]

end Leads

/-! ### The three changes -/

namespace Building

def placed (b : Building) (e : Element) (p : Placement) : Building :=
  { b with layout := b.layout.put e.id p }

def started (b : Building) (name : String) (natural : Bool) : Building :=
  if b.model.tables.contains name then b
  else { b with model := b.model.addTable (Table.create name natural) }

def extended (b : Building) (name : String) (fields : List Field) : Building :=
  { b with model.tables := b.model.tables.modify name (fields.foldl addField) }

@[simp] theorem placed_layout (b : Building) (e : Element) (p : Placement) :
    (b.placed e p).layout = b.layout.put e.id p := rfl

@[simp] theorem started_layout (b : Building) (name : String) (natural : Bool) :
    (b.started name natural).layout = b.layout := by
  unfold started
  split <;> rfl

@[simp] theorem extended_layout (b : Building) (name : String) (fields : List Field) :
    (b.extended name fields).layout = b.layout := rfl

/-- A table is started unless it is there. -/
theorem started_cases (b : Building) (name : String) (natural : Bool) :
    (∃ t, b.model.table? name = some t) ∧ b.started name natural = b ∨
      b.model.table? name = none ∧
        b.started name natural = { b with model := b.model.addTable (Table.create name natural) } := by
  unfold started
  cases h : b.model.tables.contains name with
  | true => exact Or.inl ⟨Option.isSome_iff_exists.1 h, rfl⟩
  | false => exact Or.inr ⟨by simpa [OrderedMap.contains, Model.table?] using h, rfl⟩

theorem table?_started (b : Building) (name key : String) (natural : Bool) :
    (b.started name natural).model.table? key =
      if key = name then some ((b.model.table? name).getD (Table.create name natural))
      else b.model.table? key := by
  rcases b.started_cases name natural with ⟨⟨t, ht⟩, heq⟩ | ⟨hnone, heq⟩ <;> rw [heq]
  · split
    · rename_i hkey
      rw [hkey, ht, Option.getD_some]
    · rfl
  · rw [hnone, Option.getD_none]
    dsimp only
    rw [Model.addTable, show b.model.table? (Table.create name natural).name = none from hnone]
    exact OrderedMap.get?_put _ _ _ _

theorem exists_started (b : Building) (name : String) (natural : Bool) :
    ∃ t, (b.started name natural).model.table? name = some t :=
  ⟨_, (b.table?_started name name natural).trans (if_pos rfl)⟩

end Building

section Steps

variable {s : Setting} {name : String} {parent e : Element} {b b' : Building} {fs : List Field}

theorem leads_place {p : Placement} {u : Unit} : Leads (place e p) b u b' ↔ b' = b.placed e p :=
  leads_modify

theorem leads_startTable {natural : Bool} {u : Unit} :
    Leads (startTable name natural) b u b' ↔ b' = b.started name natural := leads_modify

theorem leads_addFields {u : Unit} : Leads (addFields name fs) b u b' ↔ b' = b.extended name fs :=
  leads_modify

/-! ### Inversion -/

theorem typingOf_eq_ok_iff {t : NodeTyping} :
    typingOf s e = .ok t ↔ s.typing.get? e.id = some t := by
  unfold typingOf
  cases s.typing.get? e.id <;> simp

/-- A row of its own: its table is started, and then has the fields that were collected. -/
theorem buildTable_cases {fields : BuildM (List Field)} {r : Option String}
    (h : Leads (buildTable s e name fields) b r b') :
    ∃ t, typingOf s e = .ok t ∧
      (isVoid e t = true ∧ r = none ∧ b' = b.placed e .empty ∨
        isVoid e t = false ∧ r = some name ∧ ∃ fs b₁,
          Leads fields ((b.started name (hasNaturalId e t)).placed e (.table name)) fs b₁ ∧
          b' = b₁.extended name fs) := by
  simp only [buildTable, leads_bind, leads_lift] at h
  obtain ⟨t, _, ⟨ht, rfl⟩, h⟩ := h
  refine ⟨t, ht, ?_⟩
  cases hv : isVoid e t with
  | true =>
    simp only [hv, if_true, leads_bind, leads_place, leads_pure] at h
    obtain ⟨_, b₁, hb, rfl, rfl⟩ := h
    exact Or.inl ⟨rfl, rfl, hb⟩
  | false =>
    simp only [hv, Bool.false_eq_true, if_false, leads_bind, leads_startTable, leads_place,
      leads_addFields, leads_pure] at h
    obtain ⟨_, _, rfl, _, _, rfl, fs, b₁, hf, _, b₂, rfl, rfl, rfl⟩ := h
    exact Or.inr ⟨rfl, rfl, fs, b₁, hf, rfl⟩

/-- What the names of the tables of a child start with: the name at its parent with the step behind, or
the step alone if the document identifies the child. -/
def nextName (name step : String) (natural : Bool) : String :=
  if natural then stepName step else name ++ "_" ++ stepName step

/-- What becomes of a child: it is a geometry, it is empty, it is judged to be a part of the row, or it is
judged to have a row of its own. -/
theorem childFields_judged {fields : String → BuildM (List Field)}
    (h : Leads (childFields s name parent e fields) b fs b') :
    ∃ t, typingOf s e = .ok t ∧
      (t.isGeometry = true ∧ b' = b.placed e .geometry ∧
          fs = [geometryField s.options e t.isOptional] ∨
        t.isGeometry = false ∧ isVoid e t = true ∧ b' = b.placed e .empty ∧ fs = [] ∨
        t.isGeometry = false ∧ isVoid e t = false ∧
          isInlined s b.model (nextName name (keyStep parent e) false) e t = .ok true ∧
          (∃ own, Leads (fields (nextName name (keyStep parent e) false)) (b.placed e .inlined) own b' ∧
            fs = own.map (Field.under (keyStep parent e) t.isOptional)) ∨
        t.isGeometry = false ∧ isVoid e t = false ∧
          isInlined s b.model (nextName name (keyStep parent e) false) e t = .ok false ∧
          ∃ target own b₁, target = nextName name (keyStep parent e) (hasNaturalId e t) ∧
            Leads (fields target) ((b.started target (hasNaturalId e t)).placed e (.table target)) own b₁ ∧
            b' = b₁.extended target own ∧
            fs = [linkField b'.model (keyStep parent e) target t t.isOptional]) := by
  simp only [childFields, leads_bind, leads_lift] at h
  obtain ⟨t, _, ⟨ht, rfl⟩, h⟩ := h
  refine ⟨t, ht, ?_⟩
  cases hg : t.isGeometry with
  | true =>
    simp only [hg, if_true, leads_bind, leads_place, leads_pure] at h
    obtain ⟨_, b₁, hb, rfl, rfl⟩ := h
    exact Or.inl ⟨rfl, hb, rfl⟩
  | false =>
  refine Or.inr ?_
  cases hv : isVoid e t with
  | true =>
    simp only [hg, hv, Bool.false_eq_true, if_false, if_true, leads_bind, leads_place,
      leads_pure] at h
    obtain ⟨_, b₁, hb, rfl, rfl⟩ := h
    exact Or.inl ⟨rfl, rfl, hb, rfl⟩
  | false =>
  refine Or.inr ?_
  simp only [hg, hv, Bool.false_eq_true, if_false, leads_bind, leads_get, leads_lift] at h
  obtain ⟨_, _, ⟨rfl, rfl⟩, inlined, _, ⟨hinlined, rfl⟩, h⟩ := h
  cases inlined with
  | true =>
    simp only [if_true, inlineChild, leads_bind, leads_place, leads_pure] at h
    obtain ⟨_, _, rfl, own, b₁, hown, rfl, rfl⟩ := h
    exact Or.inl ⟨rfl, rfl, hinlined, own, hown, rfl⟩
  | false =>
    simp only [Bool.false_eq_true, if_false, linkChild, leads_bind] at h
    obtain ⟨r, b₁, hr, h⟩ := h
    obtain ⟨t', ht', hcases⟩ := buildTable_cases hr
    rw [ht] at ht'
    cases ht'
    rcases hcases with ⟨hv', -⟩ | ⟨-, rfl, own, b₂, hown, rfl⟩
    · rw [hv] at hv'
      cases hv'
    · simp only [leads_bind, leads_get, leads_pure] at h
      obtain ⟨_, _, ⟨rfl, rfl⟩, rfl, rfl⟩ := h
      exact Or.inr ⟨rfl, rfl, hinlined, _, own, b₂, rfl, hown, rfl, rfl⟩

/-- What a child brings: a geometry, nothing, its own fields as a part of the row, or the link to a
row of its own. -/
theorem childFields_cases {fields : String → BuildM (List Field)}
    (h : Leads (childFields s name parent e fields) b fs b') :
    ∃ t, typingOf s e = .ok t ∧
      (b' = b.placed e .geometry ∧ fs = [geometryField s.options e t.isOptional] ∧
          t.isGeometry = true ∨
        isVoid e t = true ∧ b' = b.placed e .empty ∧ fs = [] ∧ t.isGeometry = false ∨
        isVoid e t = false ∧
          (∃ below own, Leads (fields below) (b.placed e .inlined) own b' ∧
            fs = own.map (Field.under (keyStep parent e) t.isOptional) ∧ t.isGeometry = false ∧
            below = nextName name (keyStep parent e) false) ∨
        isVoid e t = false ∧
          (∃ target natural own b₁,
            Leads (fields target) ((b.started target natural).placed e (.table target)) own b₁ ∧
            b' = b₁.extended target own ∧
            fs = [linkField b'.model (keyStep parent e) target t t.isOptional] ∧
            t.isGeometry = false ∧ natural = hasNaturalId e t ∧
            target = nextName name (keyStep parent e) natural)) := by
  obtain ⟨t, ht, h⟩ := childFields_judged h
  refine ⟨t, ht, ?_⟩
  rcases h with ⟨hg, hb, hfs⟩ | ⟨hg, hv, hb, hfs⟩ | ⟨hg, hv, -, own, hown, hfs⟩ |
    ⟨hg, hv, -, target, own, b₁, htarget, hown, hb, hfs⟩
  · exact Or.inl ⟨hb, hfs, hg⟩
  · exact Or.inr (Or.inl ⟨hv, hb, hfs, hg⟩)
  · exact Or.inr (Or.inr (Or.inl ⟨hv, _, own, hown, hfs, hg, rfl⟩))
  · exact Or.inr (Or.inr (Or.inr ⟨hv, target, _, own, b₁, hown, hb, hfs, hg, rfl, htarget⟩))

theorem leads_collect :
    Leads (collect s name e) b fs b' ↔ ∃ t rest, typingOf s e = .ok t ∧
      Leads (collectAmong s name e e.children) b rest b' ∧ fs = ownFields e t ++ rest := by
  obtain ⟨id, qname, attributes, text?, children, scope⟩ := e
  simp only [collect, leads_bind, leads_lift, leads_pure]
  constructor
  · rintro ⟨t, _, ⟨ht, rfl⟩, rest, b₁, hrest, rfl, rfl⟩
    exact ⟨t, rest, ht, hrest, rfl⟩
  · rintro ⟨t, rest, ht, hrest, rfl⟩
    exact ⟨t, b, ⟨ht, rfl⟩, rest, b', hrest, rfl, rfl⟩

theorem leads_collectAmong_nil :
    Leads (collectAmong s name parent []) b fs b' ↔ fs = [] ∧ b' = b := by
  simp only [collectAmong, leads_pure]

theorem leads_collectAmong_cons {es : List Element} :
    Leads (collectAmong s name parent (e :: es)) b fs b' ↔ ∃ first b₁ rest,
      Leads (childFields s name parent e fun below => collect s below e) b first b₁ ∧
      Leads (collectAmong s name parent es) b₁ rest b' ∧ fs = first ++ rest := by
  simp only [collectAmong, leads_bind, leads_pure]
  constructor
  · rintro ⟨first, b₁, hfirst, rest, b₂, hrest, rfl, rfl⟩
    exact ⟨first, b₁, rest, hfirst, hrest, rfl⟩
  · rintro ⟨first, b₁, rest, hfirst, hrest, rfl⟩
    exact ⟨first, b₁, hfirst, rest, b', hrest, rfl, rfl⟩

end Steps

/-! ### What the three changes keep -/

/-- A relation that each change of the state keeps. Elements that are placed have a typing, which says
of geometries that they are. -/
structure Kept (s : Setting) (R : Building → Building → Prop) : Prop where
  refl : ∀ b, R b b
  trans : ∀ {b b₁ b₂}, R b b₁ → R b₁ b₂ → R b b₂
  placed : ∀ b e p t, typingOf s e = .ok t → (p = .geometry ↔ t.isGeometry = true) →
    R b (b.placed e p)
  started : ∀ b name natural, R b (b.started name natural)
  extended : ∀ b name fields, R b (b.extended name fields)

section Kept

variable {s : Setting} {R : Building → Building → Prop}

theorem Kept.childFields (hR : Kept s R) {name : String} {parent e : Element} {b b' : Building}
    {fs : List Field} {fields : String → BuildM (List Field)}
    (hfields : ∀ {below b fs b'}, Leads (fields below) b fs b' → R b b')
    (h : Leads (childFields s name parent e fields) b fs b') : R b b' := by
  obtain ⟨t, ht, h⟩ := childFields_cases h
  rcases h with ⟨rfl, -, hg⟩ | ⟨-, rfl, -, hg⟩ | ⟨-, below, own, hown, -, hg, -⟩ |
    ⟨-, target, natural, own, b₁, hown, rfl, -, hg, -⟩
  · exact hR.placed _ _ _ t ht (by simp [hg])
  · exact hR.placed _ _ _ t ht (by simp [hg])
  · exact hR.trans (hR.placed _ _ _ t ht (by simp [hg])) (hfields hown)
  · exact hR.trans (hR.started _ _ _) (hR.trans (hR.placed _ _ _ t ht (by simp [hg]))
      (hR.trans (hfields hown) (hR.extended _ _ _)))

theorem Kept.collectAmong (hR : Kept s R) {name : String} {parent : Element} {es : List Element}
    (hcollect : ∀ c ∈ es, ∀ {name : String} {b b' : Building} {fs : List Field},
      Leads (Layout.collect s name c) b fs b' → R b b')
    {b b' : Building} {fs : List Field} (h : Leads (Layout.collectAmong s name parent es) b fs b') :
    R b b' := by
  induction es generalizing b fs with
  | nil =>
    obtain ⟨-, rfl⟩ := leads_collectAmong_nil.1 h
    exact hR.refl _
  | cons c es ih =>
    obtain ⟨first, b₁, rest, hfirst, hrest, -⟩ := leads_collectAmong_cons.1 h
    exact hR.trans (hR.childFields (hcollect c List.mem_cons_self) hfirst)
      (ih (fun d hd => hcollect d (List.mem_cons_of_mem _ hd)) hrest)

/-- Collecting fields only makes the three changes. -/
theorem Kept.collect (hR : Kept s R) (e : Element) : ∀ {name : String} {b b' : Building}
    {fs : List Field}, Leads (Layout.collect s name e) b fs b' → R b b' := by
  induction e using Element.induct_tree with
  | h e ih =>
    intro name b b' fs h
    obtain ⟨t, rest, -, h, -⟩ := leads_collect.1 h
    exact hR.collectAmong ih h

/-- The root of a document may be a geometry and have a row all the same. -/
theorem Kept.buildTable (hR : Kept s R) {name : String} {e : Element} {b b' : Building}
    {r : Option String}
    (hroot : ∀ b p t, p ≠ .geometry → typingOf s e = .ok t → R b (b.placed e p))
    (h : Leads (buildTable s e name (Layout.collect s name e)) b r b') : R b b' := by
  obtain ⟨t, ht, h⟩ := buildTable_cases h
  rcases h with ⟨-, -, rfl⟩ | ⟨-, -, fs, b₁, hfs, rfl⟩
  · exact hroot _ _ t (by simp) ht
  · exact hR.trans (hR.started _ _ _) (hR.trans (hroot _ _ t (by simp) ht)
      (hR.trans (hR.collect e hfs) (hR.extended _ _ _)))

end Kept

/-- What is placed has a typing, and geometries and no others are placed as such; the root is on its
own. -/
theorem kept_typed (s : Setting) (root : Element) : Kept s fun b b' => ∀ i,
    b'.layout.get? i = b.layout.get? i ∨ ∃ t, s.typing.get? i = some t ∧
      (b'.layout.get? i = some .geometry → t.isGeometry = true) ∧
      (b'.layout.get? i ≠ some .geometry → i = root.id ∨ t.isGeometry = false) where
  refl b i := Or.inl rfl
  trans h h' i := by
    rcases h' i with h' | h'
    · rw [h']
      exact h i
    · exact Or.inr h'
  placed b e p t ht hp i := by
    rw [Building.placed_layout, NodeMap.get?_put]
    split
    · rename_i hi
      refine Or.inr ⟨t, hi ▸ typingOf_eq_ok_iff.1 ht, fun h => hp.1 (Option.some.inj h), fun h => ?_⟩
      refine Or.inr (Bool.eq_false_iff.2 fun hgeometry => h ?_)
      rw [hp.2 hgeometry]
    · exact Or.inl rfl
  started b name natural i := Or.inl (by rw [Building.started_layout])
  extended b name fields i := Or.inl rfl

/-- Building a document: the table of its root, then the links back. -/
theorem build_eq_ok_iff {s : Setting} {m : Model} {root : Element} {o : Outcome} :
    build s m root = .ok o ↔ ∃ b,
      Leads (buildTable s root root.localName (collect s root.localName root)) { model := m }
        o.rootTable? b ∧
      o.layout = b.layout ∧ o.model =
        ({ b.model with rootTable? := b.model.rootTable?.or o.rootTable? } : Model).addBackLinks := by
  unfold build Leads
  cases h : (buildTable s root root.localName (collect s root.localName root)).run
      { model := m } with
  | error e => simp [bind, Except.bind, h]
  | ok r =>
    obtain ⟨r, b⟩ := r
    obtain ⟨model, layout, rootTable?⟩ := o
    simp only [bind, Except.bind, pure, Except.pure, h, Except.ok.injEq, Outcome.mk.injEq,
      Prod.mk.injEq]
    constructor
    · rintro ⟨rfl, rfl, rfl⟩
      exact ⟨b, ⟨rfl, rfl⟩, rfl, rfl⟩
    · rintro ⟨b', ⟨rfl, rfl⟩, rfl, rfl⟩
      exact ⟨rfl, rfl, rfl⟩

end Layout
end FeatureTables
