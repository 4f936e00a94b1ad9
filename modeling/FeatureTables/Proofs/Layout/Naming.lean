import FeatureTables.Proofs.Layout.Placement
import FeatureTables.Proofs.Layout.Way
import FeatureTables.Proofs.Text.Pieces
import FeatureTables.Proofs.Xml.Numbering
import FeatureTables.Schema.Closure

/-!
What the names of tables say of the elements in them. An element with a row has an origin: the step to
it alone if the document identifies it, else the steps to it from the row next above. The name of a table
joins what stands on the trail of an origin (`build_named`), so that elements in one table have one trail,
as long as no name in a document goes on as if another one was joined to something
(`shared_table_trail`). Which elements on a trail have rows may differ, as the options may split the
parts of one element off and not those of another one (`shared_by_unrelated`).
-/

namespace FeatureTables.Layout

open Text Xml Element

/-! ### Origins -/

/-- Where a row comes from: a step that stands for itself, or the steps from the row next above. -/
inductive Origin where
  | named (step : String)
  | under (row : Origin) (steps : List String)
deriving DecidableEq

namespace Origin

/-- The step that an origin starts with, and all steps from there. -/
def trail : Origin → List String
  | named step => [step]
  | under row steps => row.trail ++ steps

/-- What the steps of the trail join to. -/
def tableName : Origin → String
  | named step => stepName step
  | under row steps => steps.foldl (nextName · · false) row.tableName

end Origin

/-- The document identifies the element. -/
def isIdentified (s : Setting) (e : Element) : Bool := (s.typing.get? e.id).any (hasNaturalId e ·)

/-- The origin of a child with a row, given that of the row above, and the steps from there to its
parent. -/
def originOf (s : Setting) (row : Origin) (steps : List String) (parent e : Element) : Origin :=
  if isIdentified s e then .named (keyStep parent e) else .under row (steps ++ [keyStep parent e])

mutual
/-- The elements inside of an element that have rows, with their origins. -/
def originsIn (s : Setting) (l : Layout) (row : Origin) (steps : List String) :
    Element → List (Element × Origin)
  | ⟨i, name, attributes, text?, children, scope⟩ =>
    originsAmong s l row steps ⟨i, name, attributes, text?, children, scope⟩ children
def originsAmong (s : Setting) (l : Layout) (row : Origin) (steps : List String) (parent : Element) :
    List Element → List (Element × Origin)
  | [] => []
  | e :: es =>
    let own := originOf s row steps parent e
    (match l.get? e.id with
      | some (.table _) => (e, own) :: originsIn s l own [] e
      | some .inlined | some .empty => originsIn s l row (steps ++ [keyStep parent e]) e
      | _ => []) ++ originsAmong s l row steps parent es
end

/-- The elements of a document that have rows, with their origins. -/
def origins (s : Setting) (l : Layout) (root : Element) : List (Element × Origin) :=
  match l.get? root.id with
  | some (.table _) => (root, .named root.localName) :: originsIn s l (.named root.localName) [] root
  | _ => []

section Origins

variable {s : Setting} {l l' : Layout} {row u : Origin} {steps : List String} {e x : Element}

/-- What a child has of the elements with rows, with their origins. -/
theorem mem_originsIn_iff : (x, u) ∈ originsIn s l row steps e ↔ ∃ c ∈ e.children,
    (∃ name, l.get? c.id = some (.table name)) ∧ (x = c ∧ u = originOf s row steps e c ∨
        (x, u) ∈ originsIn s l (originOf s row steps e c) [] c) ∨
      Passes l c ∧ (x, u) ∈ originsIn s l row (steps ++ [keyStep e c]) c := by
  have hamong : ∀ es : List Element, (x, u) ∈ originsAmong s l row steps e es ↔ ∃ c ∈ es,
      (∃ name, l.get? c.id = some (.table name)) ∧ (x = c ∧ u = originOf s row steps e c ∨
          (x, u) ∈ originsIn s l (originOf s row steps e c) [] c) ∨
        Passes l c ∧ (x, u) ∈ originsIn s l row (steps ++ [keyStep e c]) c := by
    intro es
    induction es with
    | nil => simp [originsAmong]
    | cons c es ih =>
      rw [originsAmong, List.mem_append, ih, List.exists_mem_cons_iff]
      refine or_congr_left ?_
      unfold Passes
      cases hplaced : l.get? c.id with
      | none => simp
      | some p => cases p <;> simp
  have heq : originsIn s l row steps e = originsAmong s l row steps e e.children := by
    cases e
    rw [originsIn]
  rw [heq, hamong]

theorem mem_inner_of_origins (h : (x, u) ∈ originsIn s l row steps e) : x ∈ e.inner := by
  induction e using induct_tree generalizing row steps with
  | h e ih =>
    obtain ⟨c, hc, ⟨-, ⟨rfl, -⟩ | hx⟩ | ⟨-, hx⟩⟩ := mem_originsIn_iff.1 h
    · exact mem_inner_of_mem_children hc
    · exact mem_inner_iff.2 ⟨c, hc, mem_descendants_iff.2 (Or.inr (ih c hc hx))⟩
    · exact mem_inner_iff.2 ⟨c, hc, mem_descendants_iff.2 (Or.inr (ih c hc hx))⟩

theorem originsIn_congr (heq : ∀ y ∈ e.inner, l'.get? y.id = l.get? y.id) :
    (x, u) ∈ originsIn s l' row steps e ↔ (x, u) ∈ originsIn s l row steps e := by
  induction e using induct_tree generalizing row steps with
  | h e ih =>
    rw [mem_originsIn_iff, mem_originsIn_iff]
    refine exists_congr fun c => and_congr_right fun hc => ?_
    have hinner : ∀ y ∈ c.inner, l'.get? y.id = l.get? y.id := fun y hy =>
      heq y (mem_inner_iff.2 ⟨c, hc, mem_descendants_iff.2 (Or.inr hy)⟩)
    rw [ih c hc hinner, ih c hc hinner]
    unfold Passes
    rw [heq c (mem_inner_of_mem_children hc)]

/-- Each row inside of an element has an origin. -/
theorem exists_originIn (h : Connected l e) (hx : x ∈ e.inner) {name : String}
    (hname : l.get? x.id = some (.table name)) (s : Setting) (row : Origin) (steps : List String) :
    ∃ u, (x, u) ∈ originsIn s l row steps e := by
  induction e using induct_tree generalizing row steps with
  | h e ih =>
    obtain ⟨c, hc, hxc⟩ := mem_inner_iff.1 hx
    by_cases htable : ∃ name, l.get? c.id = some (.table name)
    · rcases mem_descendants_iff.1 hxc with rfl | hxc
      · exact ⟨_, mem_originsIn_iff.2 ⟨x, hc, Or.inl ⟨htable, Or.inl ⟨rfl, rfl⟩⟩⟩⟩
      · obtain ⟨u, hu⟩ := ih c hc (h.child hc) hxc (originOf s row steps e c) []
        exact ⟨u, mem_originsIn_iff.2 ⟨c, hc, Or.inl ⟨htable, Or.inr hu⟩⟩⟩
    · rcases mem_descendants_iff.1 hxc with rfl | hxc
      · exact absurd ⟨name, hname⟩ htable
      · by_cases hpasses : Passes l c
        · obtain ⟨u, hu⟩ := ih c hc (h.child hc) hxc row (steps ++ [keyStep e c])
          exact ⟨u, mem_originsIn_iff.2 ⟨c, hc, Or.inr ⟨hpasses, hu⟩⟩⟩
        · have := (h.child hc).eq_none (fun name hname => htable ⟨name, hname⟩) hpasses x hxc
          rw [hname] at this
          cases this

end Origins

/-! ### The tables of rows -/

/-- The rows inside of an element are in the tables that their origins name. -/
def Named (s : Setting) (l : Layout) (row : Origin) (steps : List String) (e : Element) : Prop :=
  ∀ x u, (x, u) ∈ originsIn s l row steps e → l.get? x.id = some (.table u.tableName)

/-- A child, if it has a row, is in the table that its origin names, and so are the rows inside. -/
structure NamedChild (s : Setting) (l : Layout) (row : Origin) (steps : List String)
    (parent c : Element) : Prop where
  own : ∀ name, l.get? c.id = some (.table name) →
    name = (originOf s row steps parent c).tableName ∧ Named s l (originOf s row steps parent c) [] c
  part : Passes l c → Named s l row (steps ++ [keyStep parent c]) c

section Naming

theorem stepName_of_colon {step : String} (h : ':' ∉ step.toList) : stepName step = step := by
  refine String.toList_inj.1 ((toList_replace ':' '_' step).trans ?_)
  refine (List.map_congr_left fun c hc => ?_).trans (List.map_id' _)
  exact if_neg fun hcolon : c = ':' => h (hcolon ▸ hc)

variable {s : Setting} {l l' : Layout} {row : Origin} {steps : List String} {parent e c : Element}
  {name : String} {b b' : Building} {fs : List Field}

theorem Named.of_children (h : ∀ c ∈ e.children, NamedChild s l row steps e c) :
    Named s l row steps e := by
  intro x u hx
  obtain ⟨c, hc, ⟨⟨name, hname⟩, hx⟩ | ⟨hpasses, hx⟩⟩ := mem_originsIn_iff.1 hx
  · obtain ⟨heq, hinside⟩ := (h c hc).own name hname
    rcases hx with ⟨rfl, rfl⟩ | hx
    · exact heq ▸ hname
    · exact hinside x u hx
  · exact (h c hc).part hpasses x u hx

theorem Named.congr (h : Named s l row steps e) (heq : ∀ y ∈ e.inner, l'.get? y.id = l.get? y.id) :
    Named s l' row steps e := by
  intro x u hx
  rw [heq x (mem_inner_of_origins hx)]
  exact h x u ((originsIn_congr heq).1 hx)

theorem NamedChild.congr (h : NamedChild s l row steps parent c)
    (heq : ∀ y ∈ c.descendants, l'.get? y.id = l.get? y.id) : NamedChild s l' row steps parent c := by
  have hself := heq c (mem_descendants_self c)
  have hinner : ∀ y ∈ c.inner, l'.get? y.id = l.get? y.id := fun y hy =>
    heq y (mem_descendants_iff.2 (Or.inr hy))
  refine ⟨fun name hname => ?_, fun hpasses => ?_⟩
  · obtain ⟨heq, hinside⟩ := h.own name (hself ▸ hname)
    exact ⟨heq, hinside.congr hinner⟩
  · refine (h.part ?_).congr hinner
    unfold Passes at hpasses ⊢
    rwa [hself] at hpasses

/-- The table of a row has the name of its origin. -/
theorem tableName_originOf {t : NodeTyping} (ht : typingOf s c = .ok t)
    (hname : name = steps.foldl (nextName · · false) row.tableName) :
    nextName name (keyStep parent c) (hasNaturalId c t) = (originOf s row steps parent c).tableName := by
  have hidentified : isIdentified s c = hasNaturalId c t := by
    rw [isIdentified, typingOf_eq_ok_iff.1 ht, Option.any_some]
  unfold originOf
  rw [hidentified]
  cases hasNaturalId c t with
  | true => rw [nextName, if_pos rfl, if_pos rfl, Origin.tableName]
  | false =>
    rw [if_neg Bool.false_ne_true, Origin.tableName, List.foldl_append, ← hname]
    rfl

theorem childFields_named (hd : c.Distinct)
    (hname : name = steps.foldl (nextName · · false) row.tableName)
    (hcollect : ∀ {row steps name b fs b'}, name = steps.foldl (nextName · · false) row.tableName →
      Leads (collect s name c) b fs b' → Named s b'.layout row steps c)
    (h : Leads (childFields s name parent c fun below => collect s below c) b fs b') :
    NamedChild s b'.layout row steps parent c := by
  obtain ⟨t, ht, h⟩ := childFields_cases h
  have hput : ∀ (l : Layout) (p : Placement), (l.put c.id p).get? c.id = some p := fun l p => by
    rw [NodeMap.get?_put, if_pos rfl]
  rcases h with ⟨rfl, -⟩ | ⟨hvoid, rfl, -⟩ | ⟨-, below, own, hown, -, -, rfl⟩ |
    ⟨-, target, natural, own, b₁, hown, rfl, -, -, rfl, rfl⟩
  · refine ⟨fun name hplaced => ?_, fun hpasses => ?_⟩
    · rw [Building.placed_layout, hput] at hplaced
      cases hplaced
    · rw [Building.placed_layout, Passes, hput] at hpasses
      simp at hpasses
  · refine ⟨fun name hplaced => ?_, fun _ => ?_⟩
    · rw [Building.placed_layout, hput] at hplaced
      cases hplaced
    · have hchildren : c.children = [] := by
        simp only [isVoid, Bool.and_eq_true, List.isEmpty_iff] at hvoid
        exact hvoid.1.2
      exact .of_children fun d hd => by simp [hchildren] at hd
  · have hself := collect_self hd hown
    refine ⟨fun name hplaced => ?_, fun _ => hcollect ?_ hown⟩
    · rw [hself] at hplaced
      cases hplaced
    · rw [List.foldl_append, ← hname]
      rfl
  · have hself := collect_self hd hown
    have heq : nextName name (keyStep parent c) (hasNaturalId c t) =
        (originOf s row steps parent c).tableName := tableName_originOf ht hname
    rw [Building.extended_layout]
    refine ⟨fun name hplaced => ?_, fun hpasses => absurd hpasses (not_passes_of_table hself)⟩
    rw [hself] at hplaced
    cases hplaced
    exact ⟨heq, hcollect heq hown⟩

theorem collectAmong_named {es : List Element} (hnodup : ((es.flatMap descendants).map (·.id)).Nodup)
    (hdistinct : ∀ c ∈ es, c.Distinct)
    (hchild : ∀ c ∈ es, ∀ {b fs b'},
      Leads (childFields s name parent c fun below => collect s below c) b fs b' →
      NamedChild s b'.layout row steps parent c)
    (h : Leads (collectAmong s name parent es) b fs b') :
    ∀ c ∈ es, NamedChild s b'.layout row steps parent c := by
  induction es generalizing b fs with
  | nil => simp
  | cons c es ih =>
    obtain ⟨first, b₁, rest, hfirst, hrest, -⟩ := leads_collectAmong_cons.1 h
    rw [List.flatMap_cons] at hnodup
    have hsep := collectAmong_separate hdistinct hnodup hfirst hrest
    exact List.forall_mem_cons.2 ⟨(hchild c List.mem_cons_self hfirst).congr hsep.same,
      ih hsep.nodup (fun d hd => hdistinct d (List.mem_cons_of_mem _ hd))
        (fun d hd => hchild d (List.mem_cons_of_mem _ hd)) hrest⟩

/-- Collecting the fields of an element places the rows inside of it in the tables that their origins
name. -/
theorem collect_named (hd : e.Distinct)
    (hname : name = steps.foldl (nextName · · false) row.tableName)
    (h : Leads (collect s name e) b fs b') : Named s b'.layout row steps e := by
  induction e using induct_tree generalizing row steps name b fs b' with
  | h e ih =>
    obtain ⟨t, rest, -, hrest, -⟩ := leads_collect.1 h
    exact .of_children (collectAmong_named hd.nodup_inner (fun c hc => hd.child hc)
      (fun c hc => childFields_named (hd.child hc) hname (ih c hc (hd.child hc))) hrest)

/-- The rows of a document are in the tables that their origins name. -/
theorem build_named {m : Model} {root : Element} {o : Outcome} (hd : root.Distinct)
    (hcolon : ':' ∉ root.localName.toList) (h : build s m root = .ok o) {x : Element} {u : Origin}
    (hx : (x, u) ∈ origins s o.layout root) : o.layout.get? x.id = some (.table u.tableName) := by
  have hname : root.localName = (Origin.named root.localName).tableName := (stepName_of_colon hcolon).symm
  obtain ⟨b, hb, hlayout, -⟩ := build_eq_ok_iff.1 h
  rw [hlayout] at hx ⊢
  obtain ⟨t, -, ⟨-, -, rfl⟩ | ⟨-, -, fs, b₁, hcollect, rfl⟩⟩ := buildTable_cases hb
  · rw [origins, Building.placed_layout, NodeMap.get?_put, if_pos rfl] at hx
    cases hx
  · rw [Building.extended_layout] at hx ⊢
    have hself := collect_self hd hcollect
    rw [origins, hself] at hx
    rcases List.mem_cons.1 hx with hx | hx
    · cases hx
      exact hname ▸ hself
    · exact collect_named hd hname hcollect x u hx

end Naming

/-! ### One table, one trail -/

/-- The steps that trails in a document consist of. -/
def stepsOf (root : Element) : List String :=
  root.localName :: root.descendants.flatMap fun e => e.children.map (keyStep e)

/-- The steps of a document can be told apart once they are joined: no two of them are written alike in
the names of tables, and none goes on as another one with something joined to it. -/
structure Legible (root : Element) : Prop where
  colon : ':' ∉ root.localName.toList
  apart : ∀ a ∈ stepsOf root, ∀ b ∈ stepsOf root, stepName a = stepName b → a = b
  joints : ∀ a ∈ stepsOf root, ∀ b ∈ stepsOf root, ¬ (stepName a).toList ++ ['_'] <+: (stepName b).toList

instance (root : Element) : Decidable (Legible root) :=
  decidable_of_iff (':' ∉ root.localName.toList ∧
      (∀ a ∈ stepsOf root, ∀ b ∈ stepsOf root, stepName a = stepName b → a = b) ∧
      ∀ a ∈ stepsOf root, ∀ b ∈ stepsOf root, ¬ (stepName a).toList ++ ['_'] <+: (stepName b).toList)
    ⟨fun h => ⟨h.1, h.2.1, h.2.2⟩, fun h => ⟨h.colon, h.apart, h.joints⟩⟩

section Trails

variable {s : Setting} {l : Layout} {row u v : Origin} {steps : List String} {root e x y : Element}

theorem keyStep_mem_stepsOf {c : Element} (he : e ∈ root.descendants) (hc : c ∈ e.children) :
    keyStep e c ∈ stepsOf root :=
  List.mem_cons_of_mem _ (List.mem_flatMap.2 ⟨e, he, List.mem_map_of_mem hc⟩)

theorem Origin.trail_ne_nil (u : Origin) : u.trail ≠ [] := by
  induction u with
  | named step => exact List.cons_ne_nil _ _
  | under row steps ih => exact List.append_ne_nil_of_left_ne_nil ih _

/-- Going on from a name that joins steps gives one that joins all of them. -/
theorem toList_foldl_nextName {names : List String} {name : String} (hne : names ≠ [])
    (hname : name.toList = ['_'].intercalate (names.map fun step => (stepName step).toList)) :
    (steps.foldl (nextName · · false) name).toList =
      ['_'].intercalate ((names ++ steps).map fun step => (stepName step).toList) := by
  induction steps generalizing names name with
  | nil => simpa using hname
  | cons step steps ih =>
    rw [List.append_cons]
    refine ih (by simp) ?_
    rw [List.map_append, List.map_singleton, intercalate_concat (by simpa using hne), ← hname]
    simp [nextName]

/-- The name of a table is the trail with joints between its steps. -/
theorem Origin.toList_tableName (u : Origin) :
    u.tableName.toList = ['_'].intercalate (u.trail.map fun step => (stepName step).toList) := by
  induction u with
  | named step => simp [trail, tableName]
  | under row steps ih => exact toList_foldl_nextName row.trail_ne_nil ih

/-- The steps on the trails of origins inside of an element are steps of the document. -/
theorem trail_subset (he : ∀ y ∈ e.descendants, y ∈ root.descendants) (hrow : row.trail ⊆ stepsOf root)
    (hsteps : steps ⊆ stepsOf root) (h : (x, u) ∈ originsIn s l row steps e) :
    u.trail ⊆ stepsOf root := by
  induction e using induct_tree generalizing row steps with
  | h e ih =>
    obtain ⟨c, hc, hcases⟩ := mem_originsIn_iff.1 h
    have hchild : ∀ y ∈ c.descendants, y ∈ root.descendants := fun y hy =>
      he y (mem_descendants_iff.2 (Or.inr (mem_inner_iff.2 ⟨c, hc, hy⟩)))
    have hstep : [keyStep e c] ⊆ stepsOf root :=
      List.cons_subset.2 ⟨keyStep_mem_stepsOf (he e (mem_descendants_self e)) hc, List.nil_subset _⟩
    have hnext : steps ++ [keyStep e c] ⊆ stepsOf root := List.append_subset.2 ⟨hsteps, hstep⟩
    have hown : (originOf s row steps e c).trail ⊆ stepsOf root := by
      unfold originOf
      split
      · exact hstep
      · exact List.append_subset.2 ⟨hrow, hnext⟩
    rcases hcases with ⟨-, ⟨rfl, rfl⟩ | hx⟩ | ⟨-, hx⟩
    · exact hown
    · exact ih c hc hchild hown (List.nil_subset _) hx
    · exact ih c hc hchild hrow hnext hx

theorem trail_subset_stepsOf (h : (x, u) ∈ origins s l root) : u.trail ⊆ stepsOf root := by
  have hroot : (Origin.named root.localName).trail ⊆ stepsOf root :=
    List.cons_subset.2 ⟨List.mem_cons_self, List.nil_subset _⟩
  unfold origins at h
  split at h
  · rcases List.mem_cons.1 h with h | h
    · obtain ⟨-, rfl⟩ := Prod.mk.inj h
      exact hroot
    · exact trail_subset (fun y hy => hy) hroot (List.nil_subset _) h
  · cases h

/-- Origins that name one table have one trail. -/
theorem Legible.trail_eq (h : Legible root) (hu : u.trail ⊆ stepsOf root) (hv : v.trail ⊆ stepsOf root)
    (hname : u.tableName = v.tableName) : u.trail = v.trail := by
  refine eq_of_intercalate_eq u.trail_ne_nil v.trail_ne_nil
    (fun a ha b hb heq => h.apart a (hu ha) b (hv hb) (String.toList_inj.1 heq))
    (fun a ha b hb => ⟨h.joints a (hu ha) b (hv hb), h.joints b (hv hb) a (hu ha)⟩) ?_
  rw [← u.toList_tableName, ← v.toList_tableName, hname]

end Trails

/-! ### Documents -/

/-- Each element with a row has an origin. -/
theorem exists_origin {s : Setting} {m : Model} {root x : Element} {o : Outcome} (hd : root.Distinct)
    (ho : build s m root = .ok o) (hx : x ∈ root.descendants) {name : String}
    (hname : o.layout.get? x.id = some (.table name)) : ∃ u, (x, u) ∈ origins s o.layout root := by
  have hplaces := build_places hd ho
  cases htable : o.rootTable? with
  | none => exact absurd hname (hplaces.nothing htable x hx name)
  | some table =>
    rw [origins, hplaces.table table htable]
    rcases mem_descendants_iff.1 hx with rfl | hx
    · exact ⟨_, List.mem_cons_self⟩
    · obtain ⟨u, hu⟩ := exists_originIn hplaces.connected hx hname s (.named root.localName) []
      exact ⟨u, List.mem_cons_of_mem _ hu⟩

/-- Each element with a row in a document has an origin, and elements in one table have origins with one
trail: they start with the same step, and the same steps lead from there. -/
theorem shared_table_trail {limits : Limits} {bytes : Bytes} {d : Document}
    (hd : Document.parse limits bytes = .ok d) (hlegible : Legible d.root) {s : Setting} {m : Model}
    {o : Outcome} (ho : build s m d.root = .ok o) {x y : Element} (hx : x ∈ d.root.descendants)
    (hy : y ∈ d.root.descendants) {name : String} (hxname : o.layout.get? x.id = some (.table name))
    (hyname : o.layout.get? y.id = some (.table name)) :
    (∃ u, (x, u) ∈ origins s o.layout d.root) ∧ (∃ v, (y, v) ∈ origins s o.layout d.root) ∧
      ∀ u v, (x, u) ∈ origins s o.layout d.root → (y, v) ∈ origins s o.layout d.root →
        u.trail = v.trail := by
  have hdistinct := (Document.numbered_parse hd).distinct
  refine ⟨exists_origin hdistinct ho hx hxname, exists_origin hdistinct ho hy hyname,
    fun u v hu hv => ?_⟩
  have hxu := build_named hdistinct hlegible.colon ho hu
  have hyv := build_named hdistinct hlegible.colon ho hv
  rw [hxname] at hxu
  rw [hyname] at hyv
  have hname : u.tableName = v.tableName := by
    rw [← Placement.table.inj (Option.some.inj hxu), ← Placement.table.inj (Option.some.inj hyv)]
  exact hlegible.trail_eq (trail_subset_stepsOf hu) (trail_subset_stepsOf hv) hname

/-- The document of a text, and what comes of building it into an empty model in the setting of a
schema. -/
def built? (schema text : String) (options : BuildOptions := {}) : Option (Document × Setting × Outcome) := do
  let catalog ← (Schema.Catalog.ofText schema).toOption
  let d ← (Document.ofText text).toOption
  let typing ← (Typing.ofRoot catalog d.root).toOption
  let o ← (build ⟨typing, options⟩ {} d.root).toOption
  return (d, ⟨typing, options⟩, o)

theorem built?_eq_some {schema text : String} {options : BuildOptions} {d : Document} {s : Setting}
    {o : Outcome} (h : built? schema text options = some (d, s, o)) :
    Document.ofText text = .ok d ∧ build s {} d.root = .ok o := by
  obtain ⟨catalog, -, h⟩ := Option.bind_eq_some_iff.1 h
  obtain ⟨d, hd, h⟩ := Option.bind_eq_some_iff.1 h
  obtain ⟨typing, -, h⟩ := Option.bind_eq_some_iff.1 h
  obtain ⟨o, ho, h⟩ := Option.bind_eq_some_iff.1 h
  cases h
  exact ⟨toOption_eq_some_iff.1 hd, toOption_eq_some_iff.1 ho⟩

theorem built?_typed {schema text : String} {options : BuildOptions} {d : Document} {s : Setting}
    {o : Outcome} (h : built? schema text options = some (d, s, o)) :
    ∃ c, Typing.ofRoot c d.root = .ok s.typing := by
  obtain ⟨catalog, -, h⟩ := Option.bind_eq_some_iff.1 h
  obtain ⟨d, -, h⟩ := Option.bind_eq_some_iff.1 h
  obtain ⟨typing, htyping, h⟩ := Option.bind_eq_some_iff.1 h
  obtain ⟨o, -, h⟩ := Option.bind_eq_some_iff.1 h
  cases h
  exact ⟨catalog, toOption_eq_some_iff.1 htyping⟩

/-- Repeated elements below a repeated one, and others next to it that are named like both together. -/
def joinedSchema : String :=
  "<xs:schema xmlns:xs='http://www.w3.org/2001/XMLSchema'><xs:element name='r'><xs:complexType>" ++
  "<xs:sequence><xs:element name='a_b' type='xs:string' minOccurs='0' maxOccurs='unbounded'/>" ++
  "<xs:element name='a' maxOccurs='unbounded'><xs:complexType><xs:sequence>" ++
  "<xs:element name='b' type='xs:string' maxOccurs='unbounded'/></xs:sequence></xs:complexType>" ++
  "</xs:element></xs:sequence></xs:complexType></xs:element></xs:schema>"

/-- Elements that the same steps lead to from different rows are in one table. -/
theorem shared_by_same_steps : ∃ d s o x y,
    built? joinedSchema "<r><a><b>1</b></a><a><b>2</b></a></r>" = some (d, s, o) ∧ Legible d.root ∧
      x ∈ d.root.descendants ∧ y ∈ d.root.descendants ∧ x.id = 2 ∧ y.id = 4 ∧
      o.layout.get? x.id = some (.table "r_a_b") ∧ o.layout.get? y.id = some (.table "r_a_b") ∧
      ((∃ u, (x, u) ∈ origins s o.layout d.root) ∧ (∃ v, (y, v) ∈ origins s o.layout d.root) ∧
        ∀ u v, (x, u) ∈ origins s o.layout d.root → (y, v) ∈ origins s o.layout d.root →
          u.trail = v.trail) := by
  have heval : (built? joinedSchema "<r><a><b>1</b></a><a><b>2</b></a></r>").map (fun b =>
      (decide (Legible b.1.root), b.1.root.descendants.map fun x => (x.id, b.2.2.layout.get? x.id))) =
      some (true, [(0, some (.table "r")), (1, some (.table "r_a")), (2, some (.table "r_a_b")),
        (3, some (.table "r_a")), (4, some (.table "r_a_b"))]) := by
    decide +kernel
  obtain ⟨⟨d, s, o⟩, hb, heval⟩ := Option.map_eq_some_iff.1 heval
  obtain ⟨hlegible, heval⟩ := Prod.mk.inj heval
  have hplaced : ∀ i p, (i, p) ∈ d.root.descendants.map (fun x => (x.id, o.layout.get? x.id)) →
      ∃ x ∈ d.root.descendants, x.id = i ∧ o.layout.get? x.id = p := by
    intro i p hmem
    obtain ⟨x, hx, heq⟩ := List.mem_map.1 hmem
    exact ⟨x, hx, Prod.mk.inj heq⟩
  rw [heval] at hplaced
  obtain ⟨x, hx, hxid, hxname⟩ := hplaced 2 (some (.table "r_a_b")) (by simp)
  obtain ⟨y, hy, hyid, hyname⟩ := hplaced 4 (some (.table "r_a_b")) (by simp)
  obtain ⟨hd, ho⟩ := built?_eq_some hb
  exact ⟨d, s, o, x, y, hb, of_decide_eq_true hlegible, hx, hy, hxid, hyid, hxname, hyname,
    shared_table_trail hd (of_decide_eq_true hlegible) ho hx hy hxname hyname⟩

/-- Two elements of a document are in one table, and their origins are not the same. -/
def SharedByUnrelated (d : Document) (s : Setting) (o : Outcome) : Prop :=
  ∃ x u y v name, (x, u) ∈ origins s o.layout d.root ∧ (y, v) ∈ origins s o.layout d.root ∧ u ≠ v ∧
    o.layout.get? x.id = some (.table name) ∧ o.layout.get? y.id = some (.table name)

theorem sharedByUnrelated_of_mem {d : Document} {s : Setting} {o : Outcome}
    {placed : List (Origin × Option Placement)} (u v : Origin) (name : String)
    (h : (origins s o.layout d.root).map (fun x => (x.2, o.layout.get? x.1.id)) = placed)
    (hu : (u, some (.table name)) ∈ placed) (hv : (v, some (.table name)) ∈ placed) (hne : u ≠ v) :
    SharedByUnrelated d s o := by
  subst h
  obtain ⟨⟨x, u'⟩, hx, hxeq⟩ := List.mem_map.1 hu
  obtain ⟨⟨y, v'⟩, hy, hyeq⟩ := List.mem_map.1 hv
  obtain ⟨rfl, hxname⟩ := Prod.mk.inj hxeq
  obtain ⟨rfl, hyname⟩ := Prod.mk.inj hyeq
  exact ⟨x, u', y, v', name, hx, hy, hne, hxname, hyname⟩

/-- Repeated elements whose only part is split off, or not, with the columns that it has. -/
def splitSchema : String :=
  "<xs:schema xmlns:xs='http://www.w3.org/2001/XMLSchema'><xs:element name='r'><xs:complexType>" ++
  "<xs:sequence><xs:element name='p' maxOccurs='unbounded'><xs:complexType><xs:sequence>" ++
  "<xs:element name='a'><xs:complexType><xs:sequence>" ++
  "<xs:element name='b' type='xs:string' maxOccurs='unbounded'/></xs:sequence>" ++
  "<xs:attribute name='x'/><xs:attribute name='y'/></xs:complexType></xs:element></xs:sequence>" ++
  "</xs:complexType></xs:element></xs:sequence></xs:complexType></xs:element></xs:schema>"

/-- A table is shared by unrelated elements when a name looks like two joined ones, and also when the
same part is inlined in one element and split off from another one. -/
theorem shared_by_unrelated :
    (∃ d s o, built? joinedSchema "<r><a_b>1</a_b><a><b>2</b></a></r>" = some (d, s, o) ∧
      SharedByUnrelated d s o) ∧
    ∃ d s o, built? splitSchema
        "<r><p><a x='1'><b>1</b></a></p><p><a x='1' y='2'><b>2</b></a></p></r>"
        { mergeMaxColumns? := some 1 } = some (d, s, o) ∧
      SharedByUnrelated d s o := by
  have hjoined : (built? joinedSchema "<r><a_b>1</a_b><a><b>2</b></a></r>").map (fun b =>
      (origins b.2.1 b.2.2.layout b.1.root).map fun x => (x.2, b.2.2.layout.get? x.1.id)) =
      some [(.named "r", some (.table "r")),
        (.under (.named "r") ["a_b"], some (.table "r_a_b")),
        (.under (.named "r") ["a"], some (.table "r_a")),
        (.under (.under (.named "r") ["a"]) ["b"], some (.table "r_a_b"))] := by
    decide +kernel
  have hsplit : (built? splitSchema
      "<r><p><a x='1'><b>1</b></a></p><p><a x='1' y='2'><b>2</b></a></p></r>"
      { mergeMaxColumns? := some 1 }).map (fun b =>
        (origins b.2.1 b.2.2.layout b.1.root).map fun x => (x.2, b.2.2.layout.get? x.1.id)) =
      some [(.named "r", some (.table "r")),
        (.under (.named "r") ["p"], some (.table "r_p")),
        (.under (.under (.named "r") ["p"]) ["a", "b"], some (.table "r_p_a_b")),
        (.under (.named "r") ["p"], some (.table "r_p")),
        (.under (.under (.named "r") ["p"]) ["a"], some (.table "r_p_a")),
        (.under (.under (.under (.named "r") ["p"]) ["a"]) ["b"], some (.table "r_p_a_b"))] := by
    decide +kernel
  obtain ⟨⟨d, s, o⟩, hb, hjoined⟩ := Option.map_eq_some_iff.1 hjoined
  obtain ⟨⟨d', s', o'⟩, hb', hsplit⟩ := Option.map_eq_some_iff.1 hsplit
  refine ⟨⟨d, s, o, hb, ?_⟩, d', s', o', hb', ?_⟩
  · exact sharedByUnrelated_of_mem (.under (.named "r") ["a_b"])
      (.under (.under (.named "r") ["a"]) ["b"]) "r_a_b" hjoined (by simp) (by simp) (by decide)
  · exact sharedByUnrelated_of_mem (.under (.under (.named "r") ["p"]) ["a", "b"])
      (.under (.under (.under (.named "r") ["p"]) ["a"]) ["b"]) "r_p_a_b" hsplit (by simp) (by simp)
      (by decide)

end FeatureTables.Layout
