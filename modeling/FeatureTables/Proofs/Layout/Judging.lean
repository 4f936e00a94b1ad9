import FeatureTables.Proofs.Layout.Naming

/-!
How children are judged to be parts of a row. The judgement of a child is a prediction: what the child
would cost in the model as it is, which depends on the model only by the tables that are named like a
child inside of it (`isInlined_congr`). The model that an element is judged in has the tables of the
elements before it, and of no others that the document places (`collect_judges`).
-/

namespace FeatureTables.Layout

open Xml Element

/-! ### Judged children -/

/-- The budget decides whether the child is a part of the row. -/
structure Judged (e : Element) (t : NodeTyping) : Prop where
  geometry : t.isGeometry = false
  void : isVoid e t = false
  repeated : t.isRepeated = false
  natural : hasNaturalId e t = false
  head : t.head?.isSome = false
  complex : t.isSimple = false

/-- The cost with that of a judged child: what it nests and brings if it fits, and else a link. -/
def Cost.adding (o : BuildOptions) (cost : Cost) (found? : Option Cost) : Cost :=
  match found?.filter (fits o) with
  | some c => ⟨max cost.depth (c.depth + 1), cost.columns + c.columns⟩
  | none => { cost with columns := cost.columns + 1 }

/-- The elements whose cost is a part of the cost of an element, with the names of the tables that they
would have. -/
inductive Candidate (s : Setting) : String → Element → Element → String → Prop
  | here {name : String} {e : Element} : Candidate s name e e name
  | inside {name table : String} {e c x : Element} {t : NodeTyping} (hc : c ∈ e.children)
      (ht : typingOf s c = .ok t) (hj : Judged c t)
      (h : Candidate s (nextName name (keyStep e c) false) c x table) : Candidate s name e x table

section Cost

variable {s : Setting} {m n : Model} {name : String} {parent e c x : Element} {t : NodeTyping}
  {cost cost' : Cost}

theorem Candidate.mem_descendants {table : String} (h : Candidate s name e x table) :
    x ∈ e.descendants := by
  induction h with
  | here => exact mem_descendants_self _
  | inside hc _ _ _ ih =>
    exact mem_descendants_trans ih (mem_descendants_iff.2 (Or.inr (mem_inner_of_mem_children hc)))

theorem childCost_judged {nested : String → Except Error (Option Cost)} (ht : typingOf s e = .ok t)
    (hj : Judged e t) : childCost s name parent e nested cost =
      (nested (nextName name (keyStep parent e) false)).map (cost.adding s.options) := by
  unfold childCost
  simp only [ht, hj.geometry, hj.void, hj.repeated, hj.natural, hj.head, hj.complex, bind, Except.bind,
    Bool.or_self, Bool.false_eq_true, if_false, nextName]
  cases nested (name ++ "_" ++ stepName (keyStep parent e)) with
  | error err => rfl
  | ok found =>
    dsimp only [Except.map, Cost.adding]
    cases found.filter (fits s.options) <;> rfl

/-- The columns of other children, which add no depth. -/
theorem childCost_not_judged {nested : String → Except Error (Option Cost)} (ht : typingOf s e = .ok t)
    (hj : ¬ Judged e t) : childCost s name parent e nested cost =
      .ok { cost with columns := cost.columns +
        if t.isGeometry then 1 else if isVoid e t || t.isRepeated then 0
        else if hasNaturalId e t || t.head?.isSome then 1 else t.attributes.size + 1 } := by
  unfold childCost
  simp only [ht, bind, Except.bind]
  split
  · rfl
  · rename_i hg
    split
    · rfl
    · rename_i hv
      split
      · rfl
      · rename_i hn
        split
        · rfl
        · rename_i hs
          rw [Bool.or_eq_true, not_or] at hv hn
          exact absurd ⟨by simpa using hg, by simpa using hv.1, by simpa using hv.2,
            by simpa using hn.1, by simpa using hn.2, by simpa using hs⟩ hj

theorem inlineCost?_eq (s : Setting) (m : Model) (name : String) (e : Element) :
    inlineCost? s m name e = (do
      let t ← typingOf s e
      if t.isGeometry || t.head?.isSome || hasNaturalId e t || m.tables.contains name then return none
      else
        return some (← inlineCostAmong s m name e
          ⟨1, t.attributes.size + if t.isSimple && e.text?.isSome then 1 else 0⟩ e.children)) := by
  cases e
  rw [inlineCost?]

theorem inlineCostAmong_congr {es : List Element} (hes : es ⊆ parent.children)
    (hnode : ∀ c ∈ es, ∀ t, typingOf s c = .ok t → Judged c t →
      inlineCost? s m (nextName name (keyStep parent c) false) c =
        inlineCost? s n (nextName name (keyStep parent c) false) c) :
    inlineCostAmong s m name parent cost es = inlineCostAmong s n name parent cost es := by
  induction es generalizing cost with
  | nil => rfl
  | cons c es ih =>
    obtain ⟨hc, hes⟩ := List.cons_subset.1 hes
    obtain ⟨hnode₁, hnode⟩ := List.forall_mem_cons.1 hnode
    have hchild : childCost s name parent c (fun below => inlineCost? s m below c) cost =
        childCost s name parent c (fun below => inlineCost? s n below c) cost := by
      cases ht : typingOf s c with
      | error err => simp only [childCost, ht, bind, Except.bind]
      | ok t =>
        by_cases hj : Judged c t
        · rw [childCost_judged ht hj, childCost_judged ht hj, hnode₁ t ht hj]
        · rw [childCost_not_judged ht hj, childCost_not_judged ht hj]
    rw [inlineCostAmong, inlineCostAmong, hchild]
    exact bind_congr fun cost => ih hes hnode

/-- The cost of an element depends on the model only by which candidates have a table. -/
theorem inlineCost?_congr (h : ∀ x table, Candidate s name e x table →
    m.tables.contains table = n.tables.contains table) :
    inlineCost? s m name e = inlineCost? s n name e := by
  induction e using induct_tree generalizing name with
  | h e ih =>
    rw [inlineCost?_eq, inlineCost?_eq, h e name .here]
    refine bind_congr fun t => ?_
    rw [inlineCostAmong_congr (List.Subset.refl _) fun c hc t ht hj =>
      ih c hc fun x table hx => h x table (.inside hc ht hj hx)]

theorem isInlined_congr (h : ∀ x table, Candidate s name e x table →
    m.tables.contains table = n.tables.contains table) (t : NodeTyping) :
    isInlined s m name e t = isInlined s n name e t := by
  unfold isInlined
  rw [inlineCost?_congr h]

end Cost

/-! ### The tables while a document is built -/

section Contains

variable (b : Building) (name table : String)

theorem contains_started (natural : Bool) :
    (b.started name natural).model.tables.contains table = true ↔
      b.model.tables.contains table = true ∨ table = name := by
  have hget : (b.started name natural).model.tables.get? table = _ := b.table?_started name table natural
  rw [OrderedMap.contains, hget]
  by_cases htable : table = name <;> simp [htable, OrderedMap.contains, Model.table?]

theorem contains_extended (fields : List Field) :
    (b.extended name fields).model.tables.contains table = b.model.tables.contains table := by
  simp only [Building.extended, OrderedMap.contains, OrderedMap.get?_modify]
  split <;> simp

end Contains

/-- The tables after building are those from before, and those of the rows among the elements. -/
def Opens (es : List Element) (b b' : Building) : Prop :=
  ∀ table, b'.model.tables.contains table = true ↔
    b.model.tables.contains table = true ∨ ∃ y ∈ es, b'.layout.get? y.id = some (.table table)

section Opens

variable {s : Setting} {name : String} {parent e c : Element} {es es' : List Element}
  {b b₁ b' : Building} {fs : List Field}

theorem Opens.append (h : Opens es b b₁) (h' : Opens es' b₁ b')
    (heq : ∀ y ∈ es, b'.layout.get? y.id = b₁.layout.get? y.id) : Opens (es ++ es') b b' := by
  intro table
  rw [h' table, h table, or_assoc]
  simp only [List.mem_append, or_and_right, exists_or]
  refine or_congr_right (or_congr_left (exists_congr fun y => and_congr_right fun hy => ?_))
  rw [heq y hy]

/-- Nothing is placed inside of an element that is given a row, as long as nothing was placed in it. -/
theorem inner_row (hd : c.Distinct) (hnone : ∀ y ∈ c.descendants, b.layout.get? y.id = none)
    (target : String) (natural : Bool) : ∀ y ∈ c.inner,
      ((b.started target natural).placed c (.table target)).layout.get? y.id = none := by
  rw [Building.placed_layout, Building.started_layout]
  exact inner_put hd hnone _

/-- A child without a row opens no table. -/
theorem opens_put (hd : c.Distinct) (hnone : ∀ y ∈ c.descendants, b.layout.get? y.id = none)
    {p : Placement} (hp : ∀ table, p ≠ .table table) : Opens c.descendants b (b.placed c p) := by
  refine fun table => ⟨Or.inl, Or.rec id ?_⟩
  rintro ⟨y, hy, hplaced⟩
  rw [Building.placed_layout] at hplaced
  rcases mem_descendants_iff.1 hy with rfl | hy
  · rw [NodeMap.get?_put, if_pos rfl] at hplaced
    exact absurd (Option.some.inj hplaced) (hp table)
  · rw [inner_put hd hnone p y hy] at hplaced
    cases hplaced

theorem childFields_opens (hd : c.Distinct) (hnone : ∀ y ∈ c.descendants, b.layout.get? y.id = none)
    (hcollect : ∀ {name b fs b'}, (∀ y ∈ c.inner, b.layout.get? y.id = none) →
      Leads (collect s name c) b fs b' → Opens c.inner b b')
    (h : Leads (childFields s name parent c fun below => collect s below c) b fs b') :
    Opens c.descendants b b' := by
  obtain ⟨t, -, h⟩ := childFields_cases h
  rcases h with ⟨rfl, -⟩ | ⟨-, rfl, -⟩ | ⟨-, below, own, hown, -⟩ |
    ⟨-, target, natural, own, b₁, hown, rfl, -⟩
  · exact opens_put hd hnone (by simp)
  · exact opens_put hd hnone (by simp)
  · intro table
    rw [hcollect (inner_put hd hnone .inlined) hown table, descendants_eq_inner,
      List.exists_mem_cons_iff, collect_self hd hown]
    simp [Building.placed]
  · intro table
    rw [contains_extended, hcollect (inner_row hd hnone target natural) hown table,
      Building.extended_layout, descendants_eq_inner, List.exists_mem_cons_iff, collect_self hd hown]
    change (b.started target natural).model.tables.contains table = true ∨ _ ↔ _
    rw [contains_started, or_assoc]
    simp only [Option.some.injEq, Placement.table.injEq, eq_comm]

theorem collectAmong_opens (hdistinct : ∀ c ∈ es, c.Distinct)
    (hnodup : ((es.flatMap descendants).map (·.id)).Nodup)
    (hnone : ∀ y ∈ es.flatMap descendants, b.layout.get? y.id = none)
    (hchild : ∀ c ∈ es, ∀ {b fs b'}, (∀ y ∈ c.descendants, b.layout.get? y.id = none) →
      Leads (childFields s name parent c fun below => collect s below c) b fs b' →
      Opens c.descendants b b')
    (h : Leads (collectAmong s name parent es) b fs b') : Opens (es.flatMap descendants) b b' := by
  induction es generalizing b fs with
  | nil =>
    obtain ⟨-, rfl⟩ := leads_collectAmong_nil.1 h
    simp [Opens]
  | cons c es ih =>
    obtain ⟨first, b₁, rest, hfirst, hrest, -⟩ := leads_collectAmong_cons.1 h
    rw [List.flatMap_cons] at hnodup hnone ⊢
    have hsep := collectAmong_separate hdistinct hnodup hfirst hrest
    have hopens := hchild c List.mem_cons_self (fun y hy => hnone y (List.mem_append_left _ hy)) hfirst
    exact hopens.append (ih (fun d hd => hdistinct d (List.mem_cons_of_mem _ hd)) hsep.nodup
      (hsep.fresh hnone) (fun d hd => hchild d (List.mem_cons_of_mem _ hd)) hrest) hsep.same

/-- Collecting opens the tables of the rows inside of the element, and no others. -/
theorem collect_opens (hd : e.Distinct) (hnone : ∀ y ∈ e.inner, b.layout.get? y.id = none)
    (h : Leads (collect s name e) b fs b') : Opens e.inner b b' := by
  induction e using induct_tree generalizing name b fs b' with
  | h e ih =>
    obtain ⟨t, rest, -, hrest, -⟩ := leads_collect.1 h
    exact collectAmong_opens (fun c hc => hd.child hc) hd.nodup_inner hnone
      (fun c hc {b fs b'} hnone h => childFields_opens (hd.child hc) hnone
        (fun hnone h => ih c hc (hd.child hc) hnone h) h) hrest

end Opens

/-! ### The judgements of a document -/

/-- Inside of `e`, whose tables have names that start with `name`, the element is a part of a row, and
its table would have had the name `below`. -/
inductive JudgedAs (l : Layout) : String → Element → Element → String → Prop
  | child {name : String} {e c : Element} (hc : c ∈ e.children) (hl : l.get? c.id = some .inlined) :
      JudgedAs l name e c (nextName name (keyStep e c) false)
  | part {name below : String} {e c x : Element} (hc : c ∈ e.children) (hl : Passes l c)
      (hx : JudgedAs l (nextName name (keyStep e c) false) c x below) : JudgedAs l name e x below
  | row {name target below : String} {e c x : Element} (hc : c ∈ e.children)
      (hl : l.get? c.id = some (.table target)) (hx : JudgedAs l target c x below) :
      JudgedAs l name e x below

/-- The element is the child, or inside of it, and is a part of a row as `JudgedAs` has it. -/
def JudgedBy (l : Layout) (name : String) (parent c x : Element) (below : String) : Prop :=
  (l.get? c.id = some .inlined ∧ x = c ∧ below = nextName name (keyStep parent c) false) ∨
    (Passes l c ∧ JudgedAs l (nextName name (keyStep parent c) false) c x below) ∨
    ∃ target, l.get? c.id = some (.table target) ∧ JudgedAs l target c x below

section JudgedAs

variable {l l' : Layout} {name below : String} {parent e c x : Element}

theorem judgedAs_iff : JudgedAs l name e x below ↔ ∃ c ∈ e.children, JudgedBy l name e c x below := by
  constructor
  · intro h
    cases h with
    | child hc hl => exact ⟨_, hc, Or.inl ⟨hl, rfl, rfl⟩⟩
    | part hc hl hx => exact ⟨_, hc, Or.inr (Or.inl ⟨hl, hx⟩)⟩
    | row hc hl hx => exact ⟨_, hc, Or.inr (Or.inr ⟨_, hl, hx⟩)⟩
  · rintro ⟨c, hc, ⟨hl, rfl, rfl⟩ | ⟨hl, hx⟩ | ⟨target, hl, hx⟩⟩
    · exact .child hc hl
    · exact .part hc hl hx
    · exact .row hc hl hx

theorem JudgedAs.mem_inner (h : JudgedAs l name e x below) : x ∈ e.inner := by
  induction h with
  | child hc _ => exact mem_inner_of_mem_children hc
  | part hc _ _ ih => exact mem_inner_iff.2 ⟨_, hc, mem_descendants_iff.2 (Or.inr ih)⟩
  | row hc _ _ ih => exact mem_inner_iff.2 ⟨_, hc, mem_descendants_iff.2 (Or.inr ih)⟩

theorem judgedBy_iff {p : Placement} (hp : l.get? c.id = some p) : JudgedBy l name parent c x below ↔
    match p with
    | .inlined => x = c ∧ below = nextName name (keyStep parent c) false ∨
        JudgedAs l (nextName name (keyStep parent c) false) c x below
    | .empty => JudgedAs l (nextName name (keyStep parent c) false) c x below
    | .table target => JudgedAs l target c x below
    | .geometry => False := by
  cases p <;> simp [JudgedBy, Passes, hp]

theorem JudgedBy.mem_descendants (h : JudgedBy l name parent c x below) : x ∈ c.descendants := by
  rcases h with ⟨-, rfl, -⟩ | ⟨-, hx⟩ | ⟨target, -, hx⟩
  · exact mem_descendants_self x
  · exact mem_descendants_iff.2 (Or.inr hx.mem_inner)
  · exact mem_descendants_iff.2 (Or.inr hx.mem_inner)

theorem JudgedAs.inlined (h : JudgedAs l name e x below) : l.get? x.id = some .inlined := by
  induction h with
  | child _ hl => exact hl
  | part _ _ _ ih => exact ih
  | row _ _ _ ih => exact ih

theorem JudgedAs.congr (h : JudgedAs l name e x below)
    (heq : ∀ y ∈ e.inner, l'.get? y.id = l.get? y.id) : JudgedAs l' name e x below := by
  induction h with
  | child hc hl => exact .child hc (by rw [heq _ (mem_inner_of_mem_children hc), hl])
  | part hc hl _ ih =>
    have hmem := mem_inner_of_mem_children hc
    exact .part hc (by rwa [Passes, heq _ hmem]) (ih fun y hy => heq y
      (mem_inner_of_descendants (mem_descendants_iff.2 (Or.inr hy)) hmem))
  | row hc hl _ ih =>
    have hmem := mem_inner_of_mem_children hc
    exact .row hc (by rw [heq _ hmem, hl]) (ih fun y hy => heq y
      (mem_inner_of_descendants (mem_descendants_iff.2 (Or.inr hy)) hmem))

theorem JudgedBy.congr (h : JudgedBy l name parent c x below)
    (heq : ∀ y ∈ c.descendants, l'.get? y.id = l.get? y.id) : JudgedBy l' name parent c x below := by
  have hinner : ∀ y ∈ c.inner, l'.get? y.id = l.get? y.id := fun y hy =>
    heq y (mem_descendants_iff.2 (Or.inr hy))
  unfold JudgedBy Passes
  rw [heq c (mem_descendants_self c)]
  rcases h with h | ⟨hl, hx⟩ | ⟨target, hl, hx⟩
  · exact Or.inl h
  · exact Or.inr (Or.inl ⟨hl, hx.congr hinner⟩)
  · exact Or.inr (Or.inr ⟨target, hl, hx.congr hinner⟩)

/-- Each part of a row was judged under some name. -/
theorem exists_judgedAs (h : Connected l e) (hx : x ∈ e.inner) (hl : l.get? x.id = some .inlined)
    (name : String) : ∃ below, JudgedAs l name e x below := by
  induction e using induct_tree generalizing name with
  | h e ih =>
    obtain ⟨c, hc, hxc⟩ := mem_inner_iff.1 hx
    rcases mem_descendants_iff.1 hxc with rfl | hxc
    · exact ⟨_, .child hc hl⟩
    · by_cases htable : ∃ target, l.get? c.id = some (.table target)
      · obtain ⟨target, htarget⟩ := htable
        obtain ⟨below, hbelow⟩ := ih c hc (h.child hc) hxc target
        exact ⟨below, .row hc htarget hbelow⟩
      · by_cases hpasses : Passes l c
        · obtain ⟨below, hbelow⟩ := ih c hc (h.child hc) hxc (nextName name (keyStep e c) false)
          exact ⟨below, .part hc hpasses hbelow⟩
        · have := (h.child hc).eq_none (fun target htarget => htable ⟨target, htarget⟩) hpasses x
            hxc
          rw [hl] at this
          cases this

end JudgedAs

/-- How an element became a part of a row: it was judged in the model `before`, where the elements in
front of it, of all that were built, had their tables, and was built next. -/
structure Judgement (s : Setting) (es : List Element) (b : Building) (l : Layout) (x : Element)
    (below : String) (before : Building) : Prop where
  inlined : ∃ t, typingOf s x = .ok t ∧ isInlined s before.model below x t = .ok true
  built : ∃ own after, Leads (collect s below x) (before.placed x .inlined) own after ∧
    ∀ y ∈ x.inner, l.get? y.id = after.layout.get? y.id
  fresh : ∀ y ∈ x.descendants, before.layout.get? y.id = none
  tables : ∀ table, before.model.tables.contains table = true ↔
    b.model.tables.contains table = true ∨
      ∃ z ∈ es, z.id < x.id ∧ l.get? z.id = some (.table table)

section Judgement

variable {s : Setting} {name below : String} {parent e c x : Element} {es es' : List Element}
  {b b₁ b' : Building} {l l' : Layout} {fs : List Field}

theorem Judgement.mono {before : Building} (h : Judgement s es b₁ l x below before)
    (hl : ∀ y ∈ x.inner, l'.get? y.id = l.get? y.id)
    (htables : ∀ table,
      (b₁.model.tables.contains table = true ∨
          ∃ z ∈ es, z.id < x.id ∧ l.get? z.id = some (.table table)) ↔
        b.model.tables.contains table = true ∨
          ∃ z ∈ es', z.id < x.id ∧ l'.get? z.id = some (.table table)) :
    Judgement s es' b l' x below before where
  inlined := h.inlined
  built := by
    obtain ⟨own, after, hown, hsame⟩ := h.built
    exact ⟨own, after, hown, fun y hy => (hl y hy).trans (hsame y hy)⟩
  fresh := h.fresh
  tables table := (h.tables table).trans (htables table)

/-- What is judged inside of a row of its own. -/
theorem Judgement.row {before : Building} {target : String} {natural : Bool} {own : List Field}
    (hn : c.Numbered)
    (hown : Leads (collect s target c) ((b.started target natural).placed c (.table target)) own b₁)
    (hx : x ∈ c.inner)
    (h : Judgement s c.inner ((b.started target natural).placed c (.table target)) b₁.layout x below
      before) : Judgement s c.descendants b b₁.layout x below before := by
  refine h.mono (fun y _ => rfl) fun table => ?_
  rw [descendants_eq_inner, List.exists_mem_cons_iff, collect_self hn.distinct hown]
  change (b.started target natural).model.tables.contains table = true ∨ _ ↔ _
  rw [contains_started, or_assoc]
  simp only [Option.some.injEq, Placement.table.injEq, hn.lt_of_inner hx, true_and, eq_comm]

theorem childFields_judges (hn : c.Numbered) (hnone : ∀ y ∈ c.descendants, b.layout.get? y.id = none)
    (hcollect : ∀ {name b fs b'}, (∀ y ∈ c.inner, b.layout.get? y.id = none) →
      Leads (collect s name c) b fs b' → ∀ {x below}, JudgedAs b'.layout name c x below →
      ∃ before, Judgement s c.inner b b'.layout x below before)
    (h : Leads (childFields s name parent c fun below => collect s below c) b fs b')
    (hx : JudgedBy b'.layout name parent c x below) :
    ∃ before, Judgement s c.descendants b b'.layout x below before := by
  have hlt : ∀ z ∈ c.descendants, ¬ z.id < c.id := fun z hz =>
    Nat.not_lt.2 (hn.le_of_descendants hz)
  obtain ⟨t, ht, h⟩ := childFields_judged h
  rcases h with ⟨-, rfl, -⟩ | ⟨-, hv, rfl, -⟩ | ⟨-, -, hinlined, own, hown, -⟩ |
    ⟨-, -, -, target, own, b₁, rfl, hown, rfl, -⟩
  · exact ((judgedBy_iff (p := .geometry) (by rw [Building.placed_layout, NodeMap.get?_put, if_pos rfl])).1
      hx).elim
  · have hx := (judgedBy_iff (p := .empty) (by rw [Building.placed_layout, NodeMap.get?_put, if_pos rfl])).1
      hx
    obtain ⟨d, hd, -⟩ := judgedAs_iff.1 hx
    simp only [isVoid, Bool.and_eq_true, List.isEmpty_iff] at hv
    rw [hv.1.2] at hd
    cases hd
  · have hself := collect_self hn.distinct hown
    rcases (judgedBy_iff hself).1 hx with ⟨rfl, rfl⟩ | hx
    · refine ⟨b, ⟨t, ht, hinlined⟩, ⟨own, b', hown, fun y _ => rfl⟩, hnone, fun table => ?_⟩
      refine ⟨Or.inl, Or.rec id ?_⟩
      rintro ⟨z, hz, hzx, -⟩
      exact absurd hzx (hlt z hz)
    · obtain ⟨before, hbefore⟩ := hcollect (inner_put hn.distinct hnone .inlined) hown hx
      refine ⟨before, hbefore.mono (fun y _ => rfl) fun table => or_congr_right ?_⟩
      rw [descendants_eq_inner, List.exists_mem_cons_iff, hself]
      simp
  · rw [Building.extended_layout] at hx ⊢
    have hx := (judgedBy_iff (collect_self hn.distinct hown)).1 hx
    obtain ⟨before, hbefore⟩ := hcollect (inner_row hn.distinct hnone _ _) hown hx
    exact ⟨before, hbefore.row hn hown hx.mem_inner⟩

theorem collectAmong_judges (hdistinct : ∀ c ∈ es, c.Distinct)
    (hsorted : ((es.flatMap descendants).map (·.id)).Pairwise (· < ·))
    (hnone : ∀ y ∈ es.flatMap descendants, b.layout.get? y.id = none)
    (hchild : ∀ c ∈ es, ∀ {b fs b'}, (∀ y ∈ c.descendants, b.layout.get? y.id = none) →
      Leads (childFields s name parent c fun below => collect s below c) b fs b' →
      ∀ {x below}, JudgedBy b'.layout name parent c x below →
      ∃ before, Judgement s c.descendants b b'.layout x below before)
    (h : Leads (collectAmong s name parent es) b fs b') (hc : c ∈ es)
    (hx : JudgedBy b'.layout name parent c x below) :
    ∃ before, Judgement s (es.flatMap descendants) b b'.layout x below before := by
  induction es generalizing b fs with
  | nil => cases hc
  | cons d es ih =>
    obtain ⟨first, b₁, rest, hfirst, hrest, -⟩ := leads_collectAmong_cons.1 h
    rw [List.flatMap_cons] at hsorted hnone ⊢
    have hsep := collectAmong_separate hdistinct (hsorted.imp Nat.ne_of_lt) hfirst hrest
    have hnone' : ∀ y ∈ d.descendants, b.layout.get? y.id = none := fun y hy =>
      hnone y (List.mem_append_left _ hy)
    rw [List.map_append, List.pairwise_append] at hsorted
    obtain ⟨-, hsorted, hlt⟩ := hsorted
    have hlt : ∀ y ∈ d.descendants, ∀ z ∈ es.flatMap descendants, y.id < z.id := fun y hy z hz =>
      hlt _ (List.mem_map_of_mem hy) _ (List.mem_map_of_mem hz)
    rcases List.mem_cons.1 hc with rfl | hc
    · -- what comes later stands behind the element
      obtain ⟨before, hbefore⟩ := hchild c List.mem_cons_self hnone' hfirst
        (hx.congr fun y hy => (hsep.same y hy).symm)
      have hxc := hx.mem_descendants
      refine ⟨before, hbefore.mono (fun y hy => hsep.same y ?_) fun table => or_congr_right ?_⟩
      · exact mem_descendants_trans (mem_descendants_iff.2 (Or.inr hy)) hxc
      · simp only [List.mem_append, or_and_right, exists_or]
        refine ⟨fun ⟨z, hz, hzx, hzl⟩ => Or.inl ⟨z, hz, hzx, (hsep.same z hz).trans hzl⟩, ?_⟩
        rintro (⟨z, hz, hzx, hzl⟩ | ⟨z, hz, hzx, -⟩)
        · exact ⟨z, hz, hzx, (hsep.same z hz).symm.trans hzl⟩
        · exact absurd (hlt x hxc z hz) (Nat.lt_asymm hzx)
    · obtain ⟨before, hbefore⟩ := ih (fun d hd => hdistinct d (List.mem_cons_of_mem _ hd)) hsorted
        (hsep.fresh hnone) (fun d hd => hchild d (List.mem_cons_of_mem _ hd)) hrest hc
      have hopens := childFields_opens (hdistinct d List.mem_cons_self) hnone'
        (collect_opens (hdistinct d List.mem_cons_self)) hfirst
      have hxes : x ∈ es.flatMap descendants := List.mem_flatMap.2 ⟨c, hc, hx.mem_descendants⟩
      refine ⟨before, hbefore.mono (fun y _ => rfl) fun table => ?_⟩
      rw [hopens table, or_assoc]
      simp only [List.mem_append, or_and_right, exists_or]
      refine or_congr_right (or_congr_left (exists_congr fun z => and_congr_right fun hz => ?_))
      rw [hsep.same z hz]
      exact (and_iff_right (hlt z hz x hxes)).symm

/-- Each part of a row inside of an element was judged when the elements in front of it were built. -/
theorem collect_judges (hn : e.Numbered) (hnone : ∀ y ∈ e.inner, b.layout.get? y.id = none)
    (h : Leads (collect s name e) b fs b') (hx : JudgedAs b'.layout name e x below) :
    ∃ before, Judgement s e.inner b b'.layout x below before := by
  induction e using induct_tree generalizing name b fs b' x below with
  | h e ih =>
    obtain ⟨t, rest, -, hrest, -⟩ := leads_collect.1 h
    obtain ⟨c, hc, hx⟩ := judgedAs_iff.1 hx
    exact collectAmong_judges (fun c hc => hn.distinct.child hc) hn.inner hnone
      (fun c hc {b fs b'} hnone h => childFields_judges (hn.child hc) hnone
        (fun hnone h => ih c hc (hn.child hc) hnone h) h) hrest hc hx

/-- Each part of a row in a document was judged when the elements in front of it were built, and no
others. -/
theorem build_judges {m : Model} {root : Element} {o : Outcome} (hn : root.Numbered)
    (h : build s m root = .ok o) (hx : JudgedAs o.layout root.localName root x below) :
    ∃ before, Judgement s root.descendants { model := m } o.layout x below before := by
  obtain ⟨b, hb, hlayout, -⟩ := build_eq_ok_iff.1 h
  rw [hlayout] at hx ⊢
  obtain ⟨t, -, ⟨hv, -, rfl⟩ | ⟨-, -, fs, b₁, hcollect, rfl⟩⟩ := buildTable_cases hb
  · obtain ⟨d, hd, -⟩ := judgedAs_iff.1 hx
    simp only [isVoid, Bool.and_eq_true, List.isEmpty_iff] at hv
    rw [hv.1.2] at hd
    cases hd
  · rw [Building.extended_layout] at hx ⊢
    obtain ⟨before, hbefore⟩ :=
      collect_judges hn (inner_row hn.distinct (fun _ _ => rfl) _ _) hcollect hx
    exact ⟨before, hbefore.row hn hcollect hx.mem_inner⟩

end Judgement

end FeatureTables.Layout
