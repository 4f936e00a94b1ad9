import FeatureTables.Proofs.Layout.Absorption
import FeatureTables.Proofs.Layout.Coverage
import FeatureTables.Proofs.Layout.Judging

/-!
Building a document a second time, into the model that it has made. The two runs are compared element by
element: rows stay rows, as their tables are there, so that the second run differs only where a part of a
row is judged once more, beside all the tables (`build_alike_iff`). If it does not differ, and no fields of
its rows are tangled, the model stays as it is (`build_again`).
-/

namespace FeatureTables.Layout

open Xml Element

/-! ### Two runs -/

/-- In the model, the element is judged to be a part of a row. -/
def Stays (s : Setting) (m : Model) (below : String) (e : Element) : Prop :=
  ∀ t, typingOf s e = .ok t → isInlined s m below e t = .ok true

/-- The model has the tables of the rows among the elements. -/
def HasTables (m : Model) (l : Layout) (es : List Element) : Prop :=
  ∀ y ∈ es, ∀ target, l.get? y.id = some (.table target) → m.tables.contains target = true

section Runs

variable {s : Setting} {m n : Model} {l l' : Layout} {name below : String} {parent e c x : Element}
  {es : List Element} {t : NodeTyping} {b b₁ b' d d₁ d' : Building} {fs gs : List Field}

theorem Stays.congr (h : Stays s m below e)
    (htables : ∀ table, n.tables.contains table = m.tables.contains table) : Stays s n below e :=
  fun t ht => (isInlined_congr (fun _ table _ => htables table) t).trans (h t ht)

theorem HasTables.congr (h : HasTables m l es) (heq : ∀ y ∈ es, l'.get? y.id = l.get? y.id) :
    HasTables m l' es :=
  fun y hy target htarget => h y hy target ((heq y hy).symm.trans htarget)

/-- What was judged to have a row of its own has one wherever its table is there. -/
theorem not_inlined_of_contains (ht : typingOf s e = .ok t) (h : isInlined s m below e t = .ok false)
    (htable : hasNaturalId e t = false → n.tables.contains below = true) :
    isInlined s n below e t = .ok false := by
  unfold isInlined at h ⊢
  split at h
  · rename_i hrow
    rw [if_pos hrow]
    exact h
  · rename_i hrow
    split at h
    · cases h
    · rename_i hsimple
      simp only [Bool.or_eq_true, not_or, Bool.not_eq_true] at hrow
      have hnone : inlineCost? s n below e = .ok none := by
        rw [inlineCost?_eq, ht]
        simp [bind, Except.bind, pure, Except.pure, htable hrow.1.2]
      simp [hrow, hsimple, hnone, bind, Except.bind, pure, Except.pure]

theorem childFields_alike (hd : c.Distinct)
    (hnone : ∀ y ∈ c.descendants, b.layout.get? y.id = none)
    (hnone' : ∀ y ∈ c.descendants, d.layout.get? y.id = none)
    (hcollect : ∀ {name b b' d d' fs gs}, (∀ y ∈ c.inner, b.layout.get? y.id = none) →
      (∀ y ∈ c.inner, d.layout.get? y.id = none) → Leads (collect s name c) b fs b' →
      Leads (collect s name c) d gs d' → HasTables d.model b'.layout c.inner →
      (∀ x below, JudgedAs b'.layout name c x below → Stays s d.model below x) →
      ∀ y ∈ c.inner, d'.layout.get? y.id = b'.layout.get? y.id)
    (h : Leads (childFields s name parent c fun below => collect s below c) b fs b')
    (h' : Leads (childFields s name parent c fun below => collect s below c) d gs d')
    (htables : HasTables d.model b'.layout c.descendants)
    (hstay : ∀ x below, JudgedBy b'.layout name parent c x below → Stays s d.model below x) :
    ∀ y ∈ c.descendants, d'.layout.get? y.id = b'.layout.get? y.id := by
  have hput : ∀ p, ∀ y ∈ c.descendants,
      (d.placed c p).layout.get? y.id = (b.placed c p).layout.get? y.id := by
    intro p y hy
    rw [Building.placed_layout, Building.placed_layout, NodeMap.get?_put, NodeMap.get?_put,
      hnone y hy, hnone' y hy]
  obtain ⟨t, ht, h⟩ := childFields_judged h
  obtain ⟨t', ht', h'⟩ := childFields_judged h'
  obtain rfl : t = t' := Except.ok.inj (ht.symm.trans ht')
  rcases h with ⟨hg, rfl, -⟩ | ⟨hg, hv, rfl, -⟩ | ⟨hg, hv, -, own, hown, -⟩ |
    ⟨hg, hv, hrow, target, own, b₁, htarget, hown, rfl, -⟩
  · rcases h' with ⟨-, rfl, -⟩ | ⟨hg', -⟩ | ⟨hg', -⟩ | ⟨hg', -⟩
    · exact hput .geometry
    all_goals rw [hg] at hg'; cases hg'
  · rcases h' with ⟨hg', -⟩ | ⟨-, -, rfl, -⟩ | ⟨-, hv', -⟩ | ⟨-, hv', -⟩
    · rw [hg] at hg'; cases hg'
    · exact hput .empty
    all_goals rw [hv] at hv'; cases hv'
  · -- the child stays a part of the row
    have hself := collect_self hd hown
    have hpart := hstay c _ (Or.inl ⟨hself, rfl, rfl⟩) t ht
    rcases h' with ⟨hg', -⟩ | ⟨-, hv', -⟩ | ⟨-, -, -, own', hown', -⟩ | ⟨-, -, hrow', -⟩
    · rw [hg] at hg'; cases hg'
    · rw [hv] at hv'; cases hv'
    · intro y hy
      rcases mem_descendants_iff.1 hy with rfl | hy
      · rw [hself, collect_self hd hown']
      · exact hcollect (inner_put hd hnone .inlined) (inner_put hd hnone' .inlined) hown hown'
          (fun z hz => htables z (mem_descendants_iff.2 (Or.inr hz)))
          (fun x below hx => hstay x below (Or.inr (Or.inl ⟨Or.inl hself, hx⟩))) y hy
    · rw [hpart] at hrow'; cases hrow'
  · -- the child keeps its row, as the table is there
    have hself := collect_self hd hown
    have hcontains : d.model.tables.contains target = true :=
      htables c (mem_descendants_self c) target hself
    have hrow₂ : isInlined s d.model (nextName name (keyStep parent c) false) c t = .ok false :=
      not_inlined_of_contains ht hrow fun hnatural => by rwa [htarget, hnatural] at hcontains
    rcases h' with ⟨hg', -⟩ | ⟨-, hv', -⟩ | ⟨-, -, hpart', -⟩ |
      ⟨-, -, -, target', own', d₁, htarget', hown', rfl, -⟩
    · rw [hg] at hg'; cases hg'
    · rw [hv] at hv'; cases hv'
    · rw [hrow₂] at hpart'; cases hpart'
    · obtain rfl : target = target' := htarget.trans htarget'.symm
      rw [started_eq _ hcontains] at hown'
      rw [Building.extended_layout] at htables hstay ⊢
      rw [Building.extended_layout]
      intro y hy
      rcases mem_descendants_iff.1 hy with rfl | hy
      · rw [hself, collect_self hd hown']
      · exact hcollect (inner_row hd hnone _ _) (inner_put hd hnone' _) hown hown'
          (fun z hz => htables z (mem_descendants_iff.2 (Or.inr hz)))
          (fun x below hx => hstay x below (Or.inr (Or.inr ⟨target, hself, hx⟩))) y hy

/-- Where the second run opens no table, what stays a part of a row goes on doing so. -/
theorem contains_alike (hopens : Opens es d d₁) (htables : HasTables d.model d₁.layout es)
    (table : String) : d₁.model.tables.contains table = d.model.tables.contains table := by
  refine Bool.eq_iff_iff.2 ((hopens table).trans ⟨Or.rec id ?_, Or.inl⟩)
  rintro ⟨y, hy, hplaced⟩
  exact htables y hy table hplaced

theorem collectAmong_alike (hdistinct : ∀ c ∈ es, c.Distinct)
    (hnodup : ((es.flatMap descendants).map (·.id)).Nodup)
    (hnone : ∀ y ∈ es.flatMap descendants, b.layout.get? y.id = none)
    (hnone' : ∀ y ∈ es.flatMap descendants, d.layout.get? y.id = none)
    (hchild : ∀ c ∈ es, ∀ {b b' d d' fs gs}, (∀ y ∈ c.descendants, b.layout.get? y.id = none) →
      (∀ y ∈ c.descendants, d.layout.get? y.id = none) →
      Leads (childFields s name parent c fun below => collect s below c) b fs b' →
      Leads (childFields s name parent c fun below => collect s below c) d gs d' →
      HasTables d.model b'.layout c.descendants →
      (∀ x below, JudgedBy b'.layout name parent c x below → Stays s d.model below x) →
      ∀ y ∈ c.descendants, d'.layout.get? y.id = b'.layout.get? y.id)
    (h : Leads (collectAmong s name parent es) b fs b')
    (h' : Leads (collectAmong s name parent es) d gs d')
    (htables : HasTables d.model b'.layout (es.flatMap descendants))
    (hstay : ∀ c ∈ es, ∀ x below, JudgedBy b'.layout name parent c x below → Stays s d.model below x) :
    ∀ y ∈ es.flatMap descendants, d'.layout.get? y.id = b'.layout.get? y.id := by
  induction es generalizing b d fs gs with
  | nil => simp
  | cons c es ih =>
    obtain ⟨first, b₁, rest, hfirst, hrest, -⟩ := leads_collectAmong_cons.1 h
    obtain ⟨first', d₁, rest', hfirst', hrest', -⟩ := leads_collectAmong_cons.1 h'
    rw [List.flatMap_cons] at hnodup hnone hnone' htables ⊢
    have hsep := collectAmong_separate hdistinct hnodup hfirst hrest
    have hsep' := collectAmong_separate hdistinct hnodup hfirst' hrest'
    have hd := hdistinct c List.mem_cons_self
    have hnone₁ : ∀ y ∈ c.descendants, d.layout.get? y.id = none := fun y hy =>
      hnone' y (List.mem_append_left _ hy)
    have htables₁ : HasTables d.model b₁.layout c.descendants :=
      HasTables.congr (fun y hy => htables y (List.mem_append_left _ hy)) fun y hy =>
        (hsep.same y hy).symm
    have hsame : ∀ y ∈ c.descendants, d₁.layout.get? y.id = b₁.layout.get? y.id :=
      hchild c List.mem_cons_self (fun y hy => hnone y (List.mem_append_left _ hy)) hnone₁ hfirst hfirst'
        htables₁ fun x below hx => hstay c List.mem_cons_self x below
          (hx.congr fun y hy => hsep.same y hy)
    have hcontains : ∀ table, d₁.model.tables.contains table = d.model.tables.contains table :=
      contains_alike (childFields_opens hd hnone₁ (collect_opens hd) hfirst') (htables₁.congr hsame)
    have hrestSame := ih (fun x hx => hdistinct x (List.mem_cons_of_mem _ hx)) hsep.nodup
      (hsep.fresh hnone) (hsep'.fresh hnone') (fun x hx => hchild x (List.mem_cons_of_mem _ hx))
      hrest hrest'
      (fun y hy target htarget =>
        (hcontains target).trans (htables y (List.mem_append_right _ hy) target htarget))
      fun x hx y below hy => (hstay x (List.mem_cons_of_mem _ hx) y below hy).congr hcontains
    intro y hy
    rcases List.mem_append.1 hy with hy | hy
    · rw [hsep.same y hy, hsep'.same y hy, hsame y hy]
    · exact hrestSame y hy

/-- A run in a model that has the tables of the rows of another run places all elements in the same way,
if the parts of rows stay what they are. -/
theorem collect_alike (hd : e.Distinct) (hnone : ∀ y ∈ e.inner, b.layout.get? y.id = none)
    (hnone' : ∀ y ∈ e.inner, d.layout.get? y.id = none) (h : Leads (collect s name e) b fs b')
    (h' : Leads (collect s name e) d gs d') (htables : HasTables d.model b'.layout e.inner)
    (hstay : ∀ x below, JudgedAs b'.layout name e x below → Stays s d.model below x) :
    ∀ y ∈ e.inner, d'.layout.get? y.id = b'.layout.get? y.id := by
  induction e using induct_tree generalizing name b b' d d' fs gs with
  | h e ih =>
    obtain ⟨t, rest, -, hrest, -⟩ := leads_collect.1 h
    obtain ⟨t', rest', -, hrest', -⟩ := leads_collect.1 h'
    exact collectAmong_alike (fun c hc => hd.child hc) hd.nodup_inner hnone hnone'
      (fun c hc {b b' d d' fs gs} hnone hnone' h h' => childFields_alike (hd.child hc) hnone hnone'
        (fun hnone hnone' h h' => ih c hc (hd.child hc) hnone hnone' h h') h h') hrest hrest' htables
      fun c hc x below hx => hstay x below (judgedAs_iff.2 ⟨c, hc, hx⟩)

end Runs

/-! ### Documents -/

/-- Each part of a row may still be one beside all the tables that the document has made. -/
def StaysInlined (s : Setting) (root : Element) (o : Outcome) : Prop :=
  ∀ x below, JudgedAs o.layout root.localName root x below → Stays s o.model below x

/-- The table of the row of an element. -/
def rowTable? (o : Outcome) (e : Element) : Option Table :=
  match o.layout.get? e.id with
  | some (.table name) => o.model.table? name
  | _ => none

/-- Where a field of a row is in conflict with one of its table, a link crosses a value. -/
def RowsUntangled (s : Setting) (root : Element) (o : Outcome) : Prop :=
  ∀ y ∈ root.descendants, ∀ t ∈ rowTable? o y, ∀ f ∈ brought s o.layout y, Untangled t f

instance (s : Setting) (root : Element) (o : Outcome) : Decidable (RowsUntangled s root o) :=
  inferInstanceAs (Decidable (∀ y ∈ root.descendants, ∀ t ∈ rowTable? o y,
    ∀ f ∈ brought s o.layout y, Untangled t f))

section Build

variable {s : Setting} {m : Model} {root : Element} {o o' : Outcome}

theorem build_hasTables (hd : root.Distinct) (h : build s m root = .ok o) :
    HasTables o.model o.layout root.descendants := by
  intro y hy target htarget
  obtain ⟨t, ht, -⟩ := build_equipped hd h y hy target htarget
  exact Option.isSome_iff_exists.2 ⟨t, ht⟩

/-- If all parts of rows stay what they are, the second run places all elements as the first one. -/
theorem build_alike (hd : root.Distinct) (h : build s m root = .ok o)
    (h' : build s o.model root = .ok o') (hstay : StaysInlined s root o) :
    ∀ y ∈ root.descendants, o'.layout.get? y.id = o.layout.get? y.id := by
  have htables := build_hasTables hd h
  generalize hn : o.model = n at *
  obtain ⟨b, hb, hlayout, -⟩ := build_eq_ok_iff.1 h
  obtain ⟨d, hb', hlayout', -⟩ := build_eq_ok_iff.1 h'
  unfold StaysInlined at hstay
  rw [hn] at hstay
  rw [hlayout] at htables hstay ⊢
  rw [hlayout']
  obtain ⟨t, ht, hcases⟩ := buildTable_cases hb
  obtain ⟨t', ht', hcases'⟩ := buildTable_cases hb'
  obtain rfl : t = t' := Except.ok.inj (ht.symm.trans ht')
  rcases hcases with ⟨hv, -, rfl⟩ | ⟨hv, -, fs, b₁, hcollect, rfl⟩
  · rcases hcases' with ⟨-, -, rfl⟩ | ⟨hv', -⟩
    · exact fun y _ => rfl
    · rw [hv] at hv'; cases hv'
  · rcases hcases' with ⟨hv', -⟩ | ⟨-, -, gs, d₁, hcollect', rfl⟩
    · rw [hv] at hv'; cases hv'
    · rw [Building.extended_layout] at htables hstay ⊢
      rw [Building.extended_layout]
      have hself := collect_self hd hcollect
      rw [started_eq _ (htables root (mem_descendants_self root) _ hself)] at hcollect'
      intro y hy
      rcases mem_descendants_iff.1 hy with rfl | hy
      · rw [hself, collect_self hd hcollect']
      · exact collect_alike hd (inner_row hd (fun _ _ => rfl) _ _) (inner_put hd (fun _ _ => rfl) _)
          hcollect hcollect' (fun z hz => htables z (mem_descendants_iff.2 (Or.inr hz))) hstay y hy

/-- The second run places all elements as the first one exactly if each part of a row may still be one
beside all the tables. -/
theorem build_alike_iff (hn : root.Numbered) (h : build s m root = .ok o)
    (h' : build s o.model root = .ok o') :
    (∀ y ∈ root.descendants, o'.layout.get? y.id = o.layout.get? y.id) ↔ StaysInlined s root o := by
  refine ⟨fun hsame x below hx t ht => ?_, build_alike hn.distinct h h'⟩
  obtain ⟨before, hbefore⟩ := build_judges hn h'
    (hx.congr fun y hy => hsame y (mem_descendants_iff.2 (Or.inr hy)))
  obtain ⟨t', ht', hinlined⟩ := hbefore.inlined
  obtain rfl : t = t' := Except.ok.inj (ht.symm.trans ht')
  -- the second run opens no table, so that the model is as good as the one at the time
  refine (isInlined_congr (fun _ table _ => ?_) t).trans hinlined
  refine Bool.eq_iff_iff.2 (Iff.trans ?_ (hbefore.tables table).symm)
  refine ⟨Or.inl, Or.rec id ?_⟩
  rintro ⟨z, hz, -, hplaced⟩
  exact build_hasTables hn.distinct h z hz table ((hsame z hz).symm.trans hplaced)

/-- Where all elements are placed once more as before, and no fields are tangled, the tables stay. -/
theorem build_stays (hd : root.Distinct) (h : build s {} root = .ok o)
    (h' : build s o.model root = .ok o')
    (hsame : ∀ y ∈ root.descendants, o'.layout.get? y.id = o.layout.get? y.id)
    (huntangled : RowsUntangled s root o) : o'.model.tables = o.model.tables := by
  obtain ⟨hfitting, hreturned⟩ := build_fitting fitting_empty h
  have hreconciled := build_reconciled (fun _ _ ht => by cases ht) h
  have habsorbed : ∀ y ∈ root.descendants, Absorbed s o.model o.layout y := by
    intro y hy name hname
    obtain ⟨t, ht, hcovers⟩ := build_equipped hd h y hy name hname
    have hrow : rowTable? o y = some t := by rw [rowTable?, hname, ← ht]
    exact ⟨t, ht, fun f hf => ⟨hcovers f (mem_brought_iff.1 hf), huntangled y hy t hrow f hf⟩⟩
  have hmodel := build_absorbed hd hfitting hreturned hreconciled h' fun y hy =>
    (habsorbed y hy).congr fun z hz => hsame z (mem_descendants_trans hz hy)
  rw [hmodel]

/-- A document can be built again into the model that it has made, and its tables only grow by that. All
elements are placed as before exactly if each part of a row may still be one beside all the tables; and
then these stay as they are, unless fields of rows are tangled. -/
theorem build_again {c : Schema.Catalog} (hn : root.Numbered) (ht : Typing.ofRoot c root = .ok s.typing)
    (h : build s {} root = .ok o) : ∃ o', build s o.model root = .ok o' ∧ o.model.Grows o'.model ∧
      ((∀ y ∈ root.descendants, o'.layout.get? y.id = o.layout.get? y.id) ↔ StaysInlined s root o) ∧
      (StaysInlined s root o → RowsUntangled s root o → o'.model.tables = o.model.tables) := by
  obtain ⟨o', h'⟩ := (build_ok_iff s.options o.model hn.distinct ht).2
    ((build_ok_iff s.options {} hn.distinct ht).1 ⟨o, h⟩)
  exact ⟨o', h', build_grows h', build_alike_iff hn h h', fun hstay =>
    build_stays hn.distinct h h' (build_alike hn.distinct h h' hstay)⟩

end Build

/-- Repeated elements with a part that may have any attributes, and repeated elements of its own. -/
def partSchema : String :=
  "<xs:schema xmlns:xs='http://www.w3.org/2001/XMLSchema'><xs:element name='r'><xs:complexType>" ++
  "<xs:sequence><xs:element name='p' maxOccurs='unbounded'><xs:complexType><xs:sequence>" ++
  "<xs:element name='a'><xs:complexType><xs:sequence>" ++
  "<xs:element name='b' type='xs:string' minOccurs='0' maxOccurs='unbounded'/></xs:sequence>" ++
  "<xs:anyAttribute/></xs:complexType></xs:element></xs:sequence></xs:complexType></xs:element>" ++
  "</xs:sequence></xs:complexType></xs:element></xs:schema>"

/-- A link crosses the values of a part that has a row of its own elsewhere, with an identifier, and the
tables stay as they are. -/
theorem crossed_stays : ∃ d s o o',
    built? partSchema "<r><p><a id='k' x='1'/></p><p><a x='2'/></p></r>" = some (d, s, o) ∧
    (o.model.table? "r_p").map (·.fields.keys) = some ["id", "a", "a/@x", "backlink(r)"] ∧
    build s o.model d.root = .ok o' ∧ StaysInlined s d.root o ∧ RowsUntangled s d.root o ∧
    o'.model.tables = o.model.tables := by
  have heval : (built? partSchema "<r><p><a id='k' x='1'/></p><p><a x='2'/></p></r>").map (fun b =>
      ((b.2.2.model.table? "r_p").map (·.fields.keys), decide (RowsUntangled b.2.1 b.1.root b.2.2),
        (build b.2.1 b.2.2.model b.1.root).toOption.map fun o' =>
          b.1.root.descendants.all fun y => o'.layout.get? y.id == b.2.2.layout.get? y.id)) =
      some (some ["id", "a", "a/@x", "backlink(r)"], true, some true) := by
    decide +kernel
  obtain ⟨⟨d, s, o⟩, hb, heval⟩ := Option.map_eq_some_iff.1 heval
  obtain ⟨hkeys, heval⟩ := Prod.mk.inj heval
  obtain ⟨huntangled, heval⟩ := Prod.mk.inj heval
  obtain ⟨o', ho', hsame⟩ := Option.map_eq_some_iff.1 heval
  obtain ⟨hd, ho⟩ := built?_eq_some hb
  obtain ⟨c, hc⟩ := built?_typed hb
  obtain ⟨o₂, ho₂, -, halike, hstays⟩ := build_again (Document.numbered_parse hd) hc ho
  obtain rfl : o' = o₂ := Except.ok.inj ((toOption_eq_some_iff.1 ho').symm.trans ho₂)
  have hstay := halike.1 fun y hy => eq_of_beq (List.all_eq_true.1 hsame y hy)
  exact ⟨d, s, o, o', hb, hkeys, ho₂, hstay, of_decide_eq_true huntangled,
    hstays hstay (of_decide_eq_true huntangled)⟩

/-- A part that was judged before its table was there has a row in it the second time, and the table gets
a column that it did not have. A link that has been followed by one below it is in conflict with it the
second time only, and rows may lack it from then on. -/
theorem tables_changed :
    (∃ d s o o', built? partSchema "<r><p><a z='1'/></p><p><a x='1' y='2'/></p></r>"
        { mergeMaxColumns? := some 1 } = some (d, s, o) ∧
      build s o.model d.root = .ok o' ∧
      (o.model.table? "r_p_a").map (·.fields.keys) = some ["id", "@x", "@y"] ∧
      (o'.model.table? "r_p_a").map (·.fields.keys) = some ["id", "@x", "@y", "@z"] ∧
      o'.model.tables ≠ o.model.tables) ∧
    ∃ d s o o', built? partSchema "<r><p><a id='k'/></p><p><a><b>1</b></a></p></r>" = some (d, s, o) ∧
      build s o.model d.root = .ok o' ∧
      ((o.model.table? "r_p").bind (·.fields.get? "a")).map Field.isOptional = some false ∧
      ((o'.model.table? "r_p").bind (·.fields.get? "a")).map Field.isOptional = some true ∧
      o'.model.tables ≠ o.model.tables := by
  have hjudged : (built? partSchema "<r><p><a z='1'/></p><p><a x='1' y='2'/></p></r>"
      { mergeMaxColumns? := some 1 }).map (fun b =>
        ((b.2.2.model.table? "r_p_a").map (·.fields.keys),
          (build b.2.1 b.2.2.model b.1.root).toOption.map fun o' =>
            (o'.model.table? "r_p_a").map (·.fields.keys))) =
      some (some ["id", "@x", "@y"], some (some ["id", "@x", "@y", "@z"])) := by
    decide +kernel
  have htangled : (built? partSchema "<r><p><a id='k'/></p><p><a><b>1</b></a></p></r>").map (fun b =>
        (((b.2.2.model.table? "r_p").bind (·.fields.get? "a")).map Field.isOptional,
          (build b.2.1 b.2.2.model b.1.root).toOption.map fun o' =>
            ((o'.model.table? "r_p").bind (·.fields.get? "a")).map Field.isOptional)) =
      some (some false, some (some true)) := by
    decide +kernel
  refine ⟨?_, ?_⟩
  · obtain ⟨⟨d, s, o⟩, hb, heval⟩ := Option.map_eq_some_iff.1 hjudged
    obtain ⟨hkeys, heval⟩ := Prod.mk.inj heval
    obtain ⟨o', ho', hkeys'⟩ := Option.map_eq_some_iff.1 heval
    refine ⟨d, s, o, o', hb, toOption_eq_some_iff.1 ho', hkeys, hkeys', fun hsame => ?_⟩
    unfold Model.table? at hkeys hkeys'
    rw [hsame, hkeys] at hkeys'
    exact absurd hkeys' (by decide)
  · obtain ⟨⟨d, s, o⟩, hb, heval⟩ := Option.map_eq_some_iff.1 htangled
    obtain ⟨hoptional, heval⟩ := Prod.mk.inj heval
    obtain ⟨o', ho', hoptional'⟩ := Option.map_eq_some_iff.1 heval
    refine ⟨d, s, o, o', hb, toOption_eq_some_iff.1 ho', hoptional, hoptional', fun hsame => ?_⟩
    unfold Model.table? at hoptional hoptional'
    rw [hsame, hoptional] at hoptional'
    exact absurd hoptional' (by decide)

end FeatureTables.Layout
