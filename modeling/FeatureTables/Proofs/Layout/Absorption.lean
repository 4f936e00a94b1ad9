import FeatureTables.Proofs.Layout.Closure
import FeatureTables.Proofs.Layout.Provenance

/-!
When a table has nothing to learn from a field of a document. Where a link crosses a value below it, one
row having a child for a part and another one for a row of its own, rows may lack either; adding fields
sees to that, whatever their order (`Table.Reconciled`). So a field that the table covers, and that is in
conflict with others only in this way, changes nothing when it is added again (`addField_absorbed`).
-/

namespace FeatureTables

namespace Field

def isLink : Field → Bool
  | link _ => true
  | _ => false

/-- The field has a value of the row itself. -/
def isValue : Field → Bool
  | column _ | geometry _ => true
  | link _ | backLink _ => false

section Kinds

variable {f g : Field}

theorem Grows.isLink (h : f.Grows g) : g.isLink = f.isLink := by
  cases h <;> rfl

theorem Grows.isValue (h : f.Grows g) : g.isValue = f.isValue := by
  cases h <;> rfl

theorem isLink_eq_false (h : f.isValue = true) : f.isLink = false := by
  cases f with
  | link l => cases h
  | _ => rfl

end Kinds

end Field

namespace Table

/-- Where a link of the table crosses a value below it, rows may lack either. -/
def Reconciled (t : Table) : Prop :=
  ∀ key below f g, t.fields.get? key = some f → t.fields.get? below = some g →
    Text.startsWith below (key ++ "/") = true → f.isLink = true → g.isValue = true →
    f.isOptional = true ∧ g.isOptional = true

theorem reconciled_create (name : String) (natural : Bool) : (create name natural).Reconciled := by
  intro key below f g hf hg hbelow hlink hvalue
  rw [get?_create] at hf
  split at hf
  · obtain rfl := Option.some.inj hf
    cases hlink
  · cases hf

theorem Reconciled.addField_backLink {t : Table} (h : t.Reconciled) (b : BackLink) :
    (t.addField (.backLink b)).Reconciled := by
  intro key below f g hf hg hbelow hlink hvalue
  rcases addField_origin hf with ⟨f₀, hf₀, hff⟩ | ⟨-, hff⟩
  · rcases addField_origin hg with ⟨g₀, hg₀, hgg⟩ | ⟨-, hgg⟩
    · obtain ⟨hf, hg⟩ :=
        h key below f₀ g₀ hf₀ hg₀ hbelow (hff.isLink ▸ hlink) (hgg.isValue ▸ hvalue)
      exact ⟨hff.isOptional hf, hgg.isOptional hg⟩
    · cases hgg
      cases hvalue
  · cases hff
    cases hlink

end Table

namespace Layout

open Text

/-! ### Fields in conflict -/

section Conflicts

variable {t : Table} {f g : Field} {key below : String}

theorem mem_waysTo_iff {run s : List Char} : key ∈ waysTo run s ↔
    ∃ a, a ++ ['/'] <+: s ∧ key = String.ofList (run.reverse ++ a) := by
  induction s generalizing run with
  | nil => simp [waysTo]
  | cons c s ih =>
    -- the way ends here, or goes on with the character
    have hsplit : (∃ a, a ++ ['/'] <+: c :: s ∧ key = String.ofList (run.reverse ++ a)) ↔
        c = '/' ∧ key = String.ofList run.reverse ∨
          ∃ a, a ++ ['/'] <+: s ∧ key = String.ofList ((c :: run).reverse ++ a) := by
      constructor
      · rintro ⟨_ | ⟨d, a⟩, ha, rfl⟩
        · obtain ⟨rfl, -⟩ := List.cons_prefix_cons.1 ha
          exact Or.inl ⟨rfl, by simp⟩
        · obtain ⟨rfl, hrest⟩ := List.cons_prefix_cons.1 ha
          exact Or.inr ⟨a, hrest, by simp⟩
      · rintro (⟨rfl, rfl⟩ | ⟨a, ha, rfl⟩)
        · exact ⟨[], by simp, by simp⟩
        · exact ⟨c :: a, List.cons_prefix_cons.2 ⟨rfl, ha⟩, by simp⟩
    rw [hsplit, ← ih, waysTo]
    split <;> simp [*]

theorem mem_waysTo_nil_iff : key ∈ waysTo [] below.toList ↔ startsWith below (key ++ "/") = true := by
  rw [mem_waysTo_iff, startsWith_iff]
  constructor
  · rintro ⟨a, ha, rfl⟩
    simpa using ha
  · exact fun h => ⟨key.toList, by simpa using h, by simp⟩

theorem isLinkAt_eq (t : Table) (key : String) : isLinkAt t key = (t.fields.get? key).any Field.isLink := by
  unfold isLinkAt
  cases t.fields.get? key with
  | none => rfl
  | some f => cases f <;> rfl

theorem mem_conflicts_iff : key ∈ conflicts t f ↔
    if f.isLink then key ∈ t.fields.keys ∧ startsWith key (f.key ++ "/") = true
    else isLinkAt t key = true ∧ startsWith f.key (key ++ "/") = true := by
  cases f with
  | link l => simp [conflicts, Field.isLink, Field.key]
  | _ => simp [conflicts, Field.isLink, mem_waysTo_nil_iff, and_comm]

/-- A link that crosses a value is in conflict with it, and it with the link. -/
theorem mem_conflicts_of_link (hf : f.isLink = true) (hg : t.fields.get? key = some g)
    (hbelow : startsWith key (f.key ++ "/") = true) : key ∈ conflicts t f := by
  rw [mem_conflicts_iff, if_pos hf]
  exact ⟨OrderedMap.mem_keys_of_get? hg, hbelow⟩

theorem mem_conflicts_of_value (hf : f.isValue = true) (hg : t.fields.get? key = some g)
    (hlink : g.isLink = true) (hbelow : startsWith f.key (key ++ "/") = true) :
    key ∈ conflicts t f := by
  rw [mem_conflicts_iff, if_neg (by simp [Field.isLink_eq_false hf]), isLinkAt_eq, hg]
  exact ⟨hlink, hbelow⟩

theorem get?_relaxing (fields : OrderedMap String Field) (keys : List String) (key : String) :
    (keys.foldl (fun fields key => fields.modify key Field.relaxed) fields).get? key =
      if key ∈ keys then (fields.get? key).map Field.relaxed else fields.get? key := by
  have hrelaxed : ∀ f : Field, f.relaxed.relaxed = f.relaxed := fun f =>
    Field.relaxed_of_isOptional (Field.isOptional_relaxed f)
  induction keys generalizing fields with
  | nil => simp
  | cons k keys ih =>
    rw [List.foldl_cons, ih, OrderedMap.get?_modify]
    by_cases hkey : key = k
    · cases fields.get? key <;> simp [hkey, hrelaxed]
    · simp [hkey]

/-- Where the fields of a table come from when a field of a document was added, and which rows may
lack. -/
theorem addField_lookup (h : (addField t f).fields.get? key = some g) :
    (∃ g₀, t.fields.get? key = some g₀ ∧ g₀.Grows g ∧
        (key ∈ conflicts t f → g.isOptional = true)) ∨
      key = f.key ∧ f.Grows g ∧ (conflicts t f ≠ [] → g.isOptional = true) := by
  unfold addField at h
  cases hkeys : conflicts t f with
  | nil =>
    rw [hkeys] at h
    rcases Table.addField_origin h with ⟨g₀, hg₀, hgg⟩ | ⟨hkey, hgg⟩
    · exact Or.inl ⟨g₀, hg₀, hgg, by simp⟩
    · exact Or.inr ⟨hkey.symm, hgg, by simp⟩
  | cons k keys =>
    rw [hkeys] at h
    rcases Table.addField_origin h with ⟨g₁, hg₁, hgg⟩ | ⟨hkey, hgg⟩
    · change (List.foldl _ t.fields (k :: keys)).get? key = some g₁ at hg₁
      rw [get?_relaxing] at hg₁
      split at hg₁
      · obtain ⟨g₀, hg₀, rfl⟩ := Option.map_eq_some_iff.1 hg₁
        exact Or.inl ⟨g₀, hg₀, (Field.grows_relaxed g₀).trans hgg,
          fun _ => hgg.isOptional (Field.isOptional_relaxed g₀)⟩
      · rename_i hnot
        exact Or.inl ⟨g₁, hg₁, hgg, fun hmem => absurd hmem hnot⟩
    · exact Or.inr ⟨Field.key_relaxed f ▸ hkey.symm, (Field.grows_relaxed f).trans hgg,
        fun _ => hgg.isOptional (Field.isOptional_relaxed f)⟩

theorem not_startsWith_self (key : String) : startsWith key (key ++ "/") = false := by
  rw [← Bool.not_eq_true, startsWith_iff]
  intro h
  have := h.length_le
  simp only [String.toList_append, List.length_append] at this
  exact absurd this (by simp)

end Conflicts

end Layout

namespace Table

/-- Adding a field of a document keeps links and the values that they cross reconciled. -/
theorem Reconciled.addField {t : Table} (h : t.Reconciled) (f : Field) :
    (Layout.addField t f).Reconciled := by
  intro key below f' g' hf' hg' hbelow hlink hvalue
  rcases Layout.addField_lookup hf' with ⟨f₀, hf₀, hff, hopt⟩ | ⟨rfl, hff, hopt⟩
  · rcases Layout.addField_lookup hg' with ⟨g₀, hg₀, hgg, hopt'⟩ | ⟨rfl, hgg, hopt'⟩
    · obtain ⟨hf, hg⟩ :=
        h key below f₀ g₀ hf₀ hg₀ hbelow (hff.isLink ▸ hlink) (hgg.isValue ▸ hvalue)
      exact ⟨hff.isOptional hf, hgg.isOptional hg⟩
    · have hmem := Layout.mem_conflicts_of_value (hgg.isValue ▸ hvalue) hf₀ (hff.isLink ▸ hlink) hbelow
      exact ⟨hopt hmem, hopt' (List.ne_nil_of_mem hmem)⟩
  · rcases Layout.addField_lookup hg' with ⟨g₀, hg₀, hgg, hopt'⟩ | ⟨rfl, hgg, hopt'⟩
    · have hmem := Layout.mem_conflicts_of_link (hff.isLink ▸ hlink) hg₀ hbelow
      exact ⟨hopt (List.ne_nil_of_mem hmem), hopt' hmem⟩
    · rw [Layout.not_startsWith_self] at hbelow
      cases hbelow

theorem Reconciled.extend {t : Table} (h : t.Reconciled) (fs : List Field) :
    (fs.foldl Layout.addField t).Reconciled := by
  induction fs generalizing t with
  | nil => exact h
  | cons f fs ih => exact ih (h.addField f)

end Table

namespace Layout

open Text Xml Element

/-! ### Fields that change nothing -/

/-- The field of the table at `key` is a link, and the one at `below` a value. -/
def crosses (t : Table) (key below : String) : Bool :=
  (t.fields.get? key).any Field.isLink && (t.fields.get? below).any Field.isValue

/-- Where the field is in conflict with one of the table, a link crosses a value. -/
def Untangled (t : Table) (f : Field) : Prop :=
  ∀ key ∈ conflicts t f, (if f.isLink then crosses t f.key key else crosses t key f.key) = true

instance (t : Table) (f : Field) : Decidable (Untangled t f) :=
  inferInstanceAs (Decidable (∀ key ∈ conflicts t f, _))

section Absorption

variable {t : Table} {f : Field}

theorem untangled_untyped : Untangled t f.untyped ↔ Untangled t f := by
  cases f <;> rfl

theorem relaxing_eq {fields : OrderedMap String Field} {keys : List String} (hn : fields.keys.Nodup)
    (h : ∀ key ∈ keys, ∀ g, fields.get? key = some g → g.isOptional = true) :
    keys.foldl (fun fields key => fields.modify key Field.relaxed) fields = fields := by
  induction keys with
  | nil => rfl
  | cons key keys ih =>
    have hkey : fields.modify key Field.relaxed = fields := OrderedMap.modify_of_get? hn fun g hg =>
      Field.relaxed_of_isOptional (h key List.mem_cons_self g hg)
    rw [List.foldl_cons, hkey]
    exact ih fun k hk => h k (List.mem_cons_of_mem _ hk)

/-- A table that has been told a field, and that rows may lack it and those in conflict with it, learns
nothing when the field is added. -/
theorem addField_eq (hn : t.fields.keys.Nodup) (hc : t.Covers f)
    (hr : conflicts t f ≠ [] → t.Covers f.relaxed)
    (h : ∀ key ∈ conflicts t f, ∀ g, t.fields.get? key = some g → g.isOptional = true) :
    addField t f = t := by
  unfold addField
  cases hkeys : conflicts t f with
  | nil => exact hc.addField_eq
  | cons key keys =>
    rw [hkeys] at hr h
    dsimp only
    rw [relaxing_eq hn h]
    exact (hr (List.cons_ne_nil _ _)).addField_eq

/-- A table that is reconciled learns nothing from a field that it covers, unless this one is tangled with
others. -/
theorem addField_absorbed (hn : t.fields.keys.Nodup) (hr : t.Reconciled) (hc : t.Covers f)
    (hu : Untangled t f) : addField t f = t := by
  -- rows may lack the two fields of a conflict
  have hoptional : ∀ key ∈ conflicts t f, (∃ g, t.fields.get? key = some g ∧ g.isOptional = true) ∧
      ∃ g, t.fields.get? f.key = some g ∧ g.isOptional = true := by
    intro key hkey
    have hcrosses := hu key hkey
    rw [mem_conflicts_iff] at hkey
    unfold crosses at hcrosses
    split at hkey
    · rename_i hlink
      rw [if_pos hlink, Bool.and_eq_true, Option.any_eq_true, Option.any_eq_true] at hcrosses
      obtain ⟨⟨p, hp, hplink⟩, q, hq, hqvalue⟩ := hcrosses
      obtain ⟨hpo, hqo⟩ := hr _ _ p q hp hq hkey.2 hplink hqvalue
      exact ⟨⟨q, hq, hqo⟩, p, hp, hpo⟩
    · rename_i hlink
      rw [if_neg hlink, Bool.and_eq_true, Option.any_eq_true, Option.any_eq_true] at hcrosses
      obtain ⟨⟨p, hp, hplink⟩, q, hq, hqvalue⟩ := hcrosses
      obtain ⟨hpo, hqo⟩ := hr _ _ p q hp hq hkey.2 hplink hqvalue
      exact ⟨⟨p, hp, hpo⟩, q, hq, hqo⟩
  refine addField_eq hn hc (fun hne => ?_) fun key hkey g hg => ?_
  · obtain ⟨key, hkey⟩ := List.exists_mem_of_ne_nil _ hne
    obtain ⟨-, g, hg, hgo⟩ := hoptional key hkey
    rw [Table.Covers, Field.key_relaxed]
    refine hc.imp id ?_
    rintro ⟨g', hg', habsorbs⟩
    obtain rfl := Option.some.inj (hg.symm.trans hg')
    exact ⟨g, hg, habsorbs.relaxed_right hgo⟩
  · obtain ⟨⟨g', hg', hgo⟩, -⟩ := hoptional key hkey
    obtain rfl := Option.some.inj (hg.symm.trans hg')
    exact hgo

theorem foldl_absorbed {fs : List Field} (hn : t.fields.keys.Nodup) (hr : t.Reconciled)
    (h : ∀ f ∈ fs, t.Covers f ∧ Untangled t f) : fs.foldl addField t = t := by
  induction fs with
  | nil => rfl
  | cons f fs ih =>
    obtain ⟨hf, hfs⟩ := List.forall_mem_cons.1 h
    rw [List.foldl_cons, addField_absorbed hn hr hf.1 hf.2]
    exact ih hfs

end Absorption

/-! ### Rows that change nothing -/

/-- The tables have each link and the values that it crosses reconciled. -/
def AllReconciled (m : Model) : Prop := ∀ name t, m.table? name = some t → t.Reconciled

/-- The table of a row has nothing to learn from the row. -/
def Absorbed (s : Setting) (m : Model) (l : Layout) (e : Element) : Prop :=
  ∀ name, l.get? e.id = some (.table name) → ∃ t, m.table? name = some t ∧
    ∀ f ∈ brought s l e, t.Covers f ∧ Untangled t f

section Absorbed

variable {s : Setting} {m : Model} {l l' : Layout} {name : String} {parent e c : Element}
  {b b₁ b' : Building} {fs : List Field}

theorem Absorbed.congr (h : Absorbed s m l e)
    (heq : ∀ y ∈ e.descendants, l'.get? y.id = l.get? y.id) : Absorbed s m l' e := by
  unfold Absorbed
  rw [heq e (mem_descendants_self e),
    brought_congr fun y hy => heq y (mem_descendants_iff.2 (Or.inr hy))]
  exact h

theorem started_eq (natural : Bool) (h : b.model.tables.contains name = true) :
    b.started name natural = b := if_pos h

theorem extended_absorbed {t : Table} (hm : b.model.Sound) (hr : AllReconciled b.model)
    (ht : b.model.table? name = some t) (h : ∀ f ∈ fs, t.Covers f ∧ Untangled t f) :
    (b.extended name fs).model = b.model := by
  have hmodify : b.model.tables.modify name (fs.foldl addField) = b.model.tables := by
    refine OrderedMap.modify_of_get? hm.nodup fun u hu => ?_
    obtain rfl := Option.some.inj (ht.symm.trans hu)
    exact foldl_absorbed (hm.tables _ t ht).nodup (hr _ t ht) h
  rw [Building.extended, hmodify]

/-- A row whose table has nothing to learn leaves the model alone. -/
theorem row_absorbed {target : String} {natural : Bool} {own : List Field} (hd : c.Distinct)
    (hm : b.model.Sound) (hr : AllReconciled b.model)
    (hinner : ∀ {b}, b.model.Sound → AllReconciled b.model →
      Leads (collect s target c) b own b₁ → (∀ y ∈ c.inner, Absorbed s b.model b₁.layout y) →
      b₁.model = b.model)
    (hown : Leads (collect s target c) ((b.started target natural).placed c (.table target)) own b₁)
    (h : ∀ y ∈ c.descendants, Absorbed s b.model b₁.layout y) :
    (b₁.extended target own).model = b.model := by
  obtain ⟨t, ht, hall⟩ := h c (mem_descendants_self c) target (collect_self hd hown)
  rw [started_eq natural (Option.isSome_iff_exists.2 ⟨t, ht⟩)] at hown
  have hmodel : b₁.model = b.model := hinner (b := b.placed c (.table target)) hm hr hown fun y hy =>
    h y (mem_descendants_iff.2 (Or.inr hy))
  rw [← hmodel] at hm hr ht
  rw [← hmodel]
  refine extended_absorbed hm hr ht fun f hf => ?_
  have hf : f.untyped ∈ brought s b₁.layout c := by
    rw [← collect_brought hd hown]
    exact List.mem_map_of_mem hf
  exact ⟨Table.covers_untyped.1 (hall _ hf).1, untangled_untyped.1 (hall _ hf).2⟩

theorem childFields_absorbed (hd : c.Distinct) (hm : b.model.Sound) (hr : AllReconciled b.model)
    (hcollect : ∀ {name b fs b'}, b.model.Sound → AllReconciled b.model →
      Leads (collect s name c) b fs b' → (∀ y ∈ c.inner, Absorbed s b.model b'.layout y) →
      b'.model = b.model)
    (h : Leads (childFields s name parent c fun below => collect s below c) b fs b')
    (habsorbed : ∀ y ∈ c.descendants, Absorbed s b.model b'.layout y) : b'.model = b.model := by
  obtain ⟨t, -, h⟩ := childFields_cases h
  rcases h with ⟨rfl, -⟩ | ⟨-, rfl, -⟩ | ⟨-, below, own, hown, -⟩ |
    ⟨-, target, natural, own, b₁, hown, rfl, -⟩
  · rfl
  · rfl
  · exact hcollect (b := b.placed c .inlined) hm hr hown fun y hy =>
      habsorbed y (mem_descendants_iff.2 (Or.inr hy))
  · exact row_absorbed hd hm hr hcollect hown habsorbed

theorem collectAmong_absorbed {es : List Element} (hdistinct : ∀ c ∈ es, c.Distinct)
    (hnodup : ((es.flatMap descendants).map (·.id)).Nodup) (hm : b.model.Sound)
    (hr : AllReconciled b.model)
    (hchild : ∀ c ∈ es, ∀ {b fs b'}, b.model.Sound → AllReconciled b.model →
      Leads (childFields s name parent c fun below => collect s below c) b fs b' →
      (∀ y ∈ c.descendants, Absorbed s b.model b'.layout y) → b'.model = b.model)
    (h : Leads (collectAmong s name parent es) b fs b')
    (habsorbed : ∀ y ∈ es.flatMap descendants, Absorbed s b.model b'.layout y) :
    b'.model = b.model := by
  induction es generalizing b fs with
  | nil =>
    obtain ⟨-, rfl⟩ := leads_collectAmong_nil.1 h
    rfl
  | cons c es ih =>
    obtain ⟨first, b₁, rest, hfirst, hrest, -⟩ := leads_collectAmong_cons.1 h
    rw [List.flatMap_cons] at hnodup habsorbed
    have hsep := collectAmong_separate hdistinct hnodup hfirst hrest
    have hmodel : b₁.model = b.model := hchild c List.mem_cons_self hm hr hfirst fun y hy =>
      (habsorbed y (List.mem_append_left _ hy)).congr fun z hz =>
        (hsep.same z (mem_descendants_trans hz hy)).symm
    rw [← hmodel] at hm hr habsorbed ⊢
    exact ih (fun d hd => hdistinct d (List.mem_cons_of_mem _ hd)) hsep.nodup hm hr
      (fun d hd => hchild d (List.mem_cons_of_mem _ hd)) hrest
      fun y hy => habsorbed y (List.mem_append_right _ hy)

/-- Collecting leaves the model alone if the tables have nothing to learn from the rows. -/
theorem collect_absorbed (hd : e.Distinct) (hm : b.model.Sound) (hr : AllReconciled b.model)
    (h : Leads (collect s name e) b fs b')
    (habsorbed : ∀ y ∈ e.inner, Absorbed s b.model b'.layout y) : b'.model = b.model := by
  induction e using induct_tree generalizing name b fs b' with
  | h e ih =>
    obtain ⟨t, rest, -, hrest, -⟩ := leads_collect.1 h
    exact collectAmong_absorbed (fun c hc => hd.child hc) hd.nodup_inner hm hr
      (fun c hc {b fs b'} hm hr h => childFields_absorbed (hd.child hc) hm hr
        (fun hm hr h => ih c hc (hd.child hc) hm hr h) h) hrest habsorbed

end Absorbed

/-! ### Documents -/

section Build

variable {s : Setting} {m : Model} {root : Element} {o : Outcome}

theorem kept_reconciled (s : Setting) :
    Kept s fun b b' => AllReconciled b.model → AllReconciled b'.model where
  refl b h := h
  trans h h' hb := h' (h hb)
  placed b e p t _ _ h := h
  started b name natural h := by
    rcases b.started_cases name natural with ⟨-, heq⟩ | ⟨hnone, heq⟩ <;> rw [heq]
    · exact h
    · intro key u hu
      rcases table?_addTable hnone hu with ⟨-, rfl⟩ | hu
      · exact Table.reconciled_create _ _
      · exact h key u hu
  extended b name fields h := by
    intro key u hu
    rcases table?_modify hu with ⟨-, hu⟩ | ⟨rfl, t, ht, rfl⟩
    · exact h key u hu
    · exact (h _ t ht).extend fields

/-- Building a document keeps all tables reconciled. -/
theorem build_reconciled (hm : AllReconciled m) (h : build s m root = .ok o) : AllReconciled o.model := by
  obtain ⟨b, hb, -, hmodel⟩ := build_eq_ok_iff.1 h
  have hreconciled : AllReconciled b.model :=
    (kept_reconciled s).buildTable (fun _ _ _ _ _ h => h) hb hm
  have hn : AllReconciled { b.model with rootTable? := b.model.rootTable?.or o.rootTable? } := hreconciled
  rw [hmodel]
  exact tables_settling hn fun _ _ _ _ ht => ht.addField_backLink _

/-- A link back that is there, or whose key is taken, is not put again. -/
theorem settle_eq (hm : m.Sound) {o : Model.Owed} (h : Paid m o) : m.settle o = m := by
  have hmodify : (m.tables.modify o.target fun t => t.putBack ⟨o.source, o.type⟩) = m.tables :=
    OrderedMap.modify_of_get? hm.nodup fun t ht => Table.Rests.putBack_eq (Or.inr (Or.inr (h t ht)))
  exact congrArg (fun tables => { m with tables }) hmodify

/-- Where all links back are put, none is put again. -/
theorem addBackLinks_eq (hm : Fitting m) (hreturned : Returned m) : m.addBackLinks = m := by
  have hpaid : ∀ o ∈ m.owed, Paid m o := by
    intro o ho
    obtain ⟨name, t, key, l, ht, hl, hmany, rfl⟩ := (mem_owed_iff hm.sound).1 ho
    exact hreturned name t key l ht hl hmany
  unfold Model.addBackLinks
  generalize m.owed = owed at hpaid
  induction owed with
  | nil => rfl
  | cons o owed ih =>
    rw [List.foldl_cons, settle_eq hm.sound (hpaid o List.mem_cons_self)]
    exact ih fun p hp => hpaid p (List.mem_cons_of_mem _ hp)

/-- A document leaves the tables alone if they have nothing to learn from its rows. -/
theorem build_absorbed (hd : root.Distinct) (hm : Fitting m) (hreturned : Returned m)
    (hr : AllReconciled m) (h : build s m root = .ok o)
    (habsorbed : ∀ y ∈ root.descendants, Absorbed s m o.layout y) :
    o.model = { m with rootTable? := m.rootTable?.or o.rootTable? } := by
  obtain ⟨b, hb, hlayout, hmodel⟩ := build_eq_ok_iff.1 h
  rw [hlayout] at habsorbed
  have hsame : b.model = m := by
    obtain ⟨t, -, ⟨-, -, rfl⟩ | ⟨-, -, fs, b₁, hcollect, rfl⟩⟩ := buildTable_cases hb
    · rfl
    · exact row_absorbed (b := { model := m }) hd hm.sound hr
        (fun hm hr h => collect_absorbed hd hm hr h) hcollect habsorbed
  rw [hmodel, hsame]
  exact addBackLinks_eq ⟨(Model.grows_rootTable m _).sound hm.sound, hm.fits⟩ hreturned

end Build

end Layout

end FeatureTables
