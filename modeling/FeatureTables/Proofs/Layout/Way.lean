import FeatureTables.Layout.Building
import FeatureTables.Proofs.Layout.Linked
import FeatureTables.Proofs.Table.Path

/-!
The ways from an element to the rows next below it. The path of a way is the key of the link to the row,
and it leads back to the row, as long as the names on the way are plain (`mem_selectNodes_path`).
-/

namespace FeatureTables

open Text

/-! ### Names of steps -/

/-- A name that nothing but a name is written like. -/
structure PlainName (s : String) : Prop where
  nonempty : s ≠ ""
  chars : ∀ c ∈ s.toList, c ∉ ['/', ':', '@', ')', ']']

instance (s : String) : Decidable (PlainName s) :=
  decidable_of_iff (s ≠ "" ∧ s.toList.all (fun c => decide (c ∉ ['/', ':', '@', ')', ']'])) = true)
    ⟨fun h => ⟨h.1, by simpa using h.2⟩, fun h => ⟨h.nonempty, by simpa using h.chars⟩⟩

/-- A label of a namespace is one of its segments. -/
theorem segment_chars {run s seg : List Char} (hrun : ∀ c ∈ run, c ≠ '/' ∧ c ≠ ':')
    (h : seg ∈ segmentsFrom run s) : ∀ c ∈ seg, c ≠ '/' ∧ c ≠ ':' := by
  induction s generalizing run with
  | nil =>
    rw [segmentsFrom, List.mem_singleton] at h
    subst h
    simpa using hrun
  | cons d s ih =>
    rw [segmentsFrom] at h
    split at h
    · rcases List.mem_cons.1 h with rfl | h
      · simpa using hrun
      · exact ih (by simp) h
    · rename_i hd
      refine ih ?_ h
      intro c hc
      rcases List.mem_cons.1 hc with rfl | hc
      · exact ⟨fun h => hd (Or.inl h), fun h => hd (Or.inr (Or.inl h))⟩
      · exact hrun c hc

theorem label_chars {ns label : String} (h : namespaceLabel? ns = some label) :
    (∀ c ∈ label.toList, c ≠ '/' ∧ c ≠ ':') ∧
      ∃ c, label.toList.head? = some c ∧ c.isAlpha = true := by
  obtain ⟨seg, hseg, rfl⟩ := Option.map_eq_some_iff.1 h
  have hmem := List.mem_of_find?_eq_some hseg
  have hhead := List.find?_some hseg
  rw [List.mem_reverse] at hmem
  rw [String.toList_ofList]
  refine ⟨segment_chars (by simp) hmem, ?_⟩
  cases hc : seg.head? with
  | none => simp [hc] at hhead
  | some c => exact ⟨c, rfl, by simpa [hc] using hhead⟩

namespace Layout

open Xml Element

theorem keyStep_cases (parent child : Element) : keyStep parent child = child.localName ∨
    ∃ label, child.ns?.bind namespaceLabel? = some label ∧
      keyStep parent child = label ++ String.singleton ':' ++ child.localName := by
  unfold keyStep
  cases h : child.ns?.bind namespaceLabel? with
  | none => exact Or.inl rfl
  | some label =>
    dsimp only
    split
    · exact Or.inr ⟨label, rfl, rfl⟩
    · exact Or.inl rfl

theorem label_of_bind {child : Element} {label : String}
    (h : child.ns?.bind namespaceLabel? = some label) : ∃ ns, namespaceLabel? ns = some label := by
  obtain ⟨ns, -, hlabel⟩ := Option.bind_eq_some_iff.1 h
  exact ⟨ns, hlabel⟩

/-- A child has the name of its step. -/
theorem hasTag_keyStep (parent : Element) {child : Element} (h : PlainName child.localName) :
    hasTag child (keyStep parent child) = true := by
  rcases keyStep_cases parent child with hstep | ⟨label, hlabel, hstep⟩
  · have hcolon : ':' ∉ child.localName.toList := fun hmem => h.chars _ hmem (by decide)
    unfold hasTag
    rw [hstep, splitOnce_of_not_mem hcolon]
    simp
  · obtain ⟨ns, hns⟩ := label_of_bind hlabel
    have hcolon : ':' ∉ label.toList := fun hmem => ((label_chars hns).1 _ hmem).2 rfl
    unfold hasTag
    rw [hstep, splitOnce_append hcolon]
    simp [hlabel]

theorem slash_keyStep (parent : Element) {child : Element} (h : '/' ∉ child.localName.toList) :
    '/' ∉ (keyStep parent child).toList := by
  rcases keyStep_cases parent child with hstep | ⟨label, hlabel, hstep⟩
  · rw [hstep]
    exact h
  · obtain ⟨ns, hns⟩ := label_of_bind hlabel
    rw [hstep]
    simpa [h] using fun hmem => ((label_chars hns).1 _ hmem).1 rfl

/-- The last character of a step is one of the name, unless the name is empty. -/
theorem getLast?_keyStep (parent child : Element) {c : Char}
    (h : (keyStep parent child).toList.getLast? = some c) : c ∈ ':' :: child.localName.toList := by
  rcases keyStep_cases parent child with hstep | ⟨label, hlabel, hstep⟩
  · rw [hstep] at h
    exact List.mem_cons_of_mem _ (List.mem_of_getLast? h)
  · have hlist : (keyStep parent child).toList = label.toList ++ ':' :: child.localName.toList := by
      rw [hstep]
      simp
    rw [hlist, List.getLast?_append_of_ne_nil _ (List.cons_ne_nil _ _)] at h
    exact List.mem_of_getLast? h

theorem plain_keyStep (parent : Element) {child : Element} (h : PlainName child.localName) :
    Key.Plain (keyStep parent child) := by
  have hne : child.localName.toList ≠ [] := fun hnil => h.nonempty (String.toList_eq_nil_iff.1 hnil)
  have hlast := List.getLast?_eq_getLast_of_ne_nil hne
  have hchars := h.chars _ (List.getLast_mem hne)
  simp only [List.mem_cons, List.not_mem_nil, or_false, not_or] at hchars
  have hslash : '/' ∉ (keyStep parent child).toList :=
    slash_keyStep parent fun hmem => h.chars _ hmem (by decide)
  rcases keyStep_cases parent child with hstep | ⟨label, hlabel, hstep⟩
  · rw [hstep] at hslash ⊢
    refine Key.plain_of_ends hslash (fun hfirst => ?_) hlast hchars.2.2.2.1 hchars.2.2.2.2
    exact h.chars _ (List.mem_of_head? hfirst) (by decide)
  · obtain ⟨ns, hns⟩ := label_of_bind hlabel
    obtain ⟨-, c, hhead, halpha⟩ := label_chars hns
    have hlist : (keyStep parent child).toList =
        label.toList ++ ':' :: child.localName.toList := by
      rw [hstep]
      simp
    refine Key.plain_of_ends hslash ?_ (c := child.localName.toList.getLast hne) ?_ hchars.2.2.2.1
      hchars.2.2.2.2
    · rw [hlist, List.head?_append, hhead]
      intro hat
      rw [show c = '@' from Option.some.inj hat] at halpha
      revert halpha
      decide
    · rw [hlist, List.getLast?_append, List.getLast?_cons, hlast]
      rfl

/-! ### Ways -/

/-- The steps from an element to a row next below it, through parts of its own row. -/
inductive Way (l : Layout) : Element → List String → Element → Prop
  | row {e c : Element} {name : String} (hc : c ∈ e.children)
      (htable : l.get? c.id = some (.table name)) : Way l e [keyStep e c] c
  | part {e c x : Element} {steps : List String} (hc : c ∈ e.children) (hpasses : Passes l c)
      (hx : Way l c steps x) : Way l e (keyStep e c :: steps) x

section Way

variable {l l' : Layout} {e x : Element} {names : List String}

theorem Way.ne_nil (h : Way l e names x) : names ≠ [] := by
  cases h <;> exact List.cons_ne_nil _ _

theorem exists_way (h : x ∈ linked l e) : ∃ names, Way l e names x := by
  induction e using induct_tree with
  | h e ih =>
    obtain ⟨c, hc, ⟨⟨name, hname⟩, rfl⟩ | ⟨hpasses, hx⟩⟩ := mem_linked_iff.1 h
    · exact ⟨_, .row hc hname⟩
    · obtain ⟨names, hway⟩ := ih c hc hx
      exact ⟨_, .part hc hpasses hway⟩

/-- The names on the way are plain. -/
def PlainBelow (e : Element) : Prop := ∀ y ∈ e.inner, PlainName y.localName

theorem Way.plain (h : Way l e names x) (hplain : PlainBelow e) :
    ∀ name ∈ names, Key.Plain name := by
  induction h with
  | row hc _ =>
    intro name hname
    rw [List.mem_singleton.1 hname]
    exact plain_keyStep _ (hplain _ (mem_inner_of_mem_children hc))
  | part hc _ _ ih =>
    have hmem := mem_inner_of_mem_children hc
    refine List.forall_mem_cons.2 ⟨plain_keyStep _ (hplain _ hmem), ih fun y hy => hplain y ?_⟩
    exact mem_inner_of_descendants (mem_descendants_iff.2 (Or.inr hy)) hmem

theorem descend_mono {rows : Bool} {steps : List Key.Step} {es fs : List Element} (h : es ⊆ fs) :
    descend l rows steps es ⊆ descend l rows steps fs := by
  induction steps generalizing es fs with
  | nil => exact h
  | cons step steps ih =>
    cases step with
    | tag name first =>
      rw [descend_tag, descend_tag]
      refine ih fun x hx => ?_
      obtain ⟨e, he, hx⟩ := List.mem_flatMap.1 hx
      exact List.mem_flatMap.2 ⟨e, h he, hx⟩
    | attr name => simp [descend]
    | text => simp [descend]
    | geometry => simp [descend]

theorem mem_stepFrom_iff {rows : Bool} {name : String} {c : Element} :
    c ∈ stepFrom l rows false name e ↔
      c ∈ e.children ∧ hasTag c name = true ∧ admits rows (l.get? c.id) = true := by
  unfold stepFrom
  rw [if_neg Bool.false_ne_true, List.mem_filter, Bool.and_eq_true]

theorem mem_stepFrom_keyStep {c : Element} (hc : c ∈ e.children) (hplain : PlainName c.localName)
    {rows : Bool} (hadmits : admits rows (l.get? c.id) = true) :
    c ∈ stepFrom l rows false (keyStep e c) e :=
  mem_stepFrom_iff.2 ⟨hc, hasTag_keyStep e hplain, hadmits⟩

/-- What the steps below a child lead to, they lead to behind the step to the child. -/
theorem descend_of_step {rows : Bool} {tags : List Key.Step} {d : Element} {step : String}
    (hd : d ∈ stepFrom l (rows && tags.isEmpty) false step e) :
    descend l rows tags [d] ⊆ descend l rows (.tag step false :: tags) [e] := by
  rw [descend_tag, List.flatMap_singleton]
  refine descend_mono fun y hy => ?_
  rw [List.mem_singleton.1 hy]
  exact hd

theorem Way.mem_descend (h : Way l e names x) (hplain : PlainBelow e) :
    x ∈ descend l true (names.map (.tag · false)) [e] := by
  induction h with
  | row hc htable =>
    rw [List.map_singleton, descend_tag, List.flatMap_singleton]
    exact mem_stepFrom_keyStep hc (hplain _ (mem_inner_of_mem_children hc))
      (admits_true_iff.2 ⟨_, htable⟩)
  | @part e c x names hc hpasses hway ih =>
    have hmem := mem_inner_of_mem_children hc
    have hrows : (true && (names.map fun name => Key.Step.tag name false).isEmpty) = false := by
      simpa using hway.ne_nil
    rw [List.map_cons]
    refine descend_of_step ?_ (ih fun y hy => hplain y
      (mem_inner_of_descendants (mem_descendants_iff.2 (Or.inr hy)) hmem))
    rw [hrows]
    exact mem_stepFrom_keyStep hc (hplain _ hmem) (admits_false_iff.2 hpasses)

/-- The path of a way leads back to the row. -/
theorem mem_selectNodes_path (h : Way l e names x) (hplain : PlainBelow e) :
    x ∈ selectNodes l (Key.path names) e := by
  unfold selectNodes
  rw [Key.steps_path h.ne_nil (h.plain hplain)]
  exact h.mem_descend hplain

end Way

end Layout

end FeatureTables
