import FeatureTables.Proofs.Xml.Numbering

/-!
Documents that can be searched, and that are within the limits. The search for a number goes down to the
one child that can hold it, and so finds the same element as a look at all of them, as the numbers grow in
document order (`find?_eq`). Elements nest as deep as the stack of open ones has grown, which is never above
the limit (`Building.Shallow`).
-/

namespace FeatureTables.Xml

namespace Element

/-! ### The search -/

theorem find?_eq_ite (e : Element) (target : NodeId) :
    e.find? target = if e.id = target then some e else findAmong? target e.children := by
  cases e
  rw [find?]

/-- Among children that are first up to the target and then above it, the search goes into the last one
before the border. -/
theorem findAmong?_eq {target : NodeId} {es fs : List Element} (hes : ∀ c ∈ es, c.id ≤ target)
    (hfs : ∀ c ∈ fs, target < c.id) :
    findAmong? target (es ++ fs) = es.getLast?.bind (find? target) := by
  induction es with
  | nil =>
    cases fs with
    | nil => rfl
    | cons f fs =>
      have hf := Nat.not_le.2 (hfs f List.mem_cons_self)
      cases fs with
      | nil => simp [findAmong?, hf]
      | cons g fs => simp [findAmong?, hf, Nat.not_le.2 (hfs g (by simp))]
  | cons e es ih =>
    obtain ⟨he, hes⟩ := List.forall_mem_cons.1 hes
    have ih := ih hes
    cases es with
    | nil =>
      cases fs with
      | nil => simp [findAmong?, he]
      | cons f fs => simp [findAmong?, he, Nat.not_le.2 (hfs f List.mem_cons_self)]
    | cons c es =>
      have hc := hes c List.mem_cons_self
      rw [List.cons_append, List.cons_append, findAmong?, if_pos hc, List.getLast?_cons_cons]
      exact ih

section Numbered

variable {e : Element}

/-- The subtrees of children have disjoint ranges of numbers, one after the other. -/
theorem Numbered.pairwise_children (h : e.Numbered) : e.children.Pairwise fun c d =>
    ∀ x ∈ c.descendants, ∀ y ∈ d.descendants, x.id < y.id := by
  have hinner := h.inner
  rw [Element.inner, List.pairwise_map, List.pairwise_flatMap] at hinner
  exact hinner.2

/-- The children up to a number stand before those above it. -/
theorem Numbered.exists_border (h : e.Numbered) (target : NodeId) : ∃ es fs, e.children = es ++ fs ∧
    (∀ c ∈ es, c.id ≤ target) ∧ ∀ c ∈ fs, target < c.id := by
  have hsorted : e.children.Pairwise fun c d => c.id < d.id :=
    h.pairwise_children.imp fun hcd => hcd _ (mem_descendants_self _) _ (mem_descendants_self _)
  generalize e.children = children at hsorted
  induction children with
  | nil => exact ⟨[], [], rfl, nofun, nofun⟩
  | cons c children ih =>
    obtain ⟨hc, hchildren⟩ := List.pairwise_cons.1 hsorted
    by_cases hle : c.id ≤ target
    · obtain ⟨es, fs, rfl, hes, hfs⟩ := ih hchildren
      exact ⟨c :: es, fs, rfl, List.forall_mem_cons.2 ⟨hle, hes⟩, hfs⟩
    · have hlt := Nat.not_le.1 hle
      exact ⟨[], c :: children, rfl, nofun,
        List.forall_mem_cons.2 ⟨hlt, fun d hd => Nat.lt_trans hlt (hc d hd)⟩⟩

/-- The search finds what a look at all elements in document order finds. -/
theorem find?_eq (h : e.Numbered) (target : NodeId) :
    e.find? target = e.descendants.find? (·.id == target) := by
  induction e using induct_tree with
  | h e ih =>
    rw [find?_eq_ite, descendants_eq, List.find?_cons]
    by_cases hid : e.id = target
    · rw [if_pos hid, beq_iff_eq.2 hid]
    · rw [if_neg hid, beq_false_of_ne hid]
      obtain ⟨es, fs, hchildren, hes, hfs⟩ := h.exists_border target
      have hpairwise := h.pairwise_children
      rw [hchildren, List.pairwise_append] at hpairwise
      have hmem : ∀ c, c ∈ es ∨ c ∈ fs → c ∈ e.children := fun c hc =>
        hchildren ▸ List.mem_append.2 hc
      -- behind the border all numbers are above the target
      have hbehind : (fs.flatMap descendants).find? (·.id == target) = none := by
        refine List.find?_eq_none.2 fun x hx hxt => ?_
        obtain ⟨c, hc, hx⟩ := List.mem_flatMap.1 hx
        have hle := (h.child (hmem c (Or.inr hc))).le_of_descendants hx
        exact Nat.not_lt.2 (beq_iff_eq.1 hxt ▸ hle) (hfs c hc)
      rw [hchildren, findAmong?_eq hes hfs, List.flatMap_append, List.find?_append, hbehind,
        Option.or_none]
      rcases List.eq_nil_or_concat' es with rfl | ⟨front, c, rfl⟩
      · rfl
      · -- before the last child up to the target all numbers are below it
        have hbefore : (front.flatMap descendants).find? (·.id == target) = none := by
          refine List.find?_eq_none.2 fun x hx hxt => ?_
          obtain ⟨d, hd, hx⟩ := List.mem_flatMap.1 hx
          have hlt := (List.pairwise_append.1 hpairwise.1).2.2 d hd c (List.mem_singleton_self c) x hx
            c (mem_descendants_self c)
          exact Nat.not_lt.2 (hes c (by simp)) (beq_iff_eq.1 hxt ▸ hlt)
        have hc := hmem c (Or.inl (by simp))
        simp [List.flatMap_append, hbefore, ih c hc (h.child hc)]

end Numbered

/-! ### Nesting -/

mutual
/-- How deep the elements of a tree nest. -/
def height : Element → Nat
  | ⟨_, _, _, _, children, _⟩ => heightAmong children + 1
def heightAmong : List Element → Nat
  | [] => 0
  | e :: es => max (height e) (heightAmong es)
end

theorem heightAmong_le_iff {es : List Element} {n : Nat} :
    heightAmong es ≤ n ↔ ∀ e ∈ es, e.height ≤ n := by
  induction es with
  | nil => simp [heightAmong]
  | cons e es ih => rw [heightAmong, Nat.max_le, ih, List.forall_mem_cons]

theorem height_le_iff {e : Element} {n : Nat} : e.height ≤ n + 1 ↔ ∀ c ∈ e.children, c.height ≤ n := by
  cases e
  rw [height, Nat.add_le_add_iff_right, heightAmong_le_iff]

end Element

open Text Element

namespace Building

variable {limits : Limits} {b b' : Building} {e : Element} {t : Token} {bs : Bindings} {body : Bytes}

theorem enter_within (h : b.enter limits body = .ok (e, bs)) :
    b.stack.length + 1 ≤ limits.depth ∧ e.attributes.length ≤ limits.attributes := by
  obtain ⟨_, _, opening, -, -, -, -, hdepth, hcount, rfl⟩ := openElement_cases h
  refine ⟨Limits.guardAtMost_eq_ok_iff.1 hdepth, ?_⟩
  rw [List.length_reverse]
  exact Limits.guardAtMost_eq_ok_iff.1 hcount

/-- The open elements and the finished ones inside of them nest at most so deep. -/
def Shallow (n : Nat) : List Open → Prop
  | [] => True
  | o :: stack => stack.length + 1 ≤ n ∧ (∀ c ∈ o.children, stack.length + 1 + c.height ≤ n) ∧
      Shallow n stack

/-- All elements so far nest at most so deep. -/
structure Within (n : Nat) (b : Building) : Prop where
  root : ∀ e ∈ b.root?, e.height ≤ n
  stack : Shallow n b.stack

theorem Within.attach {n : Nat} (h : b.Within n) (he : b.stack.length + e.height ≤ n)
    (hattach : b.attach e = .ok b') : b'.Within n := by
  rcases attach_cases hattach with ⟨o, stack, hstack, rfl⟩ | ⟨hstack, -, rfl⟩
  · have hshallow := h.stack
    rw [hstack] at hshallow he
    obtain ⟨hdepth, hchildren, hrest⟩ := hshallow
    exact ⟨h.root, hdepth, List.forall_mem_cons.2 ⟨he, hchildren⟩, hrest⟩
  · refine ⟨fun e' he' => ?_, h.stack⟩
    rw [hstack] at he
    exact Option.some.inj he' ▸ by simpa using he

theorem Within.steps (h : b.Within limits.depth) (hstep : Steps limits b t b') :
    b'.Within limits.depth := by
  cases hstep with
  | start enter => exact ⟨h.root, (enter_within enter).1, nofun, h.stack⟩
  | @empty _ _ _ e _ enter attach =>
    have hleaf : e.height ≤ 1 := height_le_iff.2 fun c hc => by
      rw [(enter_eq enter).2] at hc
      cases hc
    have hnext : Within limits.depth { b with nextId := b.nextId + 1 } := ⟨h.root, h.stack⟩
    refine hnext.attach ?_ attach
    have := (enter_within enter).1
    show b.stack.length + _ ≤ _
    omega
  | @stop o stack root? nextId _ attach =>
    obtain ⟨hdepth, hchildren, hrest⟩ := h.stack
    have hclosed : o.close.height ≤ limits.depth - stack.length - 1 + 1 :=
      height_le_iff.2 fun c hc => by
        have := hchildren c (List.mem_reverse.1 hc)
        omega
    have hopen : Within limits.depth ⟨stack, root?, nextId⟩ := ⟨h.root, hrest⟩
    refine hopen.attach ?_ attach
    show stack.length + _ ≤ _
    omega
  | text text plain => exact ⟨h.root, h.stack⟩
  | pass plain => exact h

end Building

/-! ### Documents -/

namespace Document

variable {limits : Limits} {bytes : Bytes} {d : Document}

theorem height_parse (h : Document.parse limits bytes = .ok d) : d.root.height ≤ limits.depth := by
  obtain ⟨built, hbuilt, -, hroot, -⟩ := parse_cases h
  have hwithin : built.Within limits.depth :=
    Building.run_induct (P := fun _ b => b.Within limits.depth) ⟨nofun, trivial⟩
      (fun _ _ _ _ hstep hb => hb.steps hstep) hbuilt
  exact hwithin.root d.root hroot

theorem attributes_parse (h : Document.parse limits bytes = .ok d) :
    ∀ e ∈ d.root.descendants, e.attributes.length ≤ limits.attributes := by
  obtain ⟨built, hbuilt, -, hroot, -⟩ := parse_cases h
  have hall : built.All fun e => e.attributes.length ≤ limits.attributes :=
    Building.run_induct (P := fun _ b => b.All _) ⟨nofun, nofun, nofun⟩
      (fun _ _ _ _ hstep hb => hb.steps (fun _ _ _ he => he) hstep
        fun _ _ _ _ henter => (Building.enter_within henter).2) hbuilt
  exact hall.root d.root hroot

/-- A document that is accepted is numbered in document order, an element before those inside of it and
one child with all below it before the next one; so the search for a number finds what a look at all
elements finds. The document nests no deeper, and no element has more attributes, than the limits allow. -/
theorem parse_searchable (h : Document.parse limits bytes = .ok d) :
    d.root.Numbered ∧
    (∀ e ∈ d.root.descendants, (∀ x ∈ e.inner, e.id < x.id) ∧ e.children.Pairwise fun c c' =>
      ∀ x ∈ c.descendants, ∀ y ∈ c'.descendants, x.id < y.id) ∧
    (∀ target, d.root.find? target = d.root.descendants.find? (·.id == target)) ∧
    d.root.height ≤ limits.depth ∧
    ∀ e ∈ d.root.descendants, e.attributes.length ≤ limits.attributes := by
  have hnumbered := numbered_parse h
  refine ⟨hnumbered, fun e he => ?_, find?_eq hnumbered, height_parse h, attributes_parse h⟩
  exact ⟨fun x hx => (hnumbered.of_mem he).lt_of_inner hx, (hnumbered.of_mem he).pairwise_children⟩

/-- An element with two children, the first one with an attribute and two children of its own. -/
def familyText : String := "<r><a x='1'><b/><c/></a><d><e/></d></r>"

/-- The family is at the limits; number 3 is found below the first child, and number 6 nowhere. -/
theorem familyText_searchable : ∃ d,
    Document.parse { depth := 3, attributes := 1 } (utf8 familyText) = .ok d ∧
    d.root.numbers = List.range 6 ∧ d.root.height = 3 ∧
    (d.root.find? 3).map (·.name) = some ⟨none, "c"⟩ ∧
    d.root.find? 3 = d.root.descendants.find? (·.id == 3) ∧
    d.root.descendants.find? (·.id == 6) = none := by
  have heval : (Document.parse { depth := 3, attributes := 1 } (utf8 familyText)).toOption.map (fun d =>
      decide (d.root.numbers = List.range 6 ∧ d.root.height = 3 ∧
        (d.root.find? 3).map (·.name) = some ⟨none, "c"⟩ ∧ d.root.find? 6 = none)) = some true := by
    decide +kernel
  obtain ⟨d, hd, heval⟩ := Option.map_eq_some_iff.1 heval
  obtain ⟨hnumbers, hheight, hfound, hnone⟩ := of_decide_eq_true heval
  have hd := toOption_eq_some_iff.1 hd
  obtain ⟨-, -, hfind, -, -⟩ := parse_searchable hd
  exact ⟨d, hd, hnumbers, hheight, hfound, hfind 3, (hfind 6).symm.trans hnone⟩

end Document

end FeatureTables.Xml
