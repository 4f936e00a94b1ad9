import FeatureTables.Proofs.Xml.Building
import FeatureTables.Proofs.Xml.Tree

/-!
The numbers of the elements of a document. Tags get the numbers in the order in which they stand in the
text, so the numbers increase strictly from the root on, in document order (`numbered_parse`). The
invariant is about the root and the open elements together (`Building.numbers`): they have the numbers
below the next one.
-/

namespace FeatureTables.Xml

/-- The numbers of an element and of all below it, in document order. -/
def Element.numbers (e : Element) : List NodeId := e.descendants.map (·.id)

namespace Element

theorem numbers_eq (e : Element) : e.numbers = e.id :: e.children.flatMap numbers := by
  unfold numbers
  rw [descendants_eq, List.map_cons, List.map_flatMap]

/-- The numbers grow in document order. -/
def Numbered (e : Element) : Prop := e.numbers.Pairwise (· < ·)

section Numbered

variable {e x c : Element}

theorem Numbered.distinct (h : e.Numbered) : e.Distinct := h.imp fun h => Nat.ne_of_lt h

theorem Numbered.inner (h : e.Numbered) : (e.inner.map (·.id)).Pairwise (· < ·) := by
  unfold Numbered numbers at h
  rw [descendants_eq_inner, List.map_cons, List.pairwise_cons] at h
  exact h.2

theorem Numbered.lt_of_inner (h : e.Numbered) (hx : x ∈ e.inner) : e.id < x.id := by
  unfold Numbered numbers at h
  rw [descendants_eq_inner, List.map_cons, List.pairwise_cons] at h
  exact h.1 _ (List.mem_map_of_mem hx)

theorem Numbered.le_of_descendants (h : e.Numbered) (hx : x ∈ e.descendants) : e.id ≤ x.id := by
  rcases mem_descendants_iff.1 hx with rfl | hx
  · exact Nat.le_refl _
  · exact Nat.le_of_lt (h.lt_of_inner hx)

theorem Numbered.of_mem (h : e.Numbered) (hx : x ∈ e.descendants) : x.Numbered :=
  h.sublist ((sublist_descendants hx).map _)

theorem Numbered.child (h : e.Numbered) (hc : c ∈ e.children) : c.Numbered :=
  h.of_mem (mem_descendants_iff.2 (Or.inr (mem_inner_of_mem_children hc)))

end Numbered

end Element

open Element

def Open.numbers (o : Open) : List NodeId :=
  o.element.id :: o.children.reverse.flatMap Element.numbers

theorem Open.close_numbers (o : Open) : o.close.numbers = o.numbers := numbers_eq o.close

namespace Building

/-- The numbers of the elements so far, in document order. -/
def numbers (b : Building) : List NodeId :=
  b.root?.toList.flatMap Element.numbers ++ b.stack.reverse.flatMap Open.numbers

variable {limits : Limits} {b b' : Building} {e : Element} {t : Token}

theorem numbers_push (b : Building) (o : Open) :
    { b with stack := o :: b.stack }.numbers = b.numbers ++ o.numbers := by
  simp [numbers]

theorem attach_numbers (h : b.attach e = .ok b') :
    b'.numbers = b.numbers ++ e.numbers ∧ b'.nextId = b.nextId := by
  rcases attach_cases h with ⟨o, stack, hstack, rfl⟩ | ⟨hstack, hroot, rfl⟩
  · simp [numbers, Open.numbers, hstack]
  · simp [numbers, hstack, hroot]

/-- A token that opens an element gives it the next number, any other one gives no number. -/
theorem Steps.numbers (h : Steps limits b t b') :
    t.opens = true ∧ b'.numbers = b.numbers ++ [b.nextId] ∧ b'.nextId = b.nextId + 1 ∨
      t.opens = false ∧ b'.numbers = b.numbers ∧ b'.nextId = b.nextId := by
  cases h with
  | start enter =>
    obtain ⟨hid, -⟩ := enter_eq enter
    refine Or.inl ⟨rfl, ?_, rfl⟩
    rw [← hid]
    exact numbers_push b _
  | empty enter attach =>
    obtain ⟨hid, hchildren⟩ := enter_eq enter
    obtain ⟨hnumbers, hnext⟩ := attach_numbers attach
    refine Or.inl ⟨rfl, hnumbers.trans ?_, hnext⟩
    rw [numbers_eq, hid, hchildren]
    rfl
  | @stop o stack root? nextId _ attach =>
    obtain ⟨hnumbers, hnext⟩ := attach_numbers attach
    refine Or.inr ⟨rfl, hnumbers.trans ?_, hnext⟩
    rw [Open.close_numbers]
    exact (numbers_push ⟨stack, root?, nextId⟩ o).symm
  | @text o stack root? nextId _ text plain =>
    refine Or.inr ⟨Token.opens_of_plain plain, ?_, rfl⟩
    rw [numbers_push ⟨stack, root?, nextId⟩ o]
    exact numbers_push ⟨stack, root?, nextId⟩ _
  | pass plain => exact Or.inr ⟨Token.opens_of_plain plain, rfl, rfl⟩

/-- The elements so far have the numbers below the next one, which counts the tags that opened them. -/
theorem numbers_run {tokens : List Token} (h : tokens.foldlM (Building.step limits) {} = .ok b) :
    b.numbers = List.range b.nextId ∧ b.nextId = tokens.countP Token.opens := by
  refine run_induct (P := fun ts b => b.numbers = List.range b.nextId ∧
    b.nextId = ts.countP Token.opens) ⟨rfl, rfl⟩ ?_ h
  rintro ts t b b' hstep ⟨hrange, hcount⟩
  rcases hstep.numbers with ⟨ht, hnumbers, hnext⟩ | ⟨ht, hnumbers, hnext⟩
  · rw [hnumbers, hnext, hrange, List.range_succ, List.countP_append, hcount]
    simp [ht]
  · rw [hnumbers, hnext, hrange, List.countP_append, hcount]
    simp [ht]

end Building

/-- The elements of a document are numbered in document order. -/
theorem Document.numbered_parse {limits : Limits} {bytes : Bytes} {d : Document}
    (h : Document.parse limits bytes = .ok d) : d.root.Numbered := by
  obtain ⟨built, hbuilt, -, hroot, -⟩ := Document.parse_cases h
  have hsublist : d.root.numbers.Sublist built.numbers := by simp [Building.numbers, hroot]
  rw [(Building.numbers_run hbuilt).1] at hsublist
  exact List.pairwise_lt_range.sublist hsublist

end FeatureTables.Xml
