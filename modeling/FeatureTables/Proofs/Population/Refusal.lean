import FeatureTables.Proofs.Population.Failure

/-!
Populating breaks bounds or succeeds. Where all rows have tables and the keys of links have steps, each
link leads further down the document, so the depth that rows may nest is never reached, and no other
error is left than that bounds are broken (`ofRoot_refuses`).
-/

namespace FeatureTables

open Xml

/-- The error says that a document breaks the bounds of its tables. -/
def Error.IsCardinality (err : Error) : Prop := ∃ cause place, err = .cardinality cause place

namespace Xml.Element

mutual
theorem size_eq : ∀ e : Element, e.size = e.descendants.length
  | ⟨id, name, attributes, text?, children, scope⟩ => by
    rw [size, descendants, List.length_cons, sizeAmong_eq children, Nat.add_comm]
theorem sizeAmong_eq : ∀ es : List Element, sizeAmong es = (descendantsAmong es).length
  | [] => by simp [sizeAmong, descendantsAmong]
  | e :: es => by
    rw [sizeAmong, descendantsAmong, List.length_append, size_eq e, sizeAmong_eq es]
end

end Xml.Element

namespace Population

/-- The rows of a layout have tables, and links lead somewhere. -/
structure Setting.Sturdy (s : Setting) : Prop where
  tables : ∀ i name, s.layout.get? i = some (.table name) → ∃ t, s.model.table? name = some t
  links : ∀ name t, s.model.table? name = some t → ∀ key l,
    (key, Field.link l) ∈ t.fields.entries → Key.steps l.key ≠ []

section Refusal

variable {s : Setting} {e : Element} {t : Table} {p : Progress} {err : Error} {id : Value}
  {parent? : Option Parent} {key : String} {f : Field}
  {populate : Element → String → Option Parent → PopulateM Value}

theorem refuses_violation {α : Type} {cause : Violation}
    (h : Fails (violation e t key cause : PopulateM α) p err) : err.IsCardinality :=
  ⟨_, _, fails_throw.1 h⟩

theorem refuses_checkCount {l : Link} {n : Nat} (h : Fails (checkCount e t l n) p err) :
    err.IsCardinality := by
  simp only [checkCount, fails_ite, not_fails_pure, and_false, false_or] at h
  rcases h with ⟨-, h⟩ | ⟨-, -, h⟩
  · exact refuses_violation h
  · exact refuses_violation h

/-- A field of a row breaks bounds, or the row of an element fails that a link leads to. -/
theorem refuses_cells (h : Fails (cells s populate e t id parent? key f) p err) :
    err.IsCardinality ∨ ∃ l, f = .link l ∧ ∃ child ∈ s.layout.selectNodes l.key e, ∃ p₁,
      Fails (populate child (targetOf s l child) (some ⟨t.name, id⟩)) p₁ err := by
  cases f with
  | backLink b => exact absurd h not_fails_pure
  | column c =>
    refine Or.inl ?_
    simp only [cells] at h
    split at h
    · exact absurd h not_fails_pure
    · simp only [fails_ite, not_fails_pure, and_false, false_or] at h
      exact refuses_violation h.2
  | geometry g =>
    refine Or.inl ?_
    simp only [cells] at h
    split at h
    · exact absurd h not_fails_pure
    · simp only [fails_ite, not_fails_pure, and_false, false_or] at h
      exact refuses_violation h.2
  | link l =>
    simp only [cells, fails_bind, not_fails_pure, and_false, exists_false, or_false] at h
    rcases h with hcount | ⟨_, p₁, -, hmapM⟩
    · exact Or.inl (refuses_checkCount hcount)
    · obtain ⟨child, hchild, p₂, hchildFails⟩ := fails_mapM hmapM
      exact Or.inr ⟨l, rfl, child, hchild, p₂, hchildFails⟩

theorem refuses_addRow (h : Fails (addRow s populate e t id parent?) p err) :
    err.IsCardinality ∨ ∃ key l, (key, Field.link l) ∈ t.fields.entries ∧
      ∃ child ∈ s.layout.selectNodes l.key e, ∃ p₁,
        Fails (populate child (targetOf s l child) (some ⟨t.name, id⟩)) p₁ err := by
  simp only [addRow, reserve, fill, fails_bind, not_fails_get, not_fails_modify, not_fails_pure,
    false_or, or_false, and_false, exists_false] at h
  obtain ⟨slot, p₁, -, h⟩ := h
  obtain ⟨⟨key, f⟩, hmem, p₂, h⟩ := fails_mapM h
  rcases refuses_cells h with hcardinality | ⟨l, rfl, hchild⟩
  · exact Or.inl hcardinality
  · exact Or.inr ⟨key, l, List.mem_of_mem_filter hmem, hchild⟩

/-- An element with a row of its own is populated, or breaks bounds, if rows may nest as deep as there
are elements in its tree. -/
theorem populate_refuses (hs : s.Sturdy) {n : Nat} {name : String}
    (hdepth : e.descendants.length ≤ n) (hplaced : s.layout.get? e.id = some (.table name))
    (h : Fails (Population.populate s n e name parent?) p err) : err.IsCardinality := by
  induction n generalizing e name parent? p with
  | zero =>
    rw [Element.descendants_eq_inner] at hdepth
    cases hdepth
  | succ n ih =>
    obtain ⟨t, ht⟩ := hs.tables e.id name hplaced
    unfold Population.populate at h
    simp only [ht, fails_bind, not_fails_identify, fails_ite, not_fails_pure, false_or, and_false,
      exists_false, or_false] at h
    obtain ⟨⟨id, isNew⟩, p₁, -, h⟩ := h
    obtain ⟨-, h⟩ : isNew = true ∧ Fails (addRow s (Population.populate s n) e t id parent?) p₁ _ := h
    rcases refuses_addRow h with hcardinality | ⟨key, l, hl, child, hchild, p₂, h⟩
    · exact hcardinality
    · -- the child is a row further down
      have hlinked := (Layout.mem_selectNodes hchild).resolve_left
        fun hsteps => hs.links name t ht key l hl hsteps.1
      obtain ⟨target, htarget⟩ := Layout.table_of_linked hlinked
      have hlength := Element.length_descendants_lt (Layout.linked_inner hlinked)
      exact ih (by omega) (by simp [targetOf, htarget]) h

theorem ofRoot_refuses (hs : s.Sturdy) {root : Element} {table : String}
    (hplaced : s.layout.get? root.id = some (.table table)) (h : ofRoot s root table = .error err) :
    err.IsCardinality := by
  refine populate_refuses hs ?_ hplaced (ofRoot_fails h)
  have hdepth : (root.size + 1) * 1 ≤ depthOf s root :=
    Nat.mul_le_mul_left _ (Nat.le_add_left 1 _)
  rw [Element.size_eq] at hdepth
  omega

end Refusal

end Population

end FeatureTables
