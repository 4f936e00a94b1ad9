import FeatureTables.Proofs.Layout.Linked
import FeatureTables.Proofs.Population.Steps

/-!
How populating fails for want of something. The error names the element of a row, its table and a
field, and the field requires what its key does not find at the element (`populate_fails`).
-/

namespace FeatureTables

open Xml

/-- Something is missing that a field requires. -/
def Violation.IsMissing : Violation → Prop
  | .valueMissing | .childMissing | .geometryMissing => True
  | _ => False

/-- The key of the field leads to something at the element. -/
def Layout.Finds (l : Layout) (e : Element) : Field → Prop
  | .column c => (l.selectText? c.key e).isSome = true
  | .link k => l.selectNodes k.key e ≠ []
  | .backLink _ => True
  | .geometry g => (l.selectShape? g.key e).isSome = true

namespace Population

/-! ### Failing from one progress on -/

section Fails

variable {α β : Type} {p : Progress} {err : Error}

/-- Populating from `p` fails with an error. -/
def Fails (x : PopulateM α) (p : Progress) (err : Error) : Prop :=
  (Id.run (x.run.run p)).1 = .error err

theorem not_fails_pure {a : α} : ¬ Fails (pure a) p err := by
  intro h
  cases h

theorem fails_throw {e : Error} : Fails (throw e : PopulateM α) p err ↔ err = e := by
  show (Except.error e : Except Error α) = .error err ↔ _
  rw [Except.error.injEq, eq_comm]

theorem not_fails_get : ¬ Fails get p err := by
  intro h
  cases h

theorem not_fails_modify {f : Progress → Progress} : ¬ Fails (modify f) p err := by
  intro h
  cases h

theorem fails_bind {x : PopulateM α} {f : α → PopulateM β} :
    Fails (x >>= f) p err ↔ Fails x p err ∨ ∃ a p₁, Leads x p a p₁ ∧ Fails (f a) p₁ err := by
  unfold Fails Leads
  rw [ExceptT.run_bind, StateT.run_bind]
  cases hx : x.run.run p with
  | mk r p₁ =>
  cases r with
  | error e =>
    constructor
    · intro h
      cases h
      exact Or.inl rfl
    · rintro (h | ⟨a, p₂, h, -⟩)
      · cases h
        rfl
      · cases h
  | ok a =>
    constructor
    · exact fun h => Or.inr ⟨a, p₁, rfl, h⟩
    · rintro (h | ⟨a', p₂, h, h'⟩)
      · cases h
      · cases h
        exact h'

theorem fails_ite {c : Prop} [Decidable c] {x y : PopulateM α} :
    Fails (if c then x else y) p err ↔ c ∧ Fails x p err ∨ ¬ c ∧ Fails y p err := by
  split <;> simp [*]

/-- A list fails at one of its members. -/
theorem fails_mapM {f : α → PopulateM β} {xs : List α} (h : Fails (xs.mapM f) p err) :
    ∃ x ∈ xs, ∃ p₁, Fails (f x) p₁ err := by
  induction xs generalizing p with
  | nil => exact absurd h (by simpa using not_fails_pure)
  | cons x xs ih =>
    rw [List.mapM_cons, fails_bind] at h
    rcases h with h | ⟨y, p₁, -, h⟩
    · exact ⟨x, List.mem_cons_self, p, h⟩
    · rcases fails_bind.1 h with h | ⟨_, _, -, h⟩
      · obtain ⟨x', hx', h'⟩ := ih h
        exact ⟨x', List.mem_cons_of_mem _ hx', h'⟩
      · exact absurd h not_fails_pure

end Fails

/-! ### What is missing -/

/-- The row of an element in a table lacks what one of the fields requires. -/
structure Misses (s : Setting) (e : Element) (t : Table) (place : Place) (key : String) (f : Field) :
    Prop where
  field : (key, f) ∈ t.fields.entries
  key : key ≠ t.uid
  required : f.isOptional = false
  nothing : ¬ s.layout.Finds e f
  place : place = { tag? := some e.name.toText, table? := some t.name, xpath? := some f.key }

section Missing

variable {s : Setting} {e : Element} {t : Table} {p : Progress} {cause : Violation} {place : Place}
  {id : Value} {parent? : Option Parent} {key : String} {f : Field}
  {populate : Element → String → Option Parent → PopulateM Value}

theorem not_fails_identify {err : Error} : ¬ Fails (identify t e) p err := by
  have hnext : ∀ p, ¬ Fails (nextId t) p err := by
    intro p h
    simp only [nextId, fails_bind, not_fails_get, not_fails_modify, not_fails_pure, and_false,
      exists_false, or_false] at h
  have hnote : ∀ p id, ¬ Fails (note t id) p err := by
    intro p id h
    simp only [note, fails_bind, fails_ite, not_fails_get, not_fails_modify, not_fails_pure,
      and_false, exists_false, or_false] at h
  intro h
  unfold identify at h
  split at h
  · cases hid : e.attribute? "id" <;>
      simp only [hid, fails_bind, hnote, hnext, not_fails_pure, and_false, exists_false,
        or_false] at h
  · simp only [fails_bind, hnext, not_fails_pure, and_false, exists_false, or_false] at h

theorem fails_violation {α : Type} {c : Violation} :
    Fails (violation e t key c : PopulateM α) p (.cardinality cause place) ↔ cause = c ∧
      place = { tag? := some e.name.toText, table? := some t.name, xpath? := some key } := by
  unfold violation
  rw [fails_throw, Error.cardinality.injEq]

theorem fails_checkCount {l : Link} {n : Nat} (hcause : cause.IsMissing)
    (h : Fails (checkCount e t l n) p (.cardinality cause place)) : n = 0 ∧ l.optional = false ∧
      place = { tag? := some e.name.toText, table? := some t.name, xpath? := some l.key } := by
  simp only [checkCount, fails_ite, fails_violation, not_fails_pure, and_false, false_or] at h
  rcases h with ⟨⟨hn, hl⟩, -, hplace⟩ | ⟨-, -, rfl, -⟩
  · exact ⟨hn, by simpa using hl, hplace⟩
  · exact hcause.elim

/-- A field of a row fails by itself, or at an element that a link leads to. -/
theorem fails_cells (hcause : cause.IsMissing) (hf : (key, f) ∈ t.fields.entries) (hkey : key ≠ t.uid)
    (h : Fails (cells s populate e t id parent? key f) p (.cardinality cause place)) :
    Misses s e t place key f ∨ ∃ l : Link, ∃ child ∈ s.layout.selectNodes l.key e, ∃ p₁,
      Fails (populate child (targetOf s l child) (some ⟨t.name, id⟩)) p₁
        (.cardinality cause place) := by
  cases f with
  | backLink b => exact absurd h not_fails_pure
  | column c =>
    simp only [cells] at h
    cases htext : s.layout.selectText? c.key e with
    | some text =>
      rw [htext] at h
      exact absurd h not_fails_pure
    | none =>
      simp only [htext, fails_ite, not_fails_pure, and_false, false_or, fails_violation] at h
      obtain ⟨hoptional, -, hplace⟩ := h
      exact Or.inl ⟨hf, hkey, Bool.not_eq_true _ ▸ hoptional, by simp [Layout.Finds, htext], hplace⟩
  | geometry g =>
    simp only [cells] at h
    cases hshape : s.layout.selectShape? g.key e with
    | some shape =>
      rw [hshape] at h
      exact absurd h not_fails_pure
    | none =>
      simp only [hshape, fails_ite, not_fails_pure, and_false, false_or, fails_violation] at h
      obtain ⟨hoptional, -, hplace⟩ := h
      exact Or.inl ⟨hf, hkey, Bool.not_eq_true _ ▸ hoptional, by simp [Layout.Finds, hshape], hplace⟩
  | link l =>
    simp only [cells, fails_bind, not_fails_pure, and_false, exists_false, or_false] at h
    rcases h with hcount | ⟨_, p₁, -, hmapM⟩
    · obtain ⟨hnone, hoptional, hplace⟩ := fails_checkCount hcause hcount
      refine Or.inl ⟨hf, hkey, hoptional, ?_, hplace⟩
      simpa [Layout.Finds] using List.length_eq_zero_iff.1 hnone
    · obtain ⟨child, hchild, p₂, hchildFails⟩ := fails_mapM hmapM
      exact Or.inr ⟨l, child, hchild, p₂, hchildFails⟩

theorem fails_addRow (hcause : cause.IsMissing)
    (h : Fails (addRow s populate e t id parent?) p (.cardinality cause place)) :
    (∃ key f, Misses s e t place key f) ∨ ∃ l : Link, ∃ child ∈ s.layout.selectNodes l.key e, ∃ p₁,
      Fails (populate child (targetOf s l child) (some ⟨t.name, id⟩)) p₁
        (.cardinality cause place) := by
  simp only [addRow, reserve, fill, fails_bind, not_fails_get, not_fails_modify, not_fails_pure,
    false_or, or_false, and_false, exists_false] at h
  obtain ⟨slot, p₁, -, h⟩ := h
  obtain ⟨⟨key, f⟩, hmem, p₂, h⟩ := fails_mapM h
  obtain ⟨hf, hkey⟩ := List.mem_filter.1 hmem
  rcases fails_cells hcause hf (by simpa using hkey) h with hmisses | hchild
  · exact Or.inl ⟨key, f, hmisses⟩
  · exact Or.inr hchild

/-- Populating fails for want of something at an element with a row of its own. -/
theorem populate_fails {root : Element} (hcause : cause.IsMissing) {n : Nat} {name : String}
    (he : e ∈ root.descendants) (hplaced : s.layout.get? e.id = some (.table name))
    (h : Fails (Population.populate s n e name parent?) p (.cardinality cause place)) :
    ∃ x ∈ root.descendants, ∃ name t key f, s.layout.get? x.id = some (.table name) ∧
      s.model.table? name = some t ∧ Misses s x t place key f := by
  induction n generalizing e name parent? p with
  | zero =>
    rw [Population.populate, fails_throw] at h
    cases h
  | succ n ih =>
    unfold Population.populate at h
    cases ht : s.model.table? name with
    | none =>
      rw [ht] at h
      cases fails_throw.1 h
    | some t =>
      simp only [ht, fails_bind, not_fails_identify, fails_ite, not_fails_pure, false_or, and_false,
        exists_false, or_false] at h
      obtain ⟨⟨id, isNew⟩, p₁, -, h⟩ := h
      obtain ⟨-, h⟩ : isNew = true ∧ Fails (addRow s (Population.populate s n) e t id parent?) p₁ _ := h
      rcases fails_addRow hcause h with ⟨key, f, hmisses⟩ | ⟨l, child, hchild, p₂, h⟩
      · exact ⟨e, he, name, t, key, f, hplaced, ht, hmisses⟩
      · -- a link leads to the element itself, or to a row next below it
        have hbelow : child ∈ root.descendants ∧
            s.layout.get? child.id = some (.table (targetOf s l child)) := by
          rcases Layout.mem_selectNodes hchild with ⟨-, rfl⟩ | hlinked
          · exact ⟨he, by simp [targetOf, hplaced]⟩
          · obtain ⟨target, htarget⟩ := Layout.table_of_linked hlinked
            exact ⟨Element.mem_descendants_trans (Element.mem_descendants_iff.2
              (Or.inr (Layout.linked_inner hlinked))) he, by simp [targetOf, htarget]⟩
        exact ih hbelow.1 hbelow.2 h

theorem ofRoot_fails {root : Element} {table : String} {err : Error}
    (h : ofRoot s root table = .error err) :
    Fails (Population.populate s (depthOf s root) root table none) s.start err := by
  unfold ofRoot at h
  unfold Fails
  cases hrun : (Population.populate s (depthOf s root) root table none).run.run s.start with
  | mk r p =>
    rw [hrun] at h
    cases r with
    | ok v => cases h
    | error e =>
      cases h
      rfl

end Missing

end Population

end FeatureTables
