import FeatureTables.Population
import Mathlib.Data.List.Basic

/-!
The calls of `populate` as a tree. A visit says which element was populated in which table and for
which row above it, with the row that was made and the visits below it. `visit` is `populate` with
this tree for a result (`populate_eq_visit`), so that what populating does can be said of the tree.
-/

namespace FeatureTables.Population

open Xml

/-! ### The tree of visits -/

/-- One call of `populate` with the calls that it made. -/
structure Visit where
  element : Element
  table : String
  parent? : Option Parent
  /-- The identifier that was returned. -/
  id : Value
  /-- The row that was made; none when the row was there. -/
  row? : Option Row
  visits : List Visit

namespace Visit

mutual
/-- The visit and all below it, in the order in which they were entered. -/
def all : Visit → List Visit
  | ⟨element, table, parent?, id, row?, visits⟩ =>
    ⟨element, table, parent?, id, row?, visits⟩ :: allAmong visits
def allAmong : List Visit → List Visit
  | [] => []
  | v :: vs => all v ++ allAmong vs
end

theorem allAmong_eq (vs : List Visit) : allAmong vs = vs.flatMap all := by
  induction vs with
  | nil => rfl
  | cons v vs ih => simp [allAmong, ih]

theorem all_eq (v : Visit) : v.all = v :: v.visits.flatMap all := by
  cases v
  simp [all, allAmong_eq]

theorem mem_all_self (v : Visit) : v ∈ v.all := by
  rw [all_eq]
  exact List.mem_cons_self

mutual
theorem induct_tree {P : Visit → Prop} (h : ∀ v, (∀ w ∈ v.visits, P w) → P v) : ∀ v, P v
  | ⟨element, table, parent?, id, row?, visits⟩ =>
    h ⟨element, table, parent?, id, row?, visits⟩ (induct_trees h visits)
theorem induct_trees {P : Visit → Prop} (h : ∀ v, (∀ w ∈ v.visits, P w) → P v) :
    ∀ vs : List Visit, ∀ w ∈ vs, P w
  | [] => by simp
  | v :: vs => List.forall_mem_cons.2 ⟨induct_tree h v, induct_trees h vs⟩
end

theorem mem_all_of_mem_visits {u v w : Visit} (hu : u ∈ v.all) (hw : w ∈ u.visits) : w ∈ v.all := by
  induction v using induct_tree with
  | h v ih =>
    rw [all_eq] at hu ⊢
    refine List.mem_cons_of_mem _ (List.mem_flatMap.2 ?_)
    rcases List.mem_cons.1 hu with rfl | hu
    · exact ⟨w, hw, mem_all_self w⟩
    · obtain ⟨x, hx, hu⟩ := List.mem_flatMap.1 hu
      exact ⟨x, hx, ih x hx hu⟩

/-- A visit below another one was made by one of those below it. -/
theorem mem_all_cases {v w : Visit} (h : w ∈ v.all) : w = v ∨ ∃ u ∈ v.all, w ∈ u.visits := by
  induction v using induct_tree with
  | h v ih =>
    rw [all_eq] at h
    rcases List.mem_cons.1 h with rfl | h
    · exact Or.inl rfl
    · refine Or.inr ?_
      obtain ⟨x, hx, hw⟩ := List.mem_flatMap.1 h
      rcases ih x hx hw with rfl | ⟨u, hu, hwu⟩
      · exact ⟨v, mem_all_self v, hx⟩
      · refine ⟨u, ?_, hwu⟩
        rw [all_eq]
        exact List.mem_cons_of_mem _ (List.mem_flatMap.2 ⟨x, hx, hu⟩)

end Visit

/-! ### Populating with a record of the visits -/

/-- The cells of a field, and the visits that a link makes. -/
def visitField (s : Setting) (visit : Element → String → Option Parent → PopulateM Visit)
    (e : Element) (t : Table) (id : Value) (parent? : Option Parent) (key : String) :
    Field → PopulateM (List (String × Value) × List Visit)
  | .link l => do
    let children := s.layout.selectNodes l.key e
    checkCount e t l children.length
    let visits ← children.mapM fun child => visit child (targetOf s l child) (some ⟨t.name, id⟩)
    return (if l.isMany then [] else cell (t.columnName? key) (visits.map (·.id)).getLast?, visits)
  | f => do
    let found ← cells s (fun _ _ _ => return default) e t id parent? key f
    return (found, [])

/-- Makes a row, and records the visits of its links. -/
def visitRow (s : Setting) (visit : Element → String → Option Parent → PopulateM Visit)
    (e : Element) (t : Table) (id : Value) (parent? : Option Parent) :
    PopulateM (Row × List Visit) := do
  let slot ← reserve t.name
  let found ← (t.fields.entries.filter (·.1 ≠ t.uid)).mapM fun (key, f) =>
    visitField s visit e t id parent? key f
  let row : Row := ⟨(t.uidName, id) :: (found.map (·.1)).flatten⟩
  fill t.name slot row
  return (row, (found.map (·.2)).flatten)

/-- Populates an element and returns the tree of the calls. -/
def visit (s : Setting) : Nat → Element → String → Option Parent → PopulateM Visit
  | 0, e, table, _ =>
    throw (.schemaResolution .endless { tag? := some e.name.toText, table? := some table })
  | n + 1, e, table, parent? =>
    match s.model.table? table with
    | none =>
      throw (.schemaResolution .noTable { tag? := some e.name.toText, table? := some table })
    | some t => do
      let (id, isNew) ← identify t e
      if isNew then
        let (row, visits) ← visitRow s (visit s n) e t id parent?
        return ⟨e, table, parent?, id, some row, visits⟩
      else return ⟨e, table, parent?, id, none, []⟩

/-! ### Forgetting the record -/

theorem mapM_map_left {α β γ : Type} (xs : List α) (f : α → PopulateM β) (g : β → γ) :
    xs.mapM (fun x => g <$> f x) = List.map g <$> xs.mapM f := by
  induction xs with
  | nil => simp
  | cons x xs ih => simp [List.mapM_cons, ih]

theorem cells_eq_visitField {s : Setting}
    {visit : Element → String → Option Parent → PopulateM Visit} {e : Element} {t : Table}
    {id : Value} {parent? : Option Parent} {key : String} (f : Field) :
    cells s (fun e table parent? => Visit.id <$> visit e table parent?) e t id parent? key f =
      Prod.fst <$> visitField s visit e t id parent? key f := by
  cases f with
  | link l =>
    simp only [cells, visitField, mapM_map_left, map_bind, map_pure, bind_map_left]
  | column c => simp [visitField, cells]
  | backLink b => simp [visitField, cells]
  | geometry g => simp [visitField, cells]

theorem addRow_eq_visitRow {s : Setting}
    {visit : Element → String → Option Parent → PopulateM Visit} {e : Element} {t : Table}
    {id : Value} {parent? : Option Parent} :
    addRow s (fun e table parent? => Visit.id <$> visit e table parent?) e t id parent? =
      (fun _ => ()) <$> visitRow s visit e t id parent? := by
  simp only [addRow, visitRow, cells_eq_visitField, mapM_map_left, map_bind, map_pure,
    bind_map_left]
  simp

/-- Populating is visiting, with only the identifier for a result. -/
theorem populate_eq_visit (s : Setting) (n : Nat) (e : Element) (table : String)
    (parent? : Option Parent) :
    populate s n e table parent? = Visit.id <$> visit s n e table parent? := by
  induction n generalizing e table parent? with
  | zero => simp [populate, visit]
  | succ n ih =>
    have hrec : populate s n = fun e table parent? => Visit.id <$> visit s n e table parent? := by
      funext e table parent?
      exact ih e table parent?
    simp only [populate, visit, hrec]
    cases s.model.table? table with
    | none => simp
    | some t =>
      simp only [addRow_eq_visitRow, map_bind]
      congr 1
      funext ⟨id, isNew⟩
      cases isNew <;> simp

/-- The visits of a document, from its root on. -/
def visitsOf (s : Setting) (root : Element) (table : String) : Except Error Visit :=
  ((visit s (depthOf s root) root table none).run.run s.start).1

end FeatureTables.Population
