import FeatureTables.Proofs.OrderedMap
import FeatureTables.Proofs.Population.Visits
import Mathlib.Data.List.Forall2

/-!
What the steps of populating do, as a relation between the progress before and after (`Leads`). The
identifiers of each table are an account of their own, which an element enters by `Enters`.
-/

namespace FeatureTables.Population

open Xml

/-! ### Leading from one progress to another -/

section Leads

variable {α β : Type} {p p' : Progress}

/-- Populating from `p` gives `a` and ends in `p'`. -/
def Leads (x : PopulateM α) (p : Progress) (a : α) (p' : Progress) : Prop :=
  Id.run (x.run.run p) = (.ok a, p')

theorem leads_pure {a a' : α} : Leads (pure a) p a' p' ↔ a' = a ∧ p' = p := by
  show (Except.ok a, p) = (Except.ok a', p') ↔ _
  rw [Prod.mk.injEq, Except.ok.injEq, eq_comm, @eq_comm _ p]

theorem not_leads_throw {e : Error} {a : α} : ¬ Leads (throw e) p a p' := by
  intro h
  change (Except.error e, p) = (Except.ok a, p') at h
  cases h

theorem leads_bind {x : PopulateM α} {f : α → PopulateM β} {c : β} :
    Leads (x >>= f) p c p' ↔ ∃ a p₁, Leads x p a p₁ ∧ Leads (f a) p₁ c p' := by
  unfold Leads
  rw [ExceptT.run_bind, StateT.run_bind]
  cases hx : x.run.run p with
  | mk r p₁ =>
  cases r with
  | error e =>
    simp only [Id.run, bind]
    constructor
    · intro h
      cases h
    · rintro ⟨a, p₂, h, -⟩
      cases h
  | ok a =>
    constructor
    · exact fun h => ⟨a, p₁, rfl, h⟩
    · rintro ⟨a', p₂, h, h'⟩
      cases h
      exact h'

theorem leads_modify {f : Progress → Progress} {u : Unit} :
    Leads (modify f) p u p' ↔ p' = f p := by
  show (Except.ok (), f p) = (Except.ok u, p') ↔ _
  rw [Prod.mk.injEq, eq_comm (a := f p)]
  exact and_iff_right rfl

theorem leads_get {c : Progress} : Leads get p c p' ↔ c = p ∧ p' = p := by
  show (Except.ok p, p) = (Except.ok c, p') ↔ _
  rw [Prod.mk.injEq, Except.ok.injEq, eq_comm, @eq_comm _ p p']

theorem leads_ite {c : Prop} [Decidable c] {x y : PopulateM α} {a : α} :
    Leads (if c then x else y) p a p' ↔ c ∧ Leads x p a p' ∨ ¬ c ∧ Leads y p a p' := by
  split <;> simp [*]

theorem leads_mapM_cons {x : α} {xs : List α} {f : α → PopulateM β} {ys : List β} :
    Leads ((x :: xs).mapM f) p ys p' ↔ ∃ y p₁ rest, Leads (f x) p y p₁ ∧
      Leads (xs.mapM f) p₁ rest p' ∧ ys = y :: rest := by
  simp only [List.mapM_cons, leads_bind, leads_pure]
  constructor
  · rintro ⟨y, p₁, hy, rest, p₂, hrest, rfl, rfl⟩
    exact ⟨y, p₁, rest, hy, hrest, rfl⟩
  · rintro ⟨y, p₁, rest, hy, hrest, rfl⟩
    exact ⟨y, p₁, hy, rest, p', hrest, rfl, rfl⟩

/-- What each member of a list does adds up to what the list does. -/
theorem leads_mapM {γ : Type} {R : Progress → List γ → Progress → Prop} (refl : ∀ p, R p [] p)
    (trans : ∀ {p p₁ p₂ vs ws}, R p vs p₁ → R p₁ ws p₂ → R p (vs ++ ws) p₂)
    {P : α → β → Prop} {g : β → List γ} {f : α → PopulateM β} {xs : List α}
    (hf : ∀ x ∈ xs, ∀ p y p', Leads (f x) p y p' → R p (g y) p' ∧ P x y) {ys : List β}
    (h : Leads (xs.mapM f) p ys p') : R p (ys.flatMap g) p' ∧ List.Forall₂ P xs ys := by
  induction xs generalizing p ys with
  | nil =>
    obtain ⟨rfl, rfl⟩ := leads_pure.1 (show Leads (pure []) p ys p' by simpa using h)
    exact ⟨refl _, .nil⟩
  | cons x xs ih =>
    obtain ⟨y, p₁, rest, hy, hrest, rfl⟩ := leads_mapM_cons.1 h
    obtain ⟨hR, hP⟩ := hf x (by simp) p y p₁ hy
    obtain ⟨hRs, hPs⟩ := ih (fun x hx => hf x (by simp [hx])) hrest
    exact ⟨trans hR hRs, .cons hP hPs⟩

end Leads

/-! ### Identifiers -/

/-- How far the numbers of a table went, and the identifiers that its rows have. -/
structure Account where
  last : Int
  known : List String

def Progress.account (p : Progress) (t : Table) : Account where
  last := (p.lastIds.get? t.name).getD t.lastId
  known := (p.emitted.get? t.name).getD []

/-- An element of a table with identifiers of the document gets its own, or one with the next number
of the table. -/
inductive Names (t : Table) (e : Element) : Int → String → Int → Prop
  | given {n id} : e.attribute? "id" = some id → Names t e n id n
  | minted {n} : e.attribute? "id" = none →
      Names t e n (t.name ++ "_" ++ toString (succ n)) (succ n)

/-- An element enters the account of its table with an identifier; says whether it is new. -/
inductive Enters (t : Table) (e : Element) : Account → Value → Bool → Account → Prop
  | number {n known} : t.hasNaturalId = false →
      Enters t e ⟨n, known⟩ (.int (succ n)) true ⟨succ n, known⟩
  | new {n n' known id} : t.hasNaturalId = true → Names t e n id n' → id ∉ known →
      Enters t e ⟨n, known⟩ (.text id) true ⟨n', id :: known⟩
  | known {n n' known id} : t.hasNaturalId = true → Names t e n id n' → id ∈ known →
      Enters t e ⟨n, known⟩ (.text id) false ⟨n', known⟩

/-- What `identify` changes: the account of the table alone. -/
structure Identified (t : Table) (e : Element) (p : Progress) (id : Value) (isNew : Bool)
    (p' : Progress) : Prop where
  enters : Enters t e (p.account t) id isNew (p'.account t)
  others : ∀ u : Table, u.name ≠ t.name → p'.account u = p.account u
  rows : p'.rows = p.rows
  nodup : p.lastIds.keys.Nodup → p'.lastIds.keys.Nodup
  counted : ∀ name ∈ p.lastIds.keys, name ∈ p'.lastIds.keys

section Identify

variable {t : Table} {e : Element} {p p' : Progress}

def Progress.counting (p : Progress) (t : Table) (n : Int) : Progress :=
  { p with lastIds := p.lastIds.put t.name n }

def Progress.knowing (p : Progress) (t : Table) (ids : List String) : Progress :=
  { p with emitted := p.emitted.put t.name ids }

theorem account_counting (p : Progress) (t : Table) (n : Int) :
    (p.counting t n).account t = ⟨n, (p.account t).known⟩ := by
  simp [Progress.account, Progress.counting, OrderedMap.get?_put]

theorem account_knowing (p : Progress) (t : Table) (ids : List String) :
    (p.knowing t ids).account t = ⟨(p.account t).last, ids⟩ := by
  simp [Progress.account, Progress.knowing, OrderedMap.get?_put]

theorem account_counting_of_ne (p : Progress) {t u : Table} (n : Int) (h : u.name ≠ t.name) :
    (p.counting t n).account u = p.account u := by
  simp [Progress.account, Progress.counting, OrderedMap.get?_put, h]

theorem account_knowing_of_ne (p : Progress) {t u : Table} (ids : List String)
    (h : u.name ≠ t.name) : (p.knowing t ids).account u = p.account u := by
  simp [Progress.account, Progress.knowing, OrderedMap.get?_put, h]

theorem leads_nextId {n : Int} :
    Leads (nextId t) p n p' ↔ n = succ (p.account t).last ∧ p' = p.counting t n := by
  simp only [nextId, leads_bind, leads_get, leads_modify, leads_pure]
  constructor
  · rintro ⟨_, _, ⟨rfl, rfl⟩, _, _, rfl, rfl, rfl⟩
    exact ⟨rfl, rfl⟩
  · rintro ⟨rfl, rfl⟩
    exact ⟨p, p, ⟨rfl, rfl⟩, (), _, rfl, rfl, rfl⟩

theorem leads_note {id : String} {isNew : Bool} :
    Leads (note t id) p isNew p' ↔ id ∈ (p.account t).known ∧ isNew = false ∧ p' = p ∨
      id ∉ (p.account t).known ∧ isNew = true ∧ p' = p.knowing t (id :: (p.account t).known) := by
  have hknown : (p.emitted.get? t.name).getD [] = (p.account t).known := rfl
  simp only [note, leads_bind, leads_get]
  constructor
  · rintro ⟨q, q', ⟨hq, hq'⟩, h⟩
    rw [hq, hq'] at h
    by_cases hid : id ∈ (p.account t).known
    · simp only [hknown, List.contains_iff_mem, hid, if_true, leads_pure] at h
      exact Or.inl ⟨hid, h⟩
    · simp only [hknown, List.contains_iff_mem, hid, if_false, leads_bind, leads_modify,
        leads_pure] at h
      obtain ⟨_, _, rfl, rfl, rfl⟩ := h
      exact Or.inr ⟨hid, rfl, rfl⟩
  · rintro (⟨hid, rfl, rfl⟩ | ⟨hid, rfl, rfl⟩)
    · refine ⟨_, _, ⟨rfl, rfl⟩, ?_⟩
      simp only [hknown, List.contains_iff_mem, hid, if_true, leads_pure, and_self]
    · refine ⟨p, p, ⟨rfl, rfl⟩, ?_⟩
      simp only [hknown, List.contains_iff_mem, hid, if_false, leads_bind, leads_modify,
        leads_pure]
      exact ⟨(), _, rfl, trivial, rfl⟩

theorem identified_counting (h : t.hasNaturalId = false) :
    Identified t e p (.int (succ (p.account t).last)) true
      (p.counting t (succ (p.account t).last)) where
  enters := by
    rw [account_counting]
    exact .number h
  others u hu := account_counting_of_ne p _ hu
  rows := rfl
  nodup := OrderedMap.nodup_keys_put
  counted _ hname := OrderedMap.mem_keys_put.2 (Or.inr hname)

theorem identified_note {id : String} {isNew : Bool} {n : Int} {p₁ : Progress}
    (hnatural : t.hasNaturalId = true) (hnames : Names t e (p.account t).last id n)
    (haccount : p₁.account t = ⟨n, (p.account t).known⟩)
    (hothers : ∀ u : Table, u.name ≠ t.name → p₁.account u = p.account u)
    (hrows : p₁.rows = p.rows) (hnodup : p.lastIds.keys.Nodup → p₁.lastIds.keys.Nodup)
    (hcounted : ∀ name ∈ p.lastIds.keys, name ∈ p₁.lastIds.keys)
    (h : Leads (note t id) p₁ isNew p') : Identified t e p (.text id) isNew p' := by
  rcases leads_note.1 h with ⟨hid, rfl, rfl⟩ | ⟨hid, rfl, rfl⟩
  · rw [haccount] at hid
    refine ⟨?_, hothers, hrows, hnodup, hcounted⟩
    rw [haccount]
    exact .known hnatural hnames hid
  · rw [haccount] at hid
    refine ⟨?_, fun u hu => ?_, hrows, hnodup, hcounted⟩
    · rw [account_knowing, haccount]
      exact .new hnatural hnames hid
    · rw [account_knowing_of_ne p₁ _ hu]
      exact hothers u hu

theorem leads_identify {id : Value} {isNew : Bool} (h : Leads (identify t e) p (id, isNew) p') :
    Identified t e p id isNew p' := by
  unfold identify at h
  cases hnatural : t.hasNaturalId with
  | false =>
    simp only [hnatural, Bool.false_eq_true, if_false, leads_bind, leads_nextId, leads_pure] at h
    obtain ⟨n, _, ⟨rfl, rfl⟩, h, rfl⟩ := h
    cases h
    exact identified_counting hnatural
  | true =>
    cases hattr : e.attribute? "id" with
    | some given =>
      simp only [hnatural, hattr, if_true, leads_bind, leads_pure] at h
      obtain ⟨_, _, ⟨rfl, rfl⟩, _, _, hnote, h, rfl⟩ := h
      cases h
      exact identified_note hnatural (.given hattr) rfl (fun _ _ => rfl) rfl id (fun _ => id) hnote
    | none =>
      simp only [hnatural, hattr, if_true, leads_bind, leads_nextId, leads_pure] at h
      obtain ⟨n, _, ⟨rfl, rfl⟩, _, _, ⟨rfl, rfl⟩, _, _, hnote, h, rfl⟩ := h
      cases h
      exact identified_note hnatural (.minted hattr) (account_counting p t _)
        (fun u hu => account_counting_of_ne p _ hu) rfl OrderedMap.nodup_keys_put
        (fun _ hname => OrderedMap.mem_keys_put.2 (Or.inr hname)) hnote

end Identify

end FeatureTables.Population
