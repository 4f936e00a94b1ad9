import FeatureTables.Schema.Catalog
import Mathlib.Data.List.Perm.Basic
import Mathlib.Logic.Relation

/-!
The members of a substitution group. The search goes from heads to their members, takes each head once
and has steps enough for all of them (`membersFrom_visits`). So the members of a group are the registered
declarations whose heads are reached from the head of the group, each one as often as it is registered
(`substitutionGroup_perm`).
-/

namespace FeatureTables.Schema.Catalog

/-- The one name is the head of a registered member that has the other name. -/
def HeadOf (c : Catalog) (a b : QName) : Prop :=
  ∃ m ∈ c.substitutes, m.substitutes? = some a ∧ m.name = b

/-- The registered members that have this head themselves. -/
def directMembers (c : Catalog) (head : QName) : List ElementDecl :=
  c.substitutes.filter (·.substitutes? == some head)

/-- The registered members with one of these heads. -/
def membersOf (c : Catalog) (heads : List QName) : List ElementDecl :=
  c.substitutes.filter fun m => m.substitutes?.any (· ∈ heads)

/-- The registered members with a head that is none of these. -/
def membersBeside (c : Catalog) (seen : List QName) : List ElementDecl :=
  c.substitutes.filter fun m => !m.substitutes?.any (· ∈ seen)

/-- A search from the heads in `queue` has taken the heads `taken`, beside those seen before, and has
listed their members. -/
structure Visits (c : Catalog) (seen queue taken : List QName) (listed : List ElementDecl) : Prop where
  nodup : taken.Nodup
  fresh : ∀ k ∈ taken, k ∉ seen
  reached : ∀ k ∈ taken, ∃ q ∈ queue, Relation.ReflTransGen c.HeadOf q k
  queue : ∀ q ∈ queue, q ∈ seen ∨ q ∈ taken
  closed : ∀ k ∈ taken, ∀ k', c.HeadOf k k' → k' ∈ seen ∨ k' ∈ taken
  listed : listed = taken.flatMap c.directMembers

section Search

variable {c : Catalog} {seen queue taken : List QName} {head : QName} {listed : List ElementDecl}

theorem mem_directMembers_iff {m : ElementDecl} :
    m ∈ c.directMembers head ↔ m ∈ c.substitutes ∧ m.substitutes? = some head := by
  simp [directMembers]

theorem any_mem_cons (k? : Option QName) (head : QName) (heads : List QName) :
    k?.any (· ∈ head :: heads) = (k? == some head || k?.any (· ∈ heads)) := by
  cases k? with
  | none => rfl
  | some k => simp [beq_eq_decide]

theorem not_any_mem {k? : Option QName} {heads : List QName} (hhead : head ∉ heads)
    (hk : (k? == some head) = true) : k?.any (· ∈ heads) = false := by
  rw [beq_iff_eq.1 hk]
  simpa using hhead

/-- A new head takes its members out of those that are left. -/
theorem length_membersBeside (h : head ∉ seen) : (c.membersBeside seen).length =
    (c.directMembers head).length + (c.membersBeside (head :: seen)).length := by
  rw [List.length_eq_length_filter_add (l := c.membersBeside seen) (·.substitutes? == some head)]
  congr 2
  · rw [membersBeside, List.filter_filter, directMembers]
    refine List.filter_congr fun m _ => ?_
    cases hk : m.substitutes? == some head with
    | false => rfl
    | true => rw [not_any_mem h hk, Bool.not_false, Bool.and_true]
  · rw [membersBeside, List.filter_filter, membersBeside]
    refine List.filter_congr fun m _ => ?_
    rw [any_mem_cons, Bool.not_or]

/-- A head that was seen before is passed over. -/
theorem Visits.skip (h : c.Visits seen queue taken listed) (hhead : head ∈ seen) :
    c.Visits seen (head :: queue) taken listed where
  nodup := h.nodup
  fresh := h.fresh
  reached k hk := by
    obtain ⟨q, hq, hqk⟩ := h.reached k hk
    exact ⟨q, List.mem_cons_of_mem _ hq, hqk⟩
  queue := List.forall_mem_cons.2 ⟨Or.inl hhead, h.queue⟩
  closed := h.closed
  listed := h.listed

/-- A new head is taken, and its members are put at the end of the queue. -/
theorem Visits.take (hhead : head ∉ seen)
    (h : c.Visits (head :: seen) (queue ++ (c.directMembers head).map (·.name)) taken listed) :
    c.Visits seen (head :: queue) (head :: taken) (c.directMembers head ++ listed) where
  nodup := List.nodup_cons.2 ⟨fun hmem => h.fresh head hmem List.mem_cons_self, h.nodup⟩
  fresh := List.forall_mem_cons.2
    ⟨hhead, fun k hk hseen => h.fresh k hk (List.mem_cons_of_mem _ hseen)⟩
  reached := by
    refine List.forall_mem_cons.2 ⟨⟨head, List.mem_cons_self, .refl⟩, fun k hk => ?_⟩
    obtain ⟨q, hq, hqk⟩ := h.reached k hk
    rcases List.mem_append.1 hq with hq | hq
    · exact ⟨q, List.mem_cons_of_mem _ hq, hqk⟩
    · obtain ⟨m, hm, rfl⟩ := List.mem_map.1 hq
      obtain ⟨hmem, hof⟩ := mem_directMembers_iff.1 hm
      exact ⟨head, List.mem_cons_self, .head ⟨m, hmem, hof, rfl⟩ hqk⟩
  queue := by
    intro q hq
    rcases List.mem_cons.1 hq with rfl | hq
    · exact Or.inr List.mem_cons_self
    · have := h.queue q (List.mem_append_left _ hq)
      simp only [List.mem_cons] at this ⊢
      tauto
  closed := by
    intro k hk k' hkk'
    have hnext : k' ∈ head :: seen ∨ k' ∈ taken := by
      rcases List.mem_cons.1 hk with rfl | hk
      · obtain ⟨m, hmem, hof, rfl⟩ := hkk'
        refine h.queue _ (List.mem_append_right _ ?_)
        exact List.mem_map_of_mem (mem_directMembers_iff.2 ⟨hmem, hof⟩)
      · exact h.closed k hk k' hkk'
    simp only [List.mem_cons] at hnext ⊢
    tauto
  listed := by rw [h.listed, List.flatMap_cons]

/-- Without heads to take, nothing is listed. -/
theorem visits_nil (c : Catalog) (n : ℕ) (seen : List QName) :
    c.Visits seen [] [] (c.membersFrom n seen []) := by
  constructor
  case listed => cases n <;> rfl
  all_goals simp

/-- The search takes all that it can reach: each step shortens the queue, or moves members into it. -/
theorem membersFrom_visits (n : ℕ) (seen queue : List QName)
    (hn : queue.length + (c.membersBeside seen).length ≤ n) :
    ∃ taken, c.Visits seen queue taken (c.membersFrom n seen queue) := by
  induction n generalizing seen queue with
  | zero =>
    obtain rfl : queue = [] := List.length_eq_zero_iff.1 (by omega)
    exact ⟨[], visits_nil c 0 seen⟩
  | succ n ih =>
    cases queue with
    | nil => exact ⟨[], visits_nil c (n + 1) seen⟩
    | cons head queue =>
      rw [List.length_cons] at hn
      rw [membersFrom]
      by_cases hseen : head ∈ seen
      · rw [if_pos (List.contains_iff_mem.2 hseen)]
        obtain ⟨taken, h⟩ := ih seen queue (by omega)
        exact ⟨taken, h.skip hseen⟩
      · rw [if_neg fun hmem => hseen (List.contains_iff_mem.1 hmem)]
        have hlength := length_membersBeside (c := c) hseen
        obtain ⟨taken, h⟩ := ih (head :: seen) (queue ++ (c.directMembers head).map (·.name))
          (by simp only [List.length_append, List.length_map]; omega)
        exact ⟨head :: taken, h.take hseen⟩

end Search

/-- The members of distinct heads are the registered members with one of them. -/
theorem flatMap_directMembers_perm (c : Catalog) {heads : List QName} (h : heads.Nodup) :
    (heads.flatMap c.directMembers).Perm (c.membersOf heads) := by
  induction heads with
  | nil => simp [membersOf]
  | cons head heads ih =>
    obtain ⟨hhead, hnodup⟩ := List.nodup_cons.1 h
    have hsplit := List.filter_append_perm (·.substitutes? == some head) (c.membersOf (head :: heads))
    have hown : (c.membersOf (head :: heads)).filter (·.substitutes? == some head) =
        c.directMembers head := by
      rw [membersOf, List.filter_filter, directMembers]
      refine List.filter_congr fun m _ => ?_
      rw [any_mem_cons]
      cases m.substitutes? == some head <;> simp
    have hrest : (c.membersOf (head :: heads)).filter (fun m => !(m.substitutes? == some head)) =
        c.membersOf heads := by
      rw [membersOf, List.filter_filter, membersOf]
      refine List.filter_congr fun m _ => ?_
      rw [any_mem_cons]
      cases hk : m.substitutes? == some head with
      | false => rfl
      | true => rw [not_any_mem hhead hk, Bool.not_true, Bool.false_and]
    rw [hown, hrest] at hsplit
    rw [List.flatMap_cons]
    exact ((ih hnodup).append_left _).trans hsplit

/-- The group of a head has the members of all heads that are reached from it, each as often as it is
registered. -/
theorem substitutionGroup_perm (c : Catalog) (head : QName) : ∃ heads : List QName,
    (∀ k, k ∈ heads ↔ Relation.ReflTransGen c.HeadOf head k) ∧
      (c.substitutionGroup head).Perm (c.membersOf heads) := by
  obtain ⟨heads, h⟩ := membersFrom_visits (c := c) (c.substitutes.length + 2) [] [head] (by
    have := List.length_filter_le (fun m => !m.substitutes?.any (· ∈ ([] : List QName))) c.substitutes
    rw [List.length_singleton, membersBeside]
    omega)
  refine ⟨heads, fun k => ⟨fun hk => ?_, fun hk => ?_⟩, ?_⟩
  · obtain ⟨q, hq, hqk⟩ := h.reached k hk
    exact List.mem_singleton.1 hq ▸ hqk
  · induction hk with
    | refl => exact (h.queue head (List.mem_singleton_self _)).resolve_left List.not_mem_nil
    | tail _ hstep ih => exact (h.closed _ ih _ hstep).resolve_left List.not_mem_nil
  · rw [substitutionGroup, h.listed]
    exact flatMap_directMembers_perm c h.nodup

end FeatureTables.Schema.Catalog
