import FeatureTables.Proofs.Schema.Words
import Mathlib.Data.ENat.Basic

/-!
The slots of a content model: its particles for elements and its wildcards, in order and with groups
opened, each with its bounds multiplied along the groups around it. A child is found at the first slot
that admits its name, with the bounds of the slot (`findChild?_slot`).
-/

namespace FeatureTables

/-! ### Bounds as numbers -/

theorem countTimes_min (a b : Nat) : countTimes a (min b countMax) = countTimes a b := by
  unfold countTimes
  rcases Nat.eq_zero_or_pos a with rfl | ha
  · simp
  · rcases Nat.le_total b countMax with hb | hb
    · rw [Nat.min_eq_left hb]
    · have h₁ : countMax ≤ a * countMax := Nat.le_mul_of_pos_left _ ha
      have h₂ : a * countMax ≤ a * b := Nat.mul_le_mul_left a hb
      rw [Nat.min_eq_right hb, Nat.min_eq_right h₁, Nat.min_eq_right (h₁.trans h₂)]

namespace MaxOccurs

def toENat : MaxOccurs → ℕ∞
  | bounded n => n
  | unbounded => ⊤

/-- The bound for a number of occurrences, which stops at the largest count. -/
def capped : ℕ∞ → MaxOccurs
  | (n : ℕ) => bounded (min n countMax)
  | ⊤ => unbounded

@[simp] theorem capped_top : capped ⊤ = unbounded := rfl

@[simp] theorem capped_coe (n : ℕ) : capped (n : ℕ∞) = bounded (min n countMax) := rfl

theorem allows_iff {b : MaxOccurs} {count : Nat} : b.allows count = true ↔ (count : ℕ∞) ≤ b.toENat := by
  cases b <;> simp [allows, toENat]

theorem coe_mul_top {n : ℕ} (h : n ≠ 0) : (n : ℕ∞) * ⊤ = ⊤ := ENat.mul_top (Nat.cast_ne_zero.2 h)

theorem times_eq (a b : MaxOccurs) : a.times b = capped (a.toENat * b.toENat) := by
  cases a with
  | bounded m =>
    cases b with
    | bounded n => rw [toENat, toENat, ← Nat.cast_mul]; rfl
    | unbounded =>
      by_cases hm : m = 0
      · subst hm; rfl
      · simp [times, toENat, hm, coe_mul_top hm]
  | unbounded =>
    cases b with
    | bounded n =>
      by_cases hn : n = 0
      · subst hn; rfl
      · simp [times, toENat, hn, mul_comm ⊤, coe_mul_top hn]
    | unbounded => rfl

/-- A product that was cut off on the way is cut off at the end. -/
theorem capped_mul_capped (a b : ℕ∞) : capped (a * (capped b).toENat) = capped (a * b) := by
  induction b using ENat.recTopCoe with
  | top => rfl
  | coe n =>
    rw [capped_coe, toENat]
    induction a using ENat.recTopCoe with
    | top =>
      by_cases hn : n = 0
      · subst hn; simp
      · rw [mul_comm, coe_mul_top (by simpa [countMax] using hn), mul_comm, coe_mul_top hn]
    | coe m =>
      rw [← Nat.cast_mul, ← Nat.cast_mul, capped_coe, capped_coe]
      exact congrArg bounded (countTimes_min m n)

/-- A bound below the largest count is the number itself. -/
theorem toENat_capped {e : ℕ∞} (h : capped e ≠ bounded countMax) : (capped e).toENat = e := by
  induction e using ENat.recTopCoe with
  | top => rfl
  | coe n =>
    rw [capped_coe] at h ⊢
    rw [toENat, Nat.min_eq_left]
    by_contra hn
    exact h (by rw [Nat.min_eq_right (by omega)])

end MaxOccurs

namespace Schema.Catalog

variable {c : Catalog} {x : QName} {n : ℕ} {p : Particle} {ps : List Particle} {w : List QName}

/-! ### The slots of a content model -/

/-- What stands at a slot: a declaration, or a wildcard. -/
inductive Filler where
  | element (decl : ElementDecl)
  | any

/-- The name can stand here. -/
def Filler.admits (c : Catalog) : Filler → QName → Bool
  | element decl, x => c.standsFor decl x
  | any, x => (c.elements.get? x).isSome

/-- A particle that names can stand for, with its bounds multiplied along the groups around it. -/
structure Slot where
  filler : Filler
  least : ℕ
  most : ℕ∞

namespace Slot

/-- A slot seen from outside of a particle with these bounds. -/
def inside (own : Occurs) (s : Slot) : Slot :=
  { s with least := s.least * own.min, most := s.most * own.max.toENat }

/-- A slot in a branch of several. -/
def optional (s : Slot) : Slot := { s with least := 0 }

/-- The bounds as counts. -/
def occurs (s : Slot) : Occurs := ⟨min s.least countMax, .capped s.most⟩

end Slot

/-- The slots of a term, given those of particles. -/
def termSlots (c : Catalog) (slotsOf : Particle → List Slot) : Term → List Slot
  | .element ref =>
    match c.declOfRef ref with
    | .ok decl => [⟨.element decl, 1, 1⟩]
    | .error _ => []
  | .any => [⟨.any, 1, 1⟩]
  | .group name =>
    match c.groups.get? name with
    | some p => slotsOf p
    | none => []
  | .sequence ps | .all ps => ps.flatMap slotsOf
  | .choice ps =>
    if 1 < ps.length then (ps.flatMap slotsOf).map Slot.optional else ps.flatMap slotsOf

/-- The slots of a particle, in the order of the content model, groups opened. -/
def slots (c : Catalog) : ℕ → Particle → List Slot
  | 0, _ => []
  | n + 1, ⟨own, term⟩ => (c.termSlots (c.slots n) term).map (Slot.inside own)

/-! ### The first slot is the one that is found -/

/-- A search that finds the bounds of the first of the slots that admit the name. -/
def FindsFirst (c : Catalog) (x : QName) (outer : Occurs) (r : Except Error (Option ChildMatch))
    (ss : List Slot) : Prop :=
  ∃ found?, r = .ok found? ∧
    found?.map (·.occurs) =
      (ss.find? fun s => s.filler.admits c x).map fun s => (s.inside outer).occurs

theorem occurs_inside_inside (own outer : Occurs) (s : Slot) :
    ((s.inside own).inside outer).occurs = (s.inside (own.within outer)).occurs := by
  have hleast : countTimes (s.least * own.min) outer.min =
      countTimes s.least (countTimes own.min outer.min) := by
    rw [countTimes, Nat.mul_assoc]
    exact (countTimes_min _ _).symm
  have hmost : MaxOccurs.capped (s.most * own.max.toENat * outer.max.toENat) =
      .capped (s.most * (own.max.times outer.max).toENat) := by
    rw [MaxOccurs.times_eq, MaxOccurs.capped_mul_capped, mul_assoc]
  exact congrArg₂ Occurs.mk hleast hmost

theorem occurs_inside_once (f : Filler) (own outer : Occurs) :
    ((Slot.mk f 1 1).inside (own.within outer)).occurs = own.within outer := by
  have hleast : min (1 * countTimes own.min outer.min) countMax = countTimes own.min outer.min := by
    rw [Nat.one_mul, countTimes, Nat.min_assoc, Nat.min_self]
  have hmost : MaxOccurs.capped (1 * (own.max.times outer.max).toENat) = own.max.times outer.max := by
    rw [MaxOccurs.times_eq, MaxOccurs.capped_mul_capped, one_mul]
  exact congrArg₂ Occurs.mk hleast hmost

theorem findsFirst_inside {own outer : Occurs} {r : Except Error (Option ChildMatch)} {ss : List Slot}
    (h : FindsFirst c x (own.within outer) r ss) :
    FindsFirst c x outer r (ss.map (Slot.inside own)) := by
  obtain ⟨found?, hr, hfound⟩ := h
  refine ⟨found?, hr, ?_⟩
  rw [hfound, List.find?_map, Option.map_map]
  exact congrArg (Option.map · _) (funext fun s => (occurs_inside_inside own outer s).symm)

theorem findsFirst_optional {outer : Occurs} {r : Except Error (Option ChildMatch)} {ss : List Slot}
    (h : FindsFirst c x outer.optionalized r ss) :
    FindsFirst c x outer r (ss.map Slot.optional) := by
  obtain ⟨found?, hr, hfound⟩ := h
  refine ⟨found?, hr, ?_⟩
  rw [hfound, List.find?_map, Option.map_map]
  refine congrArg (Option.map · _) (funext fun s => ?_)
  simp [Slot.inside, Slot.optional, Slot.occurs, Occurs.optionalized]

theorem firstMatch_findsFirst {outer : Occurs} {f : Particle → Except Error (Option ChildMatch)}
    {slotsOf : Particle → List Slot} (h : ∀ p ∈ ps, FindsFirst c x outer (f p) (slotsOf p)) :
    FindsFirst c x outer (firstMatch f ps) (ps.flatMap slotsOf) := by
  induction ps with
  | nil => exact ⟨none, rfl, rfl⟩
  | cons p ps ih =>
    obtain ⟨found?, hp, hfound⟩ := h p List.mem_cons_self
    obtain ⟨rest?, hps, hrest⟩ := ih fun q hq => h q (List.mem_cons_of_mem _ hq)
    rw [FindsFirst, firstMatch, hp, List.flatMap_cons, List.find?_append]
    cases found? with
    | some m =>
      obtain ⟨s, hs, -⟩ := Option.map_eq_some_iff.1 hfound.symm
      exact ⟨some m, rfl, by rw [hfound, hs, Option.some_or]⟩
    | none =>
      have hs := Option.map_eq_none_iff.1 hfound.symm
      exact ⟨rest?, hps, by rw [hrest, hs, Option.none_or]⟩

theorem standsFor_iff {decl : ElementDecl} : c.standsFor decl x = true ↔
    (decl.name = x ∧ ¬ decl.isAbstract) ∨
      ((c.substitutionGroup decl.name).find? fun m => m.name == x && !m.isAbstract).isSome = true := by
  simp [standsFor]

theorem matchElement_eq {ref : ElementRef} {decl : ElementDecl} {occurs : Occurs}
    (hdecl : c.declOfRef ref = .ok decl) (hmembers : c.MembersDerive decl) :
    ∃ found?, c.matchElement ref occurs x = .ok found? ∧
      found?.map (·.occurs) = if c.standsFor decl x then some occurs else none := by
  rw [matchElement, hdecl, show ∀ f : ElementDecl → Except Error (Option ChildMatch),
    (Except.ok decl >>= f) = f decl from fun _ => rfl]
  by_cases hown : decl.name = x ∧ ¬ decl.isAbstract
  · rw [if_pos hown, if_pos (standsFor_iff.2 (Or.inl hown))]
    exact ⟨_, rfl, rfl⟩
  · rw [if_neg hown]
    cases hfind : (c.substitutionGroup decl.name).find? fun m => m.name == x && !m.isAbstract with
    | none =>
      have hnot : ¬ c.standsFor decl x = true := by
        rw [standsFor_iff, hfind]
        exact fun h => h.elim hown nofun
      rw [if_neg hnot]
      exact ⟨none, rfl, rfl⟩
    | some member =>
      rw [if_pos (standsFor_iff.2 (Or.inr (by rw [hfind]; rfl)))]
      have hconcrete : member.isAbstract = false := by
        have := List.find?_some hfind
        simp at this
        exact this.2
      obtain ⟨headType, memberType, hhead, hmember, hderives⟩ :=
        hmembers member (List.mem_of_find?_eq_some hfind) hconcrete
      refine ⟨some { decl := member, occurs, head? := some decl }, ?_, rfl⟩
      simp [hhead, hmember, hderives, bind, Except.bind, pure, Except.pure]

theorem findsFirst_leaf {own outer : Occurs} {r : Except Error (Option ChildMatch)} {f : Filler}
    {found? : Option ChildMatch} (hr : r = .ok found?)
    (hfound : found?.map (·.occurs) = if f.admits c x then some (own.within outer) else none) :
    FindsFirst c x (own.within outer) r [⟨f, 1, 1⟩] := by
  refine ⟨found?, hr, hfound.trans ?_⟩
  cases hf : f.admits c x with
  | true => simp [hf, occurs_inside_once]
  | false => simp [hf]

/-- In a catalog without loose ends a child is found at the first slot that admits its name, with the
bounds of the slot. -/
theorem matchParticle_findsFirst {outer : Occurs} (h : c.Resolves n p) :
    FindsFirst c x outer (c.matchParticle x n outer p) (c.slots n p) := by
  induction n generalizing p outer with
  | zero => exact h.elim
  | succ n ih =>
    obtain ⟨own, term⟩ := p
    refine findsFirst_inside ?_
    cases term with
    | element ref =>
      obtain ⟨decl, hdecl, hmembers⟩ := h
      obtain ⟨found?, hmatch, hfound⟩ := matchElement_eq (x := x) hdecl hmembers
      rw [termSlots, hdecl]
      exact findsFirst_leaf hmatch hfound
    | any =>
      refine findsFirst_leaf rfl ?_
      cases hx : c.elements.get? x <;> simp [Filler.admits, hx]
    | group name =>
      obtain ⟨p, hp, h⟩ := h
      rw [matchParticle, termSlots, hp]
      exact ih h
    | sequence ps => exact firstMatch_findsFirst fun p hp => ih (h p hp)
    | choice ps =>
      rw [matchParticle, termSlots]
      split
      · exact findsFirst_optional (firstMatch_findsFirst fun p hp => ih (h p hp))
      · exact firstMatch_findsFirst fun p hp => ih (h p hp)
    | all ps => exact firstMatch_findsFirst fun p hp => ih (h p hp)

/-! ### Content models -/

/-- The slots of a content model. -/
def modelSlots (c : Catalog) (ps : List Particle) : List Slot := ps.flatMap (c.slots (maxDerivation + 1))

theorem findChild?_findsFirst {t : TypeDef} (hps : c.contentParticles t = .ok ps)
    (hres : ∀ p ∈ ps, c.Resolves (maxDerivation + 1) p) :
    FindsFirst c x .once (c.findChild? t x) (c.modelSlots ps) := by
  rw [findChild?, hps]
  exact firstMatch_findsFirst fun p hp => matchParticle_findsFirst (hres p hp)

theorem occurs_once (s : Slot) : (s.inside .once).occurs = s.occurs := by
  simp [Slot.inside, Slot.occurs, Occurs.once, MaxOccurs.toENat]

/-- A child is found with the bounds of the first slot that admits its name. -/
theorem findChild?_slot {t : TypeDef} (hps : c.contentParticles t = .ok ps)
    (hres : ∀ p ∈ ps, c.Resolves (maxDerivation + 1) p) :
    ∃ found?, c.findChild? t x = .ok found? ∧
      found?.map (·.occurs) = ((c.modelSlots ps).find? fun s => s.filler.admits c x).map Slot.occurs := by
  obtain ⟨found?, hfound, hoccurs⟩ := findChild?_findsFirst hps hres
  exact ⟨found?, hfound, hoccurs.trans (congrArg (Option.map · _) (funext occurs_once))⟩

end Schema.Catalog

end FeatureTables
