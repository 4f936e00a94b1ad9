import FeatureTables.Proofs.Schema.Slots
import Mathlib.Algebra.BigOperators.Ring.List
import Mathlib.Algebra.Order.BigOperators.Group.List
import Mathlib.Data.ENat.Lattice

/-!
The bounds that the declaration of a child is found with, against the words of the content model. A word
has no more of a name than all slots allow together that admit it (`count_le_capacity`), and as many as
a slot requires that admits no other name (`least_le_count`). The bounds of the first slot are sound so
far (`found_bounds_sound`).
-/

namespace FeatureTables.Schema.Catalog

variable {c : Catalog} {x : QName} {n : ℕ} {p : Particle} {ps : List Particle} {w : List QName}

/-! ### What words have of a name -/

theorem count_flatten_le {ws : List (List QName)} {k : ℕ∞} (h : ∀ w ∈ ws, (w.count x : ℕ∞) ≤ k) :
    (ws.flatten.count x : ℕ∞) ≤ k * ws.length := by
  induction ws with
  | nil => simp
  | cons w ws ih =>
    rw [List.flatten_cons, List.count_append, Nat.cast_add, List.length_cons, Nat.cast_add,
      Nat.cast_one, mul_add, mul_one, add_comm]
    exact add_le_add (ih fun v hv => h v (List.mem_cons_of_mem _ hv)) (h w List.mem_cons_self)

theorem le_count_flatten {ws : List (List QName)} {k : ℕ} (h : ∀ w ∈ ws, k ≤ w.count x) :
    k * ws.length ≤ ws.flatten.count x := by
  induction ws with
  | nil => simp
  | cons w ws ih =>
    rw [List.flatten_cons, List.count_append, List.length_cons, Nat.mul_succ, Nat.add_comm]
    exact Nat.add_le_add (h w List.mem_cons_self) (ih fun v hv => h v (List.mem_cons_of_mem _ hv))

/-- How often a name may stand in a term, given how often it may stand in particles: in all members of a
sequence, but in one branch of a choice only. -/
noncomputable def termCapacity (c : Catalog) (x : QName) (capacityOf : Particle → ℕ∞) : Term → ℕ∞
  | .element ref =>
    match c.declOfRef ref with
    | .ok decl => if c.standsFor decl x then 1 else 0
    | .error _ => 0
  | .any => if (c.elements.get? x).isSome then 1 else 0
  | .group name =>
    match c.groups.get? name with
    | some p => capacityOf p
    | none => 0
  | .sequence ps | .all ps => (ps.map capacityOf).sum
  | .choice ps => (ps.map capacityOf).foldr max 0

/-- How often a name may stand in a particle that nests less than `n` deep. -/
noncomputable def capacity (c : Catalog) (x : QName) : ℕ → Particle → ℕ∞
  | 0, _ => 0
  | n + 1, ⟨own, term⟩ => c.termCapacity x (c.capacity x n) term * own.max.toENat

theorem count_le_sum {capacityOf : Particle → ℕ∞} (hw : SpellsAll c ps w)
    (h : ∀ p ∈ ps, ∀ v, Spells c p v → (v.count x : ℕ∞) ≤ capacityOf p) :
    (w.count x : ℕ∞) ≤ (ps.map capacityOf).sum := by
  induction ps generalizing w with
  | nil =>
    cases hw
    simp
  | cons p ps ih =>
    cases hw with
    | cons hv hw =>
      rw [List.count_append, Nat.cast_add, List.map_cons, List.sum_cons]
      exact add_le_add (h p List.mem_cons_self _ hv)
        (ih hw fun q hq => h q (List.mem_cons_of_mem _ hq))

theorem le_foldr_max {capacityOf : Particle → ℕ∞} (hp : p ∈ ps) :
    capacityOf p ≤ (ps.map capacityOf).foldr max 0 := by
  induction ps with
  | nil => cases hp
  | cons q ps ih =>
    rw [List.map_cons, List.foldr_cons, le_max_iff]
    rcases List.mem_cons.1 hp with rfl | hp
    · exact Or.inl le_rfl
    · exact Or.inr (ih hp)

theorem count_le_capacity (hp : c.Resolves n p) (hw : Spells c p w) :
    (w.count x : ℕ∞) ≤ c.capacity x n p := by
  induction n generalizing p w with
  | zero => exact hp.elim
  | succ n ih =>
    cases hw with
    | @repeated own term ws hmin hmax hws =>
      have honce : ∀ w ∈ ws, (w.count x : ℕ∞) ≤ c.termCapacity x (c.capacity x n) term := by
        intro w hw
        cases hws w hw with
        | @element ref decl y hdecl hy =>
          rw [termCapacity, hdecl]
          by_cases hxy : y = x
          · subst hxy; simp [hy]
          · simp [hxy]
        | @any y hy =>
          rw [termCapacity]
          by_cases hxy : y = x
          · subst hxy; simp [hy]
          · simp [hxy]
        | @group name p w hp' hw =>
          obtain ⟨p', hp'', hres⟩ := hp
          obtain rfl := Option.some.inj (hp'.symm.trans hp'')
          rw [termCapacity, hp']
          exact ih hres hw
        | sequence hw => exact count_le_sum hw fun p hp' v hv => ih (hp p hp') hv
        | choice hp' hw => exact (ih (hp _ hp') hw).trans (le_foldr_max hp')
        | all hv hperm =>
          rw [← hperm.count_eq]
          exact count_le_sum hv fun p hp' v hv => ih (hp p hp') hv
      exact (count_flatten_le honce).trans (mul_le_mul_right (MaxOccurs.allows_iff.1 hmax) _)

/-! ### What slots allow and require -/

/-- How often slots together allow a name. -/
def allowance (c : Catalog) (x : QName) (ss : List Slot) : ℕ∞ :=
  ((ss.filter fun s => s.filler.admits c x).map Slot.most).sum

theorem allowance_flatMap {slotsOf : Particle → List Slot} :
    c.allowance x (ps.flatMap slotsOf) = (ps.map fun p => c.allowance x (slotsOf p)).sum := by
  induction ps with
  | nil => rfl
  | cons p ps ih =>
    rw [List.map_cons, List.sum_cons, ← ih, allowance, List.flatMap_cons, List.filter_append,
      List.map_append, List.sum_append, allowance, allowance]

theorem allowance_inside {own : Occurs} {ss : List Slot} :
    c.allowance x (ss.map (Slot.inside own)) = c.allowance x ss * own.max.toENat := by
  rw [allowance, allowance, List.filter_map, List.map_map, ← List.sum_map_mul_right]
  rfl

theorem allowance_optional {ss : List Slot} :
    c.allowance x (ss.map Slot.optional) = c.allowance x ss := by
  rw [allowance, allowance, List.filter_map, List.map_map]
  rfl

theorem foldr_max_le_sum {ks : List ℕ∞} : ks.foldr max 0 ≤ ks.sum := by
  induction ks with
  | nil => exact le_rfl
  | cons k ks ih =>
    rw [List.foldr_cons, List.sum_cons]
    exact max_le le_self_add (ih.trans le_add_self)

theorem capacity_le_allowance : c.capacity x n p ≤ c.allowance x (c.slots n p) := by
  induction n generalizing p with
  | zero => exact le_rfl
  | succ n ih =>
    obtain ⟨own, term⟩ := p
    have hsum : ∀ ps : List Particle, (ps.map (c.capacity x n)).sum ≤
        c.allowance x (ps.flatMap (c.slots n)) := fun ps => by
      rw [allowance_flatMap]
      exact List.sum_le_sum fun p _ => ih
    rw [slots, allowance_inside, capacity]
    refine mul_le_mul_left ?_ _
    cases term with
    | element ref =>
      rw [termCapacity, termSlots]
      cases c.declOfRef ref with
      | error e => exact le_rfl
      | ok decl => cases h : c.standsFor decl x <;> simp [allowance, Filler.admits, h]
    | any =>
      rw [termCapacity, termSlots]
      cases h : (c.elements.get? x).isSome <;> simp [allowance, Filler.admits, h]
    | group name =>
      rw [termCapacity, termSlots]
      cases c.groups.get? name with
      | none => exact le_rfl
      | some p => exact ih
    | sequence ps => exact hsum ps
    | choice ps =>
      refine foldr_max_le_sum.trans ((hsum ps).trans ?_)
      rw [termSlots]
      split
      · exact le_of_eq allowance_optional.symm
      · exact le_rfl
    | all ps => exact hsum ps

theorem le_count_of_mem {k : ℕ} (hw : SpellsAll c ps w) (hp : p ∈ ps)
    (h : ∀ v, Spells c p v → k ≤ v.count x) : k ≤ w.count x := by
  induction ps generalizing w with
  | nil => cases hp
  | cons q ps ih =>
    cases hw with
    | cons hv hw =>
      rw [List.count_append]
      rcases List.mem_cons.1 hp with rfl | hp
      · exact (h _ hv).trans (Nat.le_add_right _ _)
      · exact (ih hw hp).trans (Nat.le_add_left _ _)

/-- A word has a name as often as a slot requires that admits no other name. -/
theorem least_le_count {s : Slot} (hs : s ∈ c.slots n p)
    (honly : ∀ y, s.filler.admits c y = true → y = x) (hw : Spells c p w) :
    s.least ≤ w.count x := by
  induction n generalizing p w s with
  | zero => cases hs
  | succ n ih =>
    cases hw with
    | @repeated own term ws hmin hmax hws =>
      obtain ⟨s', hs', rfl⟩ := List.mem_map.1 hs
      have hall : ∀ {ps w}, s' ∈ ps.flatMap (c.slots n) → SpellsAll c ps w → s'.least ≤ w.count x := by
        intro ps w hs' hw
        obtain ⟨p, hp, hs'⟩ := List.mem_flatMap.1 hs'
        exact le_count_of_mem hw hp fun v hv => ih hs' honly hv
      have honce : ∀ w ∈ ws, s'.least ≤ w.count x := by
        intro w hw
        cases hws w hw with
        | @element ref decl y hdecl hy =>
          rw [termSlots.eq_1, hdecl] at hs'
          obtain rfl := List.mem_singleton.1 hs'
          simp [honly y hy]
        | @any y hy =>
          obtain rfl := List.mem_singleton.1 hs'
          simp [honly y hy]
        | @group name p w hp hw =>
          rw [termSlots.eq_3, hp] at hs'
          exact ih hs' honly hw
        | sequence hw => exact hall hs' hw
        | @choice ps p w hp hw =>
          rw [termSlots.eq_6] at hs'
          split at hs'
          · obtain ⟨s'', -, rfl⟩ := List.mem_map.1 hs'
            exact Nat.zero_le _
          · obtain ⟨q, rfl⟩ := List.length_eq_one_iff.1
              (Nat.le_antisymm (by omega) (List.length_pos_of_mem hp))
            obtain rfl := List.mem_singleton.1 hp
            rw [List.flatMap_singleton] at hs'
            exact ih hs' honly hw
        | all hv hperm =>
          rw [← hperm.count_eq]
          exact hall hs' hv
      exact (Nat.mul_le_mul_left _ hmin).trans (le_count_flatten honce)

/-! ### Content models -/

/-- How often a name may stand in a content model. -/
noncomputable def modelCapacity (c : Catalog) (x : QName) (ps : List Particle) : ℕ∞ :=
  (ps.map (c.capacity x (maxDerivation + 1))).sum

section Model

variable {t : TypeDef}

theorem count_le_modelCapacity (hres : ∀ p ∈ ps, c.Resolves (maxDerivation + 1) p)
    (hw : SpellsAll c ps w) : (w.count x : ℕ∞) ≤ c.modelCapacity x ps :=
  count_le_sum hw fun p hp _ hv => count_le_capacity (hres p hp) hv

theorem modelCapacity_le_allowance : c.modelCapacity x ps ≤ c.allowance x (c.modelSlots ps) := by
  rw [modelSlots, allowance_flatMap]
  exact List.sum_le_sum fun p _ => capacity_le_allowance

theorem least_le_count_model {s : Slot} (hs : s ∈ c.modelSlots ps)
    (honly : ∀ y, s.filler.admits c y = true → y = x) (hw : SpellsAll c ps w) :
    s.least ≤ w.count x := by
  obtain ⟨p, hp, hs⟩ := List.mem_flatMap.1 hs
  exact le_count_of_mem hw hp fun v hv => least_le_count hs honly hv

/-- The bounds of children are sound as far as those of the first match speak for a name. Each name in a
word of the content model is found, with the bounds of the first slot that admits it, and stands in the
word as often as all slots allow together at most. So the upper bound holds where the first slot allows as
much as all of them, in particular if it is the only one, up to the largest count; and the lower bound
holds where no other name can stand at the first slot. -/
theorem found_bounds_sound (hps : c.contentParticles t = .ok ps)
    (hres : ∀ p ∈ ps, c.Resolves (maxDerivation + 1) p) (hw : SpellsAll c ps w) (x : QName) :
    (x ∈ w → ∃ m, c.findChild? t x = .ok (some m)) ∧
    (w.count x : ℕ∞) ≤ c.modelCapacity x ps ∧
    ∀ m, c.findChild? t x = .ok (some m) →
      ∃ s, (c.modelSlots ps).find? (fun s => s.filler.admits c x) = some s ∧ m.occurs = s.occurs ∧
        ((c.modelSlots ps).filter (fun s => s.filler.admits c x) = [s] →
          c.modelCapacity x ps ≤ s.most) ∧
        (c.modelCapacity x ps ≤ s.most → m.occurs.max ≠ .bounded countMax →
          m.occurs.max.allows (w.count x) = true) ∧
        ((∀ y, s.filler.admits c y = true → y = x) → m.occurs.min ≤ w.count x) := by
  obtain ⟨found?, hfound, hoccurs⟩ := findChild?_slot (x := x) hps hres
  have hcount := count_le_modelCapacity (x := x) hres hw
  refine ⟨fun hx => ?_, hcount, fun m hm => ?_⟩
  · cases found? with
    | some m => exact ⟨m, hfound⟩
    | none =>
      -- no slot admits the name, so that no word has it
      have hnone := List.find?_eq_none.1 (Option.map_eq_none_iff.1 hoccurs.symm)
      have hzero : c.allowance x (c.modelSlots ps) = 0 := by
        rw [allowance, List.filter_eq_nil_iff.2 hnone]
        rfl
      have hle := hcount.trans (modelCapacity_le_allowance.trans_eq hzero)
      have hpos := List.count_pos_iff.2 hx
      have : w.count x = 0 := by simpa using hle
      omega
  · obtain rfl := Except.ok.inj (hfound.symm.trans hm)
    obtain ⟨s, hs, hsm⟩ := Option.map_eq_some_iff.1 hoccurs.symm
    refine ⟨s, hs, hsm.symm, fun honly => ?_, fun hcap hne => ?_, fun honly => ?_⟩
    · refine modelCapacity_le_allowance.trans_eq ?_
      rw [allowance, honly]
      simp
    · have hmax : m.occurs.max = .capped s.most := congrArg Occurs.max hsm.symm
      rw [hmax] at hne ⊢
      rw [MaxOccurs.allows_iff, MaxOccurs.toENat_capped hne]
      exact hcount.trans hcap
    · have hmin : m.occurs.min = min s.least countMax := congrArg Occurs.min hsm.symm
      rw [hmin]
      exact (Nat.min_le_left _ _).trans
        (least_le_count_model (List.mem_of_find?_eq_some hs) honly hw)

end Model

/-! ### Where the first match does not speak for a name -/

/-- An element of any type. -/
def plainElement (name : String) (isAbstract : Bool) (head? : Option QName) : ElementDecl :=
  ⟨.plain name, none, isAbstract, false, head?, true⟩

/-- A type whose content is a sequence. -/
def sequenceType (ps : List Particle) : TypeDef :=
  .complex {
    site := default, name? := none, base? := none, derivation := .restriction,
    content := .elementOnly, particle? := some ⟨.once, .sequence ps⟩, attributes := [],
    attributeGroups := [], anyAttribute := false, isAbstract := false }

theorem contentParticles_sequenceType :
    c.contentParticles (sequenceType ps) = .ok [⟨.once, .sequence ps⟩] := rfl

/-- A particle for an element that is declared in place. -/
def localParticle (occurs : Occurs) (name : String) : Particle :=
  ⟨occurs, .element (.inPlace (plainElement name false none))⟩

theorem spells_local {occurs : Occurs} {name : String} (ws : List (List QName))
    (hmin : occurs.min ≤ ws.length) (hmax : occurs.max.allows ws.length = true)
    (hws : ∀ w ∈ ws, w = [.plain name]) : Spells c (localParticle occurs name) ws.flatten := by
  refine .repeated hmin hmax fun w hw => ?_
  rw [hws w hw]
  exact .element rfl (by simp [standsFor, plainElement])

theorem resolves_local {occurs : Occurs} {name : String}
    (hnone : c.substitutes = []) : c.Resolves (n + 1) (localParticle occurs name) := by
  refine ⟨_, rfl, fun m hm => ?_⟩
  simp [substitutionGroup, membersFrom, hnone] at hm

theorem spells_once {term : Term} (h : SpellsOnce c term w) : SpellsAll c [⟨.once, term⟩] w := by
  have hone : Spells c ⟨.once, term⟩ [w].flatten :=
    .repeated le_rfl rfl fun v hv => List.mem_singleton.1 hv ▸ h
  simpa using SpellsAll.cons hone .nil

theorem resolves_sequence (h : ∀ p ∈ ps, c.Resolves n p) :
    ∀ p ∈ [(⟨.once, .sequence ps⟩ : Particle)], c.Resolves (n + 1) p :=
  fun _ hp => List.mem_singleton.1 hp ▸ h

/-- One element `b` and up to three elements `c`. -/
def fewParticles : List Particle := [localParticle .once "b", localParticle ⟨0, .bounded 3⟩ "c"]

/-- In a word of these, both elements keep to the bounds that they are found with. -/
theorem few_within_bounds : ∃ mb mc : ChildMatch,
    ({} : Catalog).findChild? (sequenceType fewParticles) (.plain "b") = .ok (some mb) ∧
    ({} : Catalog).findChild? (sequenceType fewParticles) (.plain "c") = .ok (some mc) ∧
    mb.occurs.min ≤ [QName.plain "b", .plain "c", .plain "c"].count (.plain "b") ∧
    mc.occurs.max.allows ([QName.plain "b", .plain "c", .plain "c"].count (.plain "c")) = true := by
  have hres : ∀ p ∈ fewParticles, ({} : Catalog).Resolves maxDerivation p :=
    List.forall_mem_cons.2 ⟨resolves_local rfl, List.forall_mem_singleton.2 (resolves_local rfl)⟩
  have hword : SpellsAll {} fewParticles [.plain "b", .plain "c", .plain "c"] :=
    .cons (spells_local [[.plain "b"]] (by decide) (by decide) (by decide))
      (.cons (spells_local [[.plain "c"], [.plain "c"]] (by decide) (by decide) (by decide)) .nil)
  have hsound := found_bounds_sound contentParticles_sequenceType (resolves_sequence hres)
    (spells_once (.sequence hword))
  obtain ⟨hfoundb, -, hb⟩ := hsound (.plain "b")
  obtain ⟨hfoundc, -, hc⟩ := hsound (.plain "c")
  obtain ⟨mb, hmb⟩ := hfoundb (by decide)
  obtain ⟨mc, hmc⟩ := hfoundc (by decide)
  obtain ⟨sb, hsb, hob, -, -, hleast⟩ := hb mb hmb
  obtain ⟨sc, hsc, hoc, honly, hmost, -⟩ := hc mc hmc
  refine ⟨mb, mc, hmb, hmc, hleast fun y hy => ?_, hmost (honly ?_) ?_⟩
  · have hfiller : sb.filler = .element (plainElement "b" false none) :=
      (Option.some.inj ((congrArg (Option.map Slot.filler) hsb).symm.trans rfl))
    rw [hfiller] at hy
    simp [Filler.admits, standsFor, plainElement, substitutionGroup, membersFrom] at hy
    exact hy.symm
  · obtain ⟨s, hs⟩ : ∃ s, (({} : Catalog).modelSlots [⟨.once, .sequence fewParticles⟩]).filter
        (fun s => s.filler.admits {} (.plain "c")) = [s] := ⟨_, rfl⟩
    rw [← List.head?_filter, hs] at hsc
    rw [hs, Option.some.inj hsc]
  · have hoccurs : mc.occurs = ⟨0, .bounded 3⟩ :=
      congrArg ChildMatch.occurs (Option.some.inj (Except.ok.inj (hmc.symm.trans rfl)))
    rw [hoccurs]
    decide

/-- An element `b` on both sides of an element `c`. -/
def twiceParticles : List Particle :=
  [localParticle .once "b", localParticle .once "c", localParticle .once "b"]

/-- A head that is no abstract element, and a member of its substitution group. -/
def headCatalog : Catalog :=
  ({} : Catalog).register
    { target? := none, elements := [plainElement "h" false none, plainElement "m" false (some (.plain "h"))] }

/-- A word with more of an element than the bounds allow that it is found with, as a second particle
allows it too; and words with less of an element than the bounds require, as a member of its group or
another element stands in its place. -/
theorem first_match_too_narrow :
    (∃ ps w m, ({} : Catalog).contentParticles (sequenceType twiceParticles) = .ok ps ∧
      (∀ p ∈ ps, ({} : Catalog).Resolves maxDerivation p) ∧ SpellsAll {} ps w ∧ QName.plain "b" ∈ w ∧
      ({} : Catalog).findChild? (sequenceType twiceParticles) (.plain "b") = .ok (some m) ∧
      m.occurs.max.allows (w.count (.plain "b")) = false) ∧
    ∀ term ∈ [Term.element (.global (.plain "h")), .any],
      ∃ ps w m, headCatalog.contentParticles (sequenceType [⟨.once, term⟩]) = .ok ps ∧
        (∀ p ∈ ps, headCatalog.Resolves maxDerivation p) ∧ SpellsAll headCatalog ps w ∧
        headCatalog.findChild? (sequenceType [⟨.once, term⟩]) (.plain "h") = .ok (some m) ∧
        m.head? = none ∧ w.count (.plain "h") < m.occurs.min := by
  refine ⟨?_, List.forall_mem_cons.2 ⟨?_, List.forall_mem_singleton.2 ?_⟩⟩
  · refine ⟨_, [.plain "b", .plain "c", .plain "b"], _, contentParticles_sequenceType,
      resolves_sequence fun p hp => ?_, spells_once (.sequence ?_), by decide, rfl, by decide⟩
    · simp only [twiceParticles, List.mem_cons, List.not_mem_nil, or_false] at hp
      rcases hp with rfl | rfl | rfl <;> exact resolves_local rfl
    · exact .cons (spells_local [[.plain "b"]] (by decide) (by decide) (by decide))
        (.cons (spells_local [[.plain "c"]] (by decide) (by decide) (by decide))
          (.cons (spells_local [[.plain "b"]] (by decide) (by decide) (by decide)) .nil))
  · refine ⟨_, [.plain "m"], _, contentParticles_sequenceType,
      resolves_sequence (List.forall_mem_singleton.2 ⟨_, rfl, fun m hm _ => ?_⟩),
      spells_once (.sequence (spells_once (.element rfl (by decide)))), rfl, rfl, by decide⟩
    obtain rfl : m = plainElement "m" false (some (.plain "h")) := List.mem_singleton.1 hm
    exact ⟨Builtin.anyType, Builtin.anyType, rfl, rfl, by decide⟩
  · exact ⟨_, [.plain "m"], _, contentParticles_sequenceType,
      resolves_sequence (List.forall_mem_singleton.2 trivial),
      spells_once (.sequence (spells_once (.any (by decide)))), rfl, rfl, by decide⟩

end FeatureTables.Schema.Catalog
