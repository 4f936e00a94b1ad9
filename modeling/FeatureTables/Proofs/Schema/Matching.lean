import FeatureTables.Proofs.Schema.Closure
import FeatureTables.Proofs.Schema.Slots

/-!
How a child comes to its declaration. If a content model has a match for a child, it is at the first slot
that admits its name (`findChild?_matched`), and it has a concrete declaration of this name there, unless
the slot is a wildcard: this takes any global declaration. The global declarations of a catalog that was
loaded stand under their own names (`load_keyed`), and a type that is found to derive from another one
does so along its bases (`derives_of_derivesFrom`).
-/

namespace FeatureTables.Schema.Catalog

/-! ### Matches -/

/-- How a name is matched at a slot: by a declaration of this name, by a member of the substitution group
of a declaration, or at a wildcard. -/
inductive Binds (c : Catalog) (x : QName) : Filler → ChildMatch → Prop
  | own {decl : ElementDecl} {occurs : Occurs} : decl.name = x → decl.isAbstract = false →
    Binds c x (.element decl) { decl, occurs }
  | member {head decl : ElementDecl} {occurs : Occurs} : decl ∈ c.substitutionGroup head.name →
    decl.name = x → decl.isAbstract = false →
    Binds c x (.element head) { decl, occurs, head? := some head }
  | wildcard {decl : ElementDecl} {occurs : Occurs} : c.elements.get? x = some decl →
    Binds c x .any { decl, occurs }

/-- The match is one at the first slot that admits the name; there is none if no slot does. -/
def MatchedAt (c : Catalog) (x : QName) (ss : List Slot) : Option ChildMatch → Prop
  | none => ss.find? (fun s => s.filler.admits c x) = none
  | some m => ∃ s, ss.find? (fun s => s.filler.admits c x) = some s ∧ c.Binds x s.filler m

section Matching

variable {c : Catalog} {x : QName} {n : ℕ} {outer : Occurs} {p : Particle} {ps : List Particle}
  {ss : List Slot} {found? : Option ChildMatch}

/-- Bounds have no part in this. -/
theorem MatchedAt.map {f : Slot → Slot} (hf : ∀ s, (f s).filler = s.filler)
    (h : c.MatchedAt x ss found?) : c.MatchedAt x (ss.map f) found? := by
  have hfind : (ss.map f).find? (fun s => s.filler.admits c x) =
      (ss.find? fun s => s.filler.admits c x).map f := by
    rw [List.find?_map]
    exact congrArg (fun q => (ss.find? q).map f) (funext fun s => by rw [Function.comp, hf])
  cases found? with
  | none => exact hfind.trans (by rw [show ss.find? _ = none from h]; rfl)
  | some m =>
    obtain ⟨s, hs, hm⟩ := h
    exact ⟨f s, hfind.trans (by rw [hs]; rfl), (hf s).symm ▸ hm⟩

theorem matchElement_matched {ref : ElementRef} {decl : ElementDecl} {occurs : Occurs}
    (hdecl : c.declOfRef ref = .ok decl) (h : c.matchElement ref occurs x = .ok found?) :
    c.MatchedAt x [⟨.element decl, 1, 1⟩] found? := by
  have hadmits : ∀ b, c.standsFor decl x = b →
      [(⟨.element decl, 1, 1⟩ : Slot)].find? (fun s => s.filler.admits c x) =
        if b then some ⟨.element decl, 1, 1⟩ else none := by
    rintro b rfl
    cases h : c.standsFor decl x <;> simp [Filler.admits, h]
  rw [matchElement, hdecl] at h
  change (if decl.name = x ∧ ¬ decl.isAbstract then _ else _) = _ at h
  split at h
  · next hown =>
    obtain rfl := Except.ok.inj h
    exact ⟨_, hadmits true (standsFor_iff.2 (Or.inl hown)), .own hown.1 (by simpa using hown.2)⟩
  · next hown =>
    split at h
    · next hfind =>
      obtain rfl := Except.ok.inj h
      refine hadmits false (Bool.eq_false_iff.2 fun hstands => ?_)
      rcases standsFor_iff.1 hstands with h | h
      · exact hown h
      · rw [hfind] at h
        cases h
    · next member hfind =>
      obtain ⟨headType, -, h⟩ := bind_eq_ok_iff.1 h
      obtain ⟨memberType, -, h⟩ := bind_eq_ok_iff.1 h
      split at h
      · obtain rfl := Except.ok.inj h
        have hstands := standsFor_iff.2 (Or.inr (by rw [hfind]; rfl))
        have hmember := List.find?_some hfind
        rw [Bool.and_eq_true, beq_iff_eq, Bool.not_eq_true'] at hmember
        exact ⟨_, hadmits true hstands, .member (List.mem_of_find?_eq_some hfind) hmember.1 hmember.2⟩
      · cases h

theorem firstMatch_matched {f : Particle → Except Error (Option ChildMatch)}
    {slotsOf : Particle → List Slot}
    (hf : ∀ p ∈ ps, ∀ m?, f p = .ok m? → c.MatchedAt x (slotsOf p) m?)
    (h : firstMatch f ps = .ok found?) : c.MatchedAt x (ps.flatMap slotsOf) found? := by
  induction ps with
  | nil =>
    obtain rfl := Except.ok.inj h
    rfl
  | cons p ps ih =>
    obtain ⟨m?, hm, h⟩ := bind_eq_ok_iff.1 h
    have hp := hf p List.mem_cons_self m? hm
    rw [List.flatMap_cons]
    cases m? with
    | some m =>
      obtain rfl := Except.ok.inj h
      obtain ⟨s, hs, hbinds⟩ := hp
      exact ⟨s, by rw [List.find?_append, hs]; rfl, hbinds⟩
    | none =>
      have hps := ih (fun q hq => hf q (List.mem_cons_of_mem _ hq)) h
      have hfind : (slotsOf p ++ ps.flatMap slotsOf).find? (fun s => s.filler.admits c x) =
          (ps.flatMap slotsOf).find? fun s => s.filler.admits c x := by
        rw [List.find?_append, show (slotsOf p).find? _ = none from hp, Option.none_or]
      cases found? with
      | none => exact hfind.trans hps
      | some m =>
        obtain ⟨s, hs, hbinds⟩ := hps
        exact ⟨s, hfind.trans hs, hbinds⟩

theorem matchParticle_matched (h : c.matchParticle x n outer p = .ok found?) :
    c.MatchedAt x (c.slots n p) found? := by
  induction n generalizing p outer found? with
  | zero =>
    obtain rfl := Except.ok.inj h
    rfl
  | succ n ih =>
    obtain ⟨own, term⟩ := p
    refine MatchedAt.map (fun _ => rfl) ?_
    cases term with
    | element ref =>
      rw [termSlots]
      cases hdecl : c.declOfRef ref with
      | ok decl => exact matchElement_matched hdecl h
      | error e =>
        rw [matchParticle, matchElement, hdecl] at h
        cases h
    | any =>
      obtain rfl := Except.ok.inj h
      cases hx : c.elements.get? x with
      | none => simp [MatchedAt, termSlots, Filler.admits, hx]
      | some decl => exact ⟨⟨.any, 1, 1⟩, by simp [termSlots, Filler.admits, hx], .wildcard hx⟩
    | group name =>
      rw [matchParticle] at h
      rw [termSlots]
      cases hp : c.groups.get? name with
      | none =>
        rw [hp] at h
        cases h
      | some p =>
        rw [hp] at h
        exact ih h
    | sequence ps | all ps => exact firstMatch_matched (fun p _ m? hm => ih hm) h
    | choice ps =>
      rw [matchParticle] at h
      rw [termSlots]
      have hps := firstMatch_matched (fun p _ m? hm => ih hm) h
      split
      · exact hps.map fun _ => rfl
      · exact hps

/-- A child that a content model has a match for is matched at the first slot that admits its name. -/
theorem findChild?_matched {t : TypeDef} {m : ChildMatch} (h : c.findChild? t x = .ok (some m)) :
    ∃ ps s, c.contentParticles t = .ok ps ∧
      (c.modelSlots ps).find? (fun s => s.filler.admits c x) = some s ∧ c.Binds x s.filler m := by
  obtain ⟨ps, hps, h⟩ := bind_eq_ok_iff.1 h
  obtain ⟨s, hs, hbinds⟩ := firstMatch_matched (fun p _ m? hm => matchParticle_matched hm) h
  exact ⟨ps, s, hps, hs, hbinds⟩

end Matching

/-! ### Loaded catalogs -/

theorem get?_putAll_cases {κ α : Type} [DecidableEq κ] {m : OrderedMap κ α} {es : List (κ × α)} {k : κ}
    {v : α} (h : (m.putAll es).get? k = some v) : m.get? k = some v ∨ (k, v) ∈ es := by
  induction es generalizing m with
  | nil => exact Or.inl h
  | cons e es ih =>
    rcases ih (m := m.put e.1 e.2) h with h | h
    · rw [OrderedMap.get?_put] at h
      split at h
      · next hk =>
        obtain rfl := Option.some.inj h
        exact Or.inr (hk ▸ List.mem_cons_self)
      · exact Or.inl h
    · exact Or.inr (List.mem_cons_of_mem _ h)

/-- Global declarations of elements stand under their own names. -/
def Keyed (c : Catalog) : Prop := ∀ name decl, c.elements.get? name = some decl → decl.name = name

theorem Keyed.adding {c : Catalog} (h : c.Keyed) (e : Pending × Declarations) : (c.adding e).Keyed := by
  intro name decl hdecl
  rw [(adding_parts c e).1] at hdecl
  rcases get?_putAll_cases hdecl with hdecl | hdecl
  · exact h name decl hdecl
  · obtain ⟨_, -, heq⟩ := List.mem_map.1 hdecl
    obtain ⟨rfl, rfl⟩ := Prod.mk.inj heq
    rfl

theorem keyed_foldl_adding {c : Catalog} (h : c.Keyed) (ds : List (Pending × Declarations)) :
    (ds.foldl Catalog.adding c).Keyed := by
  induction ds generalizing c with
  | nil => exact h
  | cons e ds ih => exact ih (h.adding e)

theorem load_keyed {fetch : Location → Except Error Bytes} {limits : Limits} {roots : List Location}
    {c : Catalog} (h : Catalog.load fetch limits roots = .ok c) : c.Keyed := by
  obtain ⟨ps, r, hloads, -, hrun⟩ := Loading.exists_loads fetch limits
    (limits.schemaDocuments + 1) { queue := roots.map fun l => (l, none) } (Nat.zero_le _) (by simp)
  have hresult : Catalog.load fetch limits roots = r := by
    show Loading.run (m := Id) fetch limits (limits.schemaDocuments + 1) _ = r
    rw [Loading.run_eq_logged _ _ [], hrun _ (Nat.le_refl _)]
  rcases hloads.explored (Loading.explored_start fetch limits roots) with
    ⟨l, ds, hr, hexplored, -⟩ | ⟨⟨e, hr⟩, -⟩
  · obtain rfl := Except.ok.inj (h.symm.trans (hresult.trans hr))
    rw [hexplored.catalog]
    exact keyed_foldl_adding (fun _ _ h => by cases h) ds
  · cases h.symm.trans (hresult.trans hr)

/-! ### Derivation -/

/-- The base that a type names or has in it. -/
def BaseOf (c : Catalog) (t b : TypeDef) : Prop := ∃ ref, t.base? = some ref ∧ c.resolveType ref = .ok b

/-- A type derives from another one along its bases; types are told by name, or by site. -/
def Derives (c : Catalog) (t u : TypeDef) : Prop := ∃ b, Relation.ReflTransGen c.BaseOf t b ∧ b.same u

theorem BaseOf.eq {c : Catalog} {t b b' : TypeDef} (h : c.BaseOf t b) (h' : c.BaseOf t b') :
    b = b' := by
  obtain ⟨ref, hbase, hb⟩ := h
  obtain ⟨ref', hbase', hb'⟩ := h'
  obtain rfl := Option.some.inj (hbase.symm.trans hbase')
  exact Except.ok.inj (hb.symm.trans hb')

/-- The chain of a type goes on with its base, if that is there. -/
theorem chainFrom_succ (c : Catalog) (n : ℕ) (t : TypeDef) :
    (∃ b, c.BaseOf t b ∧ (c.chainFrom (n + 1) t).1 = t :: (c.chainFrom n b).1) ∨
      (∀ b, ¬ c.BaseOf t b) ∧ (c.chainFrom (n + 1) t).1 = [t] := by
  rw [chainFrom]
  cases hbase : t.base? with
  | none =>
    refine Or.inr ⟨?_, rfl⟩
    rintro b ⟨ref, href, -⟩
    cases hbase.symm.trans href
  | some ref =>
    cases ref with
    | anonymous b => exact Or.inl ⟨b, ⟨_, hbase, rfl⟩, rfl⟩
    | named name =>
      dsimp only
      split
      · next htype =>
        refine Or.inr ⟨?_, rfl⟩
        rintro b ⟨ref, href, hb⟩
        obtain rfl := Option.some.inj (hbase.symm.trans href)
        rw [resolveType, htype] at hb
        cases hb
      · next b htype => exact Or.inl ⟨b, ⟨_, hbase, by rw [resolveType, htype]⟩, rfl⟩

theorem reflTransGen_of_chainFrom {c : Catalog} {n : ℕ} {t b : TypeDef}
    (h : b ∈ (c.chainFrom n t).1) : Relation.ReflTransGen c.BaseOf t b := by
  induction n generalizing t with
  | zero => exact List.mem_singleton.1 h ▸ .refl
  | succ n ih =>
    rcases c.chainFrom_succ n t with ⟨base, hbase, hchain⟩ | ⟨-, hchain⟩
    · rw [hchain] at h
      rcases List.mem_cons.1 h with rfl | h
      · exact .refl
      · exact .head hbase (ih h)
    · rw [hchain] at h
      exact List.mem_singleton.1 h ▸ .refl

theorem derives_of_derivesFrom {c : Catalog} {t u : TypeDef} (h : c.derivesFrom t u = true) :
    c.Derives t u := by
  obtain ⟨b, hb, hsame⟩ := List.any_eq_true.1 h
  exact ⟨b, reflTransGen_of_chainFrom hb, hsame⟩

end FeatureTables.Schema.Catalog
