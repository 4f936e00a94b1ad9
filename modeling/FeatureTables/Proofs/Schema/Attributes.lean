import FeatureTables.Proofs.Schema.Matching
import FeatureTables.Proofs.Schema.Registration
import FeatureTables.Schema.Content

/-!
The attributes of types. A type has the uses of its base, and its own ones in their place, also those of
groups that nest at most `maxDerivation` deep; it admits any attribute if it or its base does, where the
root of all types counts for extensions only (`attributes_effective`). Nothing is said of an inherited
use that a restriction prohibits, nor of the wildcard that an extension has from the root of all types.
-/

namespace FeatureTables.Schema

open Xml

/-! ### Maps laid over each other -/

section Overlays

variable {κ α β : Type} {R S : κ → α → Prop} {out out₁ out₂ : OrderedMap κ α} [DecidableEq κ]

/-- Each key with values in the relation has one of these, and the other keys have what they had. -/
def Overlays (R : κ → α → Prop) (out out' : OrderedMap κ α) : Prop :=
  ∀ k, (∃ v, R k v ∧ out'.get? k = some v) ∨ (∀ v, ¬ R k v) ∧ out'.get? k = out.get? k

theorem Overlays.congr (h : Overlays R out out₁) (hiff : ∀ k v, R k v ↔ S k v) :
    Overlays S out out₁ := by
  have heq : R = S := funext fun k => funext fun v => propext (hiff k v)
  exact heq ▸ h

theorem Overlays.trans (h : Overlays R out out₁) (h' : Overlays S out₁ out₂) :
    Overlays (fun k v => R k v ∨ S k v) out out₂ := by
  intro k
  rcases h' k with ⟨v, hv, hget⟩ | ⟨hnone, hget⟩
  · exact Or.inl ⟨v, Or.inr hv, hget⟩
  · rcases h k with ⟨v, hv, hget'⟩ | ⟨hnone', hget'⟩
    · exact Or.inl ⟨v, Or.inl hv, hget.trans hget'⟩
    · refine Or.inr ⟨fun v hv => ?_, hget.trans hget'⟩
      exact hv.elim (hnone' v) (hnone v)

theorem overlays_foldlM {xs : List β} {f : OrderedMap κ α → β → Except Error (OrderedMap κ α)}
    {R : β → κ → α → Prop}
    (hf : ∀ x ∈ xs, ∀ out, ∃ out', f out x = .ok out' ∧ Overlays (R x) out out')
    (out : OrderedMap κ α) :
    ∃ out', xs.foldlM f out = .ok out' ∧ Overlays (fun k v => ∃ x ∈ xs, R x k v) out out' := by
  induction xs generalizing out with
  | nil => exact ⟨out, rfl, fun k => Or.inr ⟨by simp, rfl⟩⟩
  | cons x xs ih =>
    obtain ⟨out₁, hstep, hover⟩ := hf x List.mem_cons_self out
    obtain ⟨out₂, hrest, hover'⟩ := ih (fun y hy => hf y (List.mem_cons_of_mem _ hy)) out₁
    refine ⟨out₂, ?_, (hover.trans hover').congr fun k v => ?_⟩
    · rw [List.foldlM_cons, hstep]
      exact hrest
    · simp only [List.exists_mem_cons_iff]

end Overlays

/-! ### Prohibited uses -/

/-- What the root of a document said of names, when the document was read under this number. -/
def Taken.context (t : Taken) (document : Nat) : Context where
  target? := t.own?.or t.pending.2
  adopts := t.own?.isNone && t.pending.2.isSome
  elementsQualified := t.root.attribute? "elementFormDefault" == some "qualified"
  attributesQualified := t.root.attribute? "attributeFormDefault" == some "qualified"
  location := t.pending.1.toText
  document

/-- The element names an attribute, one that it refers to or one that it declares. -/
def Context.Names (c : Context) (d : Element) (name : QName) : Prop :=
  c.reference? d "ref" = .ok (some name) ∨
    c.reference? d "ref" = .ok none ∧ ∃ s, d.attribute? "name" = some s ∧
      c.ownName d c.attributesQualified s = name

/-- The element that holds the attributes of the type which an element defines. -/
def attributesBody (e : Element) : Element :=
  (bodyOf (e.children.filter fun d =>
    d.localName == "simpleContent" || d.localName == "complexContent").getLast? e).1

/-- The type is a restriction, and its document marks the use of an attribute of this name in it as
prohibited. -/
def Prohibits (ts : List Taken) : TypeDef → QName → Prop
  | .simple _, _ => False
  | .complex t, name => t.derivation = .restriction ∧
    ∃ i d, t.site.document = i + 1 ∧ ts[i]? = some d ∧
      ∃ e ∈ d.root.descendants, e.id = t.site.node ∧
        ∃ use ∈ (attributesBody e).children, use.localName = "attribute" ∧
          use.attribute? "use" = some "prohibited" ∧ (d.context (i + 1)).Names use name

/-- The type is an extension. -/
def TypeDef.Extends : TypeDef → Prop
  | .simple _ => False
  | .complex t => t.derivation = .extension

instance : (t : TypeDef) → Decidable t.Extends
  | .simple _ => inferInstanceAs (Decidable False)
  | .complex t => inferInstanceAs (Decidable (t.derivation = .extension))

namespace Catalog

/-! ### Groups of attributes -/

/-- A group and the groups in it, with how deep these are nested. -/
inductive Nested (c : Catalog) : AttributeGroup → Nat → AttributeGroup → Prop
  | self (g : AttributeGroup) : Nested c g 0 g
  | inner {g h k : AttributeGroup} {name : QName} {n : Nat} : name ∈ g.attributeGroups →
    c.attributeGroups.get? name = some h → Nested c h n k → Nested c g (n + 1) k

/-- A use stands for an attribute of this name. -/
def Means (c : Catalog) (use : AttributeUse) (name : QName) (m : AttributeMatch) : Prop :=
  c.declOfUse use = .ok m.decl ∧ m.decl.name = name ∧ m.required = use.required

/-- A group has a use for an attribute of this name, in itself or in a nested group. -/
def Offers (c : Catalog) (g : AttributeGroup) (name : QName) (m : AttributeMatch) : Prop :=
  ∃ n k, c.Nested g n k ∧ ∃ use ∈ k.attributes, c.Means use name m

/-- A group has a wildcard, in itself or in a nested group. -/
def Admits (c : Catalog) (g : AttributeGroup) : Prop :=
  ∃ n k, c.Nested g n k ∧ k.anyAttribute = true

/-- A group and the nested ones refer to what is there, and they nest at most `n` deep. -/
structure Settled (c : Catalog) (n : Nat) (g : AttributeGroup) : Prop where
  uses : ∀ i k, c.Nested g i k → ∀ use ∈ k.attributes, ∃ decl, c.declOfUse use = .ok decl
  groups : ∀ i k, c.Nested g i k → ∀ name ∈ k.attributeGroups,
    ∃ h, c.attributeGroups.get? name = some h
  depth : ∀ i k, c.Nested g i k → i ≤ n

section Groups

variable {c : Catalog} {g h : AttributeGroup} {name : QName} {m : AttributeMatch} {n : ℕ}

theorem offers_iff : c.Offers g name m ↔ (∃ use ∈ g.attributes, c.Means use name m) ∨
    ∃ x ∈ g.attributeGroups, ∃ h, c.attributeGroups.get? x = some h ∧ c.Offers h name m := by
  constructor
  · rintro ⟨n, k, hk, huse⟩
    cases hk with
    | self => exact Or.inl huse
    | inner hx hh hk => exact Or.inr ⟨_, hx, _, hh, _, k, hk, huse⟩
  · rintro (huse | ⟨x, hx, h, hh, n, k, hk, huse⟩)
    · exact ⟨0, g, .self g, huse⟩
    · exact ⟨n + 1, k, .inner hx hh hk, huse⟩

theorem admits_iff : c.Admits g ↔ g.anyAttribute = true ∨
    ∃ x ∈ g.attributeGroups, ∃ h, c.attributeGroups.get? x = some h ∧ c.Admits h := by
  constructor
  · rintro ⟨n, k, hk, hany⟩
    cases hk with
    | self => exact Or.inl hany
    | inner hx hh hk => exact Or.inr ⟨_, hx, _, hh, _, k, hk, hany⟩
  · rintro (hany | ⟨x, hx, h, hh, n, k, hk, hany⟩)
    · exact ⟨0, g, .self g, hany⟩
    · exact ⟨n + 1, k, .inner hx hh hk, hany⟩

/-- The uses of a group stand for what they refer to; a later one replaces an earlier one. -/
theorem addUses_overlays (hg : ∀ use ∈ g.attributes, ∃ decl, c.declOfUse use = .ok decl)
    (out : OrderedMap QName AttributeMatch) : ∃ out', c.addUses g out = .ok out' ∧
      Overlays (fun name m => ∃ use ∈ g.attributes, c.Means use name m) out out' := by
  refine overlays_foldlM (fun use huse out => ?_) out
  obtain ⟨decl, hdecl⟩ := hg use huse
  refine ⟨out.put decl.name ⟨decl, use.required⟩, by rw [hdecl]; rfl, fun k => ?_⟩
  rw [OrderedMap.get?_put]
  split
  · next hk => exact Or.inl ⟨⟨decl, use.required⟩, ⟨hdecl, hk.symm, rfl⟩, rfl⟩
  · next hk =>
    refine Or.inr ⟨fun m hm => hk ?_, rfl⟩
    have hsame : decl = m.decl := Except.ok.inj (hdecl.symm.trans hm.1)
    rw [hsame]
    exact hm.2.1.symm

theorem Settled.inner (hg : c.Settled (n + 1) g) (hx : name ∈ g.attributeGroups)
    (hh : c.attributeGroups.get? name = some h) : c.Settled n h where
  uses i k hk := hg.uses (i + 1) k (.inner hx hh hk)
  groups i k hk := hg.groups (i + 1) k (.inner hx hh hk)
  depth i k hk := Nat.le_of_succ_le_succ (hg.depth (i + 1) k (.inner hx hh hk))

/-- Where groups nest no deeper there are none. -/
theorem Settled.no_groups (hg : c.Settled 0 g) (hx : name ∈ g.attributeGroups) :
    c.attributeGroups.get? name ≠ some h := by
  intro hh
  have := hg.depth 1 h (.inner hx hh (.self h))
  omega

/-- The uses of nested groups are collected behind those of the group itself. -/
theorem Settled.collectUses (hg : c.Settled n g) (out : OrderedMap QName AttributeMatch) :
    ∃ out', c.collectUses n g out = .ok out' ∧ Overlays (c.Offers g) out out' := by
  induction n generalizing g out with
  | zero =>
    obtain ⟨out', hadd, hover⟩ := addUses_overlays (hg.uses 0 g (.self g)) out
    refine ⟨out', hadd, hover.congr fun name m => ?_⟩
    rw [offers_iff]
    refine ⟨Or.inl, fun hoffers => hoffers.resolve_right ?_⟩
    rintro ⟨x, hx, h, hh, -⟩
    exact hg.no_groups hx hh
  | succ n ih =>
    obtain ⟨out₁, hadd, hover⟩ := addUses_overlays (hg.uses 0 g (.self g)) out
    rw [Catalog.collectUses, hadd]
    refine Exists.imp (fun out₂ h => ⟨h.1, (hover.trans h.2).congr fun name m => offers_iff.symm⟩)
      (overlays_foldlM (fun x hx out => ?_) out₁)
    obtain ⟨h, hh⟩ := hg.groups 0 g (.self g) x hx
    obtain ⟨out', hcollect, hover⟩ := ih (hg.inner hx hh) out
    refine ⟨out', by rw [hh]; exact hcollect, hover.congr fun name m => ?_⟩
    constructor
    · exact fun hm => ⟨h, hh, hm⟩
    · rintro ⟨h', hh', hm⟩
      exact Option.some.inj (hh.symm.trans hh') ▸ hm

/-- A wildcard is looked for in the group and in the nested ones. -/
theorem Settled.allowAny_iff (hg : c.Settled n g) :
    (g.anyAttribute || c.groupsAllowAny n g.attributeGroups) = true ↔ c.Admits g := by
  rw [Bool.or_eq_true, admits_iff]
  refine or_congr_right ?_
  induction n generalizing g with
  | zero =>
    constructor
    · intro hany
      rw [groupsAllowAny] at hany
      cases hany
    · rintro ⟨x, hx, h, hh, -⟩
      exact absurd hh (hg.no_groups hx)
  | succ n ih =>
    have hinner : ∀ x ∈ g.attributeGroups, ∀ h, c.attributeGroups.get? x = some h →
        ((h.anyAttribute || c.groupsAllowAny n h.attributeGroups) = true ↔ c.Admits h) := by
      intro x hx h hh
      rw [Bool.or_eq_true, admits_iff]
      exact or_congr_right (ih (hg.inner hx hh))
    rw [groupsAllowAny, List.any_eq_true]
    constructor
    · rintro ⟨h, hmem, hany⟩
      obtain ⟨x, hx, hh⟩ := List.mem_filterMap.1 hmem
      exact ⟨x, hx, h, hh, (hinner x hx h hh).1 hany⟩
    · rintro ⟨x, hx, h, hh, hadmits⟩
      exact ⟨h, List.mem_filterMap.2 ⟨x, hx, hh⟩, (hinner x hx h hh).2 hadmits⟩

/-- Whether a group and the nested ones refer to what is there and nest at most `n` deep. -/
def settles (c : Catalog) : Nat → AttributeGroup → Bool
  | 0, g => g.attributes.all (fun use => (c.declOfUse use).toOption.isSome) && g.attributeGroups.isEmpty
  | n + 1, g => g.attributes.all (fun use => (c.declOfUse use).toOption.isSome) &&
      g.attributeGroups.all fun x => (c.attributeGroups.get? x).any (c.settles n)

theorem all_declOfUse_iff : (g.attributes.all fun use => (c.declOfUse use).toOption.isSome) = true ↔
    ∀ use ∈ g.attributes, ∃ decl, c.declOfUse use = .ok decl := by
  simp only [List.all_eq_true, Option.isSome_iff_exists, toOption_eq_some_iff]

theorem settled_of_settles (h : c.settles n g = true) : c.Settled n g := by
  induction n generalizing g with
  | zero =>
    rw [settles, Bool.and_eq_true, all_declOfUse_iff, List.isEmpty_iff] at h
    have hself : ∀ i k, c.Nested g i k → i = 0 ∧ k = g := by
      intro i k hk
      cases hk with
      | self => exact ⟨rfl, rfl⟩
      | inner hx _ _ => simp [h.2] at hx
    constructor
    · intro i k hk
      obtain ⟨-, rfl⟩ := hself i k hk
      exact h.1
    · intro i k hk
      obtain ⟨-, rfl⟩ := hself i k hk
      simp [h.2]
    · intro i k hk
      exact Nat.le_of_eq (hself i k hk).1
  | succ n ih =>
    rw [settles, Bool.and_eq_true, all_declOfUse_iff, List.all_eq_true] at h
    have hinner : ∀ x ∈ g.attributeGroups, ∃ h, c.attributeGroups.get? x = some h ∧ c.Settled n h := by
      intro x hx
      obtain ⟨h', hh', hsettles⟩ := (Option.any_eq_true _ _).1 (h.2 x hx)
      exact ⟨h', hh', ih hsettles⟩
    have hnested : ∀ x ∈ g.attributeGroups, ∀ h, c.attributeGroups.get? x = some h → c.Settled n h := by
      intro x hx h' hh'
      obtain ⟨h'', hh'', hsettled⟩ := hinner x hx
      exact Option.some.inj (hh''.symm.trans hh') ▸ hsettled
    constructor
    · intro i k hk
      cases hk with
      | self => exact h.1
      | inner hx hh hk => exact (hnested _ hx _ hh).uses _ k hk
    · intro i k hk
      cases hk with
      | self =>
        intro x hx
        obtain ⟨h', hh', -⟩ := hinner x hx
        exact ⟨h', hh'⟩
      | inner hx hh hk => exact (hnested _ hx _ hh).groups _ k hk
    · intro i k hk
      cases hk with
      | self => exact Nat.zero_le _
      | inner hx hh hk => exact Nat.succ_le_succ ((hnested _ hx _ hh).depth _ k hk)

end Groups

/-! ### Ancestors -/

/-- The type has this number of ancestors, and all of its bases are there. -/
inductive Ancestors (c : Catalog) : TypeDef → Nat → Prop
  | root {t : TypeDef} : t.base? = none → Ancestors c t 0
  | base {t b : TypeDef} {n : Nat} : c.BaseOf t b → Ancestors c b n → Ancestors c t (n + 1)

/-- The uses that a type has for attributes of a name: its own ones, or else those of its base, if it
does not prohibit them. -/
inductive Effective (c : Catalog) (ts : List Taken) : TypeDef → QName → AttributeMatch → Prop
  | own {t : TypeDef} {name : QName} {m : AttributeMatch} : c.Offers (ownAttributes t) name m →
    Effective c ts t name m
  | inherited {t b : TypeDef} {name : QName} {m : AttributeMatch} : c.BaseOf t b →
    Effective c ts b name m → (∀ m', ¬ c.Offers (ownAttributes t) name m') →
    ¬ Prohibits ts t name → Effective c ts t name m

/-- The type or one of its ancestors has a wildcard for attributes. That of the root of all types counts
for the root itself and for what extends it. -/
inductive Open (c : Catalog) (t : TypeDef) : Prop
  | own : c.Admits (ownAttributes t) → Open c t
  | inherited {u : TypeDef} : Relation.TransGen c.BaseOf t u → isAnyType u = false →
    c.Admits (ownAttributes u) → Open c t
  | root {u b : TypeDef} : Relation.ReflTransGen c.BaseOf t u → u.Extends → c.BaseOf u b →
    isAnyType b = true → c.Admits (ownAttributes b) → Open c t

section Ancestors

variable {c : Catalog} {ts : List Taken} {t u b b' : TypeDef} {k n : ℕ}

theorem chainFrom_of_base (h : c.BaseOf t b) :
    (c.chainFrom (n + 1) t).1 = t :: (c.chainFrom n b).1 := by
  rcases c.chainFrom_succ n t with ⟨b', hb', hchain⟩ | ⟨hnone, -⟩
  · rw [hchain, h.eq hb']
  · exact absurd h (hnone b)

theorem not_baseOf_of_root (h : t.base? = none) : ¬ c.BaseOf t b := by
  rintro ⟨ref, hbase, -⟩
  rw [h] at hbase
  cases hbase

theorem chainFrom_of_root (h : t.base? = none) : (c.chainFrom n t).1 = [t] := by
  cases n with
  | zero => rfl
  | succ n =>
    rcases c.chainFrom_succ n t with ⟨b, hb, -⟩ | ⟨-, hchain⟩
    · exact absurd hb (not_baseOf_of_root h)
    · exact hchain

/-- The chain of a type has all of its ancestors. -/
theorem Ancestors.mem_chain (h : c.Ancestors t k) (hk : k ≤ n) :
    u ∈ (c.chainFrom n t).1 ↔ Relation.ReflTransGen c.BaseOf t u := by
  refine ⟨reflTransGen_of_chainFrom, fun hu => ?_⟩
  induction h generalizing n with
  | root hroot =>
    rw [chainFrom_of_root hroot, List.mem_singleton]
    rcases hu.cases_head with rfl | ⟨b, hb, -⟩
    · rfl
    · exact absurd hb (not_baseOf_of_root hroot)
  | base hb _ ih =>
    obtain ⟨n, rfl⟩ : ∃ n', n = n' + 1 := ⟨n - 1, by omega⟩
    rw [chainFrom_of_base hb, List.mem_cons]
    rcases hu.cases_head with rfl | ⟨b', hb', hu⟩
    · exact Or.inl rfl
    · obtain rfl := hb.eq hb'
      exact Or.inr (ih (Nat.le_of_succ_le_succ hk) hu)

theorem chainFrom_ne_nil : (c.chainFrom n t).1 ≠ [] := by
  cases n with
  | zero => exact List.cons_ne_nil _ _
  | succ n =>
    rcases c.chainFrom_succ n t with ⟨b, -, hchain⟩ | ⟨-, hchain⟩
    · rw [hchain]
      exact List.cons_ne_nil _ _
    · rw [hchain]
      exact List.cons_ne_nil _ _

/-- A chain that ends at a type without a base has all ancestors. -/
theorem ancestors_of_chainFrom (h : (c.chainFrom n t).1.getLast?.bind (·.base?) = none) :
    ∃ k ≤ n, c.Ancestors t k := by
  induction n generalizing t with
  | zero => exact ⟨0, Nat.le_refl 0, .root h⟩
  | succ n ih =>
    rcases c.chainFrom_succ n t with ⟨b, hb, hchain⟩ | ⟨-, hchain⟩
    · rw [hchain, List.getLast?_cons_of_ne_nil chainFrom_ne_nil] at h
      obtain ⟨k, hk, hancestors⟩ := ih h
      exact ⟨k + 1, Nat.succ_le_succ hk, .base hb hancestors⟩
    · rw [hchain] at h
      exact ⟨0, Nat.zero_le _, .root h⟩

/-! ### Uses -/

/-- The map has an effective use for each name that has some; for the others it has none, except where a
type on the way prohibits the name. -/
def HasUses (c : Catalog) (ts : List Taken) (t : TypeDef) (uses : OrderedMap QName AttributeMatch) :
    Prop :=
  ∀ name, (∃ m, uses.get? name = some m ∧ c.Effective ts t name m) ∨
    (∀ m, ¬ c.Effective ts t name m) ∧
      (uses.get? name = none ∨
        ∃ u, Relation.ReflTransGen c.BaseOf t u ∧ Prohibits ts u name)

theorem effective_iff_of_root (h : t.base? = none) {name : QName} {m : AttributeMatch} :
    c.Effective ts t name m ↔ c.Offers (ownAttributes t) name m := by
  refine ⟨fun hm => ?_, .own⟩
  cases hm with
  | own hm => exact hm
  | inherited hb => exact absurd hb (not_baseOf_of_root h)

theorem hasUses_root (h : t.base? = none) {uses : OrderedMap QName AttributeMatch}
    (hover : Overlays (c.Offers (ownAttributes t)) {} uses) : c.HasUses ts t uses := by
  intro name
  rcases hover name with ⟨m, hm, hget⟩ | ⟨hnone, hget⟩
  · exact Or.inl ⟨m, hget, .own hm⟩
  · refine Or.inr ⟨fun m hm => ?_, Or.inl hget⟩
    exact hnone m ((effective_iff_of_root h).1 hm)

/-- What a type has is what its base has under its own uses. -/
theorem HasUses.derived {out uses : OrderedMap QName AttributeMatch} (hbase : c.HasUses ts b out)
    (hb : c.BaseOf t b) (hover : Overlays (c.Offers (ownAttributes t)) out uses) :
    c.HasUses ts t uses := by
  intro name
  rcases hover name with ⟨m, hm, hget⟩ | ⟨hnone, hget⟩
  · exact Or.inl ⟨m, hget, .own hm⟩
  -- What the type does not offer it has from its base, if it has it.
  have hinherited : ∀ m, c.Effective ts t name m → c.Effective ts b name m ∧ ¬ Prohibits ts t name := by
    intro m hm
    cases hm with
    | own hm => exact absurd hm (hnone m)
    | inherited hb' hm _ hallowed => exact ⟨hb.eq hb' ▸ hm, hallowed⟩
  rcases hbase name with ⟨m, hm, heffective⟩ | ⟨hnone', hrest⟩
  · by_cases hprohibits : Prohibits ts t name
    · exact Or.inr ⟨fun m hm => (hinherited m hm).2 hprohibits, Or.inr ⟨t, .refl, hprohibits⟩⟩
    · exact Or.inl ⟨m, hget.trans hm, .inherited hb heffective hnone hprohibits⟩
  · refine Or.inr ⟨fun m hm => hnone' m (hinherited m hm).1, ?_⟩
    rcases hrest with hout | ⟨u, hu, hprohibits⟩
    · exact Or.inl (hget.trans hout)
    · exact Or.inr ⟨u, .head hb hu, hprohibits⟩

theorem Ancestors.uses (h : c.Ancestors t k) (hk : k ≤ n)
    (hsettled : ∀ u, Relation.ReflTransGen c.BaseOf t u →
      c.Settled maxDerivation (ownAttributes u)) :
    ∃ uses, (c.chainFrom n t).1.reverse.foldlM
      (fun out u => c.collectUses maxDerivation (ownAttributes u) out) {} = .ok uses ∧
      c.HasUses ts t uses := by
  induction h generalizing n with
  | @root t hroot =>
    obtain ⟨uses, hcollect, hover⟩ := (hsettled t .refl).collectUses {}
    refine ⟨uses, ?_, hasUses_root hroot hover⟩
    rw [chainFrom_of_root hroot, List.reverse_singleton, List.foldlM_cons, hcollect]
    rfl
  | @base t b k hb _ ih =>
    obtain ⟨n, rfl⟩ : ∃ n', n = n' + 1 := ⟨n - 1, by omega⟩
    obtain ⟨out, hfold, hout⟩ := ih (Nat.le_of_succ_le_succ hk) fun u hu => hsettled u (.head hb hu)
    obtain ⟨uses, hcollect, hover⟩ := (hsettled t .refl).collectUses out
    refine ⟨uses, ?_, hout.derived hb hover⟩
    rw [chainFrom_of_base hb, List.reverse_cons, List.foldlM_append, hfold]
    show (c.collectUses maxDerivation (ownAttributes t) out >>= pure) = _
    rw [hcollect]
    rfl

/-! ### Wildcards -/

theorem Ancestors.chain_eq (h : c.Ancestors t k) (hk : k < maxDerivation) :
    ∃ us, (c.chain t).1 = t :: us ∧ ∀ u, u ∈ us ↔ Relation.TransGen c.BaseOf t u := by
  have hk : k ≤ maxDerivation - 1 := Nat.le_sub_one_of_lt hk
  unfold chain
  cases h with
  | root hroot =>
    refine ⟨[], chainFrom_of_root hroot, fun u => ⟨fun hu => absurd hu List.not_mem_nil, fun hu => ?_⟩⟩
    obtain ⟨b, hb, -⟩ := Relation.TransGen.head'_iff.1 hu
    exact absurd hb (not_baseOf_of_root hroot)
  | @base _ b k hb hancestors =>
    refine ⟨_, chainFrom_of_base hb, fun u => ?_⟩
    rw [hancestors.mem_chain (Nat.le_of_succ_le_succ hk), Relation.TransGen.head'_iff]
    constructor
    · exact fun hu => ⟨b, hb, hu⟩
    · rintro ⟨b', hb', hu⟩
      exact hb.eq hb' ▸ hu

/-- The type or an ancestor has a wildcard, where that of the root of all types counts for the root
only. -/
theorem Ancestors.hasAnyAttribute_iff (h : c.Ancestors t k) (hk : k < maxDerivation)
    (hsettled : ∀ u, Relation.ReflTransGen c.BaseOf t u →
      c.Settled maxDerivation (ownAttributes u)) :
    c.hasAnyAttribute t = true ↔ c.Admits (ownAttributes t) ∨
      ∃ u, Relation.TransGen c.BaseOf t u ∧ isAnyType u = false ∧ c.Admits (ownAttributes u) := by
  obtain ⟨us, hchain, hmem⟩ := h.chain_eq hk
  unfold hasAnyAttribute
  rw [hchain]
  dsimp only
  rw [List.any_cons, Bool.or_eq_true, (hsettled t .refl).allowAny_iff, List.any_eq_true]
  refine or_congr_right (exists_congr fun u => ?_)
  rw [List.mem_filter, hmem, Bool.not_eq_true', and_assoc]
  refine and_congr_right fun hu => and_congr_right fun _ => ?_
  exact (hsettled u hu.to_reflTransGen).allowAny_iff

/-- A wildcard that is found is one of an ancestor that counts; only that of the root of all types is
not found, where a type on the way extends it. -/
theorem Ancestors.hasAnyAttribute_open (h : c.Ancestors t k) (hk : k < maxDerivation)
    (hsettled : ∀ u, Relation.ReflTransGen c.BaseOf t u →
      c.Settled maxDerivation (ownAttributes u)) :
    (c.hasAnyAttribute t = true → c.Open t) ∧
      (c.Open t → c.hasAnyAttribute t = true ∨
        ∃ u b, Relation.ReflTransGen c.BaseOf t u ∧ u.Extends ∧ c.BaseOf u b ∧ isAnyType b = true) := by
  rw [h.hasAnyAttribute_iff hk hsettled]
  constructor
  · rintro (hown | ⟨u, hu, hroot, hadmits⟩)
    · exact .own hown
    · exact .inherited hu hroot hadmits
  · intro hopen
    cases hopen with
    | own hown => exact Or.inl (Or.inl hown)
    | inherited hu hroot hadmits => exact Or.inl (Or.inr ⟨_, hu, hroot, hadmits⟩)
    | root hu hextends hb hroot _ => exact Or.inr ⟨_, _, hu, hextends, hb, hroot⟩

end Ancestors

/-! ### Loaded catalogs -/

/-- In a catalog that was loaded, a type of which all references are to what is there, with fewer than
`maxDerivation` ancestors and groups that nest no deeper, has the effective uses, and it admits any
attribute if it or its base does. -/
theorem attributes_effective {σ : Type} {fetch : Location → StateM σ (Except Error Bytes)}
    {limits : Limits} {roots : List Location} {s s' : σ} {c : Catalog}
    (hload : (Catalog.loadWith fetch limits roots).run s = (.ok c, s')) :
    ∃ ts, Registered fetch limits c ts ∧
      ∀ t k, c.Ancestors t k → k < maxDerivation →
        (∀ u, Relation.ReflTransGen c.BaseOf t u → c.Settled maxDerivation (ownAttributes u)) →
        (∃ uses, c.attributeUses t = .ok uses ∧ c.HasUses ts t uses) ∧
        (c.hasAnyAttribute t = true → c.Open t) ∧
        (c.Open t → c.hasAnyAttribute t = true ∨ ∃ u b, Relation.ReflTransGen c.BaseOf t u ∧
          u.Extends ∧ c.BaseOf u b ∧ isAnyType b = true) := by
  obtain ⟨ts, hts⟩ := (Loading.holds_start fetch limits _).run hload
  refine ⟨ts, hts, fun t k hancestors hk hsettled => ⟨?_, ?_⟩⟩
  · exact hancestors.uses (Nat.le_sub_one_of_lt hk) hsettled
  · exact hancestors.hasAnyAttribute_open hk hsettled

/-- A type with a group of attributes, and a restriction of it that has one use of its own. -/
def narrowedSchemas : List (String × String) := [
  ("a.xsd", "<xs:schema xmlns:xs='http://www.w3.org/2001/XMLSchema'><xs:attributeGroup name='Common'>" ++
    "<xs:attribute name='id' type='xs:ID'/><xs:anyAttribute/></xs:attributeGroup>" ++
    "<xs:complexType name='Base'><xs:attribute name='size'/><xs:attributeGroup ref='Common'/>" ++
    "</xs:complexType><xs:complexType name='Narrow'><xs:complexContent><xs:restriction base='Base'>" ++
    "<xs:attribute name='size' use='required'/></xs:restriction></xs:complexContent>" ++
    "</xs:complexType></xs:schema>")]

/-- The restriction has the uses of its base, one of them replaced, and admits any attribute. -/
theorem narrowed_attributes : ∃ c ts t uses,
    (Catalog.loadWith (Memory.ofDocuments narrowedSchemas).serve {} [memoryLocation "a.xsd"]).run () =
      (.ok c, ()) ∧
    Registered (Memory.ofDocuments narrowedSchemas).serve {} c ts ∧
    c.types.get? (.plain "Narrow") = some t ∧
    c.attributeUses t = .ok uses ∧ c.HasUses ts t uses ∧
    uses.entries.map (fun e => (e.1.localName, e.2.required)) = [("size", true), ("id", false)] ∧
    c.hasAnyAttribute t = true ∧ c.Open t := by
  have heval : ((Catalog.loadWith (Memory.ofDocuments narrowedSchemas).serve {}
      [memoryLocation "a.xsd"]).run ()).1.toOption.bind (fun c =>
        (c.types.get? (.plain "Narrow")).map fun t =>
          decide (((c.chain t).1.getLast?.bind (·.base?)).isNone ∧
            (c.chain t).1.all (fun u => c.settles maxDerivation (ownAttributes u)) ∧
            (c.attributeUses t).toOption.map (fun uses =>
              uses.entries.map fun e => (e.1.localName, e.2.required)) =
                some [("size", true), ("id", false)] ∧ c.hasAnyAttribute t = true)) = some true := by
    decide +kernel
  obtain ⟨c, hc, heval⟩ := Option.bind_eq_some_iff.1 heval
  obtain ⟨t, ht, heval⟩ := Option.map_eq_some_iff.1 heval
  obtain ⟨hend, hsettles, huses, hany⟩ := of_decide_eq_true heval
  rw [toOption_eq_some_iff] at hc
  have hload : (Catalog.loadWith (Memory.ofDocuments narrowedSchemas).serve {}
      [memoryLocation "a.xsd"]).run () = (.ok c, ()) := Prod.ext hc (Subsingleton.elim _ _)
  obtain ⟨ts, hts, heffective⟩ := attributes_effective hload
  obtain ⟨k, hk, hancestors⟩ := ancestors_of_chainFrom (Option.isNone_iff_eq_none.1 hend)
  have hsettled : ∀ u, Relation.ReflTransGen c.BaseOf t u →
      c.Settled maxDerivation (ownAttributes u) := by
    intro u hu
    have hmem : u ∈ (c.chain t).1 := (hancestors.mem_chain hk).2 hu
    exact settled_of_settles (List.all_eq_true.1 hsettles u hmem)
  have hlt : k < maxDerivation := Nat.lt_of_le_sub_one (by decide) hk
  obtain ⟨⟨uses, hok, hhas⟩, hopen, -⟩ := heffective t k hancestors hlt hsettled
  rw [hok] at huses
  exact ⟨c, ts, t, uses, hload, hts, ht, hok, hhas, Option.some.inj huses, hany, hopen hany⟩

/-- A type with a wildcard, a restriction of it that prohibits its only use and has no wildcard, and an
extension of the root of all types. -/
def derivedText : String :=
  "<xs:schema xmlns:xs='http://www.w3.org/2001/XMLSchema'><xs:complexType name='Base'>" ++
    "<xs:attribute name='size'/><xs:anyAttribute/></xs:complexType><xs:complexType name='Narrow'>" ++
    "<xs:complexContent><xs:restriction base='Base'><xs:attribute name='size' use='prohibited'/>" ++
    "</xs:restriction></xs:complexContent></xs:complexType><xs:complexType name='Wide'>" ++
    "<xs:complexContent><xs:extension base='xs:anyType'/></xs:complexContent></xs:complexType>" ++
    "</xs:schema>"

/-- Groups of attributes, each one in the one before; only the last of them has a use. -/
def nestedGroups (n : Nat) : Catalog where
  attributeGroups := .ofList
    (((List.range n).map fun i =>
      (.plain (toString i), { attributeGroups := [.plain (toString (i + 1))] })) ++
    [(.plain (toString n), { attributes := [⟨.inPlace ⟨.plain "size", none⟩, false⟩] })])

/-- A type with the first of these groups. -/
def nestingType : TypeDef :=
  .complex {
    site := default, name? := none, base? := none, derivation := .restriction, content := .empty,
    particle? := none, attributes := [], attributeGroups := [.plain "0"], anyAttribute := false,
    isAbstract := false }

/-- A restriction without a wildcard admits any attribute, and it keeps a use that it prohibits; an
extension of the root of all types does not admit any; and a use is left out that is in a group nested
deeper than `maxDerivation`. -/
theorem attributes_not_effective :
    (∃ c narrow wide, Catalog.ofText derivedText = .ok c ∧
      c.types.get? (.plain "Narrow") = some narrow ∧ c.types.get? (.plain "Wide") = some wide ∧
      (¬ narrow.Extends ∧ ¬ c.Admits (ownAttributes narrow) ∧ c.hasAnyAttribute narrow = true) ∧
      (c.attributeUses narrow).map (·.keys) = .ok [.plain "size"] ∧
      wide.Extends ∧ c.derivesFrom wide Builtin.anyType = true ∧
      c.hasAnyAttribute Builtin.anyType = true ∧ c.hasAnyAttribute wide = false) ∧
    (∃ m, (nestedGroups maxDerivation).Offers (ownAttributes nestingType) (.plain "size") m) ∧
      ((nestedGroups maxDerivation).attributeUses nestingType).map (·.keys) = .ok [] := by
  refine ⟨?_, ?_⟩
  · have heval : (Catalog.ofText derivedText).toOption.bind (fun c =>
        (c.types.get? (.plain "Narrow")).bind fun narrow => (c.types.get? (.plain "Wide")).map fun wide =>
          decide (¬ narrow.Extends ∧ c.settles maxDerivation (ownAttributes narrow) ∧
            ((ownAttributes narrow).anyAttribute ||
              c.groupsAllowAny maxDerivation (ownAttributes narrow).attributeGroups) = false ∧
            c.hasAnyAttribute narrow = true ∧
            ((c.attributeUses narrow).map (·.keys)).toOption = some [.plain "size"] ∧
            wide.Extends ∧ c.derivesFrom wide Builtin.anyType = true ∧
            c.hasAnyAttribute Builtin.anyType = true ∧ c.hasAnyAttribute wide = false)) = some true := by
      decide +kernel
    obtain ⟨c, hc, heval⟩ := Option.bind_eq_some_iff.1 heval
    obtain ⟨narrow, hnarrow, heval⟩ := Option.bind_eq_some_iff.1 heval
    obtain ⟨wide, hwide, heval⟩ := Option.map_eq_some_iff.1 heval
    obtain ⟨hrestricts, hsettles, hnone, hany, huses, hrest⟩ := of_decide_eq_true heval
    have hadmits : ¬ c.Admits (ownAttributes narrow) := by
      rw [← (settled_of_settles hsettles).allowAny_iff, hnone]
      exact Bool.false_ne_true
    exact ⟨c, narrow, wide, toOption_eq_some_iff.1 hc, hnarrow, hwide, ⟨hrestricts, hadmits, hany⟩,
      toOption_eq_some_iff.1 huses, hrest⟩
  · -- One level deeper the use is found, as all groups are there.
    have heval : (nestedGroups maxDerivation).settles (maxDerivation + 1)
          (ownAttributes nestingType) = true ∧
        (((nestedGroups maxDerivation).collectUses (maxDerivation + 1)
          (ownAttributes nestingType) {}).toOption.bind (·.get? (.plain "size"))).isSome = true ∧
        (((nestedGroups maxDerivation).attributeUses nestingType).map (·.keys)).toOption = some [] := by
      decide +kernel
    obtain ⟨hsettles, hfound, hempty⟩ := heval
    obtain ⟨uses, huses, hover⟩ := (settled_of_settles hsettles).collectUses {}
    rw [huses] at hfound
    refine ⟨?_, toOption_eq_some_iff.1 hempty⟩
    rcases hover (.plain "size") with ⟨m, hm, -⟩ | ⟨-, hget⟩
    · exact ⟨m, hm⟩
    · change (uses.get? (.plain "size")).isSome = true at hfound
      rw [hget] at hfound
      cases hfound

end Catalog

end FeatureTables.Schema
