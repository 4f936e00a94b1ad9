import FeatureTables.Proofs.Layout.Absorption
import FeatureTables.Proofs.Table.Union

/-!
Which fields rows may lack. Where one row has a child as a part and another one has a row for it, rows may
lack the link to the child as well as the fields below it. Adding the fields of documents in turn, a field
comes to be optional as soon as it is found so, or in conflict with others (`foldl_optional_iff`). A link
looks for the fields below it, and a value for the links above it, so that these two are always optional.
But a link does not look for links above it: of two links, of which one is below the other, both are optional
if that one came first, and else only as far as each comes to be so without the other
(`crossing_optional_iff`).
-/

namespace FeatureTables

namespace Field

theorem Grows.kind {f g : Field} (h : f.Grows g) : g.kind = f.kind := by
  cases h <;> rfl

theorem isOptional_join_iff (f g : Field) : (f.join g).isOptional = true ↔
    f.isOptional = true ∨ g.kind = f.kind ∧ g.isOptional = true := by
  cases f <;> cases g <;> simp [join, isOptional, kind]

end Field

namespace Layout

open Text

/-! ### One field -/

/-- As the field is added, that of the key, which is of the kind, comes to be optional: it is in conflict
with the new one, or it is the new one, and this is optional or in conflict with another one. -/
def Loosens (t : Table) (f : Field) (key : String) (kind : Field.Kind) : Prop :=
  key ∈ conflicts t f ∨
    f.key = key ∧ f.kind = kind ∧ (f.isOptional = true ∨ conflicts t f ≠ [])

section Step

variable {t : Table} {f g : Field} {key : String}

theorem conflicts_subset (h : key ∈ conflicts t f) : key ∈ t.fields.keys := by
  rw [mem_conflicts_iff] at h
  split at h
  · exact h.1
  · rw [isLinkAt_eq, Option.any_eq_true] at h
    obtain ⟨⟨g, hg, -⟩, -⟩ := h
    exact OrderedMap.mem_keys_of_get? hg

/-- The field as it is added to the table. -/
def told (t : Table) (f : Field) : Field := if conflicts t f = [] then f else f.relaxed

theorem key_told : (told t f).key = f.key := by
  unfold told
  split
  · rfl
  · exact Field.key_relaxed f

theorem kind_told : (told t f).kind = f.kind := by
  unfold told
  split
  · rfl
  · exact (Field.grows_relaxed f).kind

theorem isOptional_told : (told t f).isOptional = true ↔
    f.isOptional = true ∨ conflicts t f ≠ [] := by
  unfold told
  split <;> simp [*, Field.isOptional_relaxed]

theorem addField_eq_told (t : Table) (f : Field) : addField t f = Table.addField { t with
    fields := (conflicts t f).foldl (fun fields key => fields.modify key Field.relaxed) t.fields }
    (told t f) := by
  unfold addField told
  cases conflicts t f with
  | nil => rfl
  | cons key keys => rfl

theorem get?_addField (hkey : key ≠ t.uid) : (addField t f).fields.get? key =
    (if key ∈ conflicts t f then (t.fields.get? key).map Field.relaxed else t.fields.get? key).merge
      Field.join (if key = f.key then some (told t f) else none) := by
  rw [addField_eq_told, Table.get?_addField, get?_relaxing, key_told]
  by_cases h : key = f.key
  · rw [if_pos ⟨h, hkey⟩, if_pos h]
  · rw [if_neg fun hand => h hand.1, if_neg h, Option.merge_none_right]

/-- After a step a field is optional if it was so before, or the step makes it so. -/
theorem addField_optional_iff (hkey : key ≠ t.uid) (hg : (addField t f).fields.get? key = some g) :
    g.isOptional = true ↔
      (∃ g₀, t.fields.get? key = some g₀ ∧ g₀.isOptional = true) ∨ Loosens t f key g.kind := by
  rw [get?_addField hkey] at hg
  cases hg₀ : t.fields.get? key with
  | none =>
    have hnot : key ∉ conflicts t f := fun h =>
      OrderedMap.get?_eq_none_iff.1 hg₀ (conflicts_subset h)
    rw [if_neg hnot, hg₀, Option.merge_none_left] at hg
    obtain ⟨rfl, rfl⟩ : key = f.key ∧ told t f = g := by simpa using hg
    simp [Loosens, hnot, kind_told, isOptional_told]
  | some g₀ =>
    obtain ⟨known, hknown, hoptional⟩ : ∃ known,
        (if key ∈ conflicts t f then (t.fields.get? key).map Field.relaxed else t.fields.get? key) =
          some known ∧
        (known.isOptional = true ↔ g₀.isOptional = true ∨ key ∈ conflicts t f) := by
      by_cases hmem : key ∈ conflicts t f
      · exact ⟨g₀.relaxed, by simp [hmem, hg₀], by simp [hmem, Field.isOptional_relaxed]⟩
      · exact ⟨g₀, by simp [hmem, hg₀], by simp [hmem]⟩
    rw [hknown] at hg
    by_cases hf : key = f.key
    · obtain rfl : known.join (told t f) = g := by simpa [hf] using hg
      rw [Field.isOptional_join_iff, (Field.grows_join known _).kind, hoptional, kind_told,
        isOptional_told]
      simp [Loosens, hf, or_assoc]
    · obtain rfl : known = g := by simpa [hf] using hg
      simp [Loosens, Ne.symm hf, hoptional]

end Step

/-! ### Many fields -/

/-- One of the fields makes that of the key optional, as they are added in turn. -/
def Loosened (t : Table) (fs : List Field) (key : String) (kind : Field.Kind) : Prop :=
  ∃ before f, before ++ [f] <+: fs ∧ Loosens (before.foldl addField t) f key kind

section Run

variable {t : Table} {f g : Field} {fs : List Field} {key below : String} {kind : Field.Kind}

theorem loosened_cons : Loosened t (f :: fs) key kind ↔
    Loosens t f key kind ∨ Loosened (addField t f) fs key kind :=
  Table.exists_step_cons

theorem uid_foldl (t : Table) (fs : List Field) : (fs.foldl addField t).uid = t.uid :=
  (Table.Grows.foldl grows_addField t fs).uid

/-- What is not there yet cannot be made optional. -/
theorem Loosens.mem_keys (h : Loosens t f key kind) (hkey : key ≠ t.uid) :
    key ∈ (addField t f).fields.keys := by
  rcases h with h | ⟨rfl, -⟩
  · exact (grows_addField t f).mem_keys (conflicts_subset h)
  · exact ((covers_addField t f).hasKey).resolve_left fun h =>
      hkey (h.trans (grows_addField t f).uid)

/-- Fields are optional in the end if they were so in the beginning, or one of those that were added in
turn made them so. -/
theorem foldl_optional_iff (hkey : key ≠ t.uid) (hg : (fs.foldl addField t).fields.get? key = some g) :
    g.isOptional = true ↔
      (∃ g₀, t.fields.get? key = some g₀ ∧ g₀.isOptional = true) ∨ Loosened t fs key g.kind := by
  induction fs generalizing t with
  | nil => simp [show t.fields.get? key = some g from hg, Loosened]
  | cons f fs ih =>
    have huid : key ≠ (addField t f).uid := (grows_addField t f).uid.symm ▸ hkey
    rw [ih huid hg, loosened_cons, ← or_assoc]
    refine or_congr_left ?_
    cases h₁ : (addField t f).fields.get? key with
    | none =>
      have hnot := OrderedMap.get?_eq_none_iff.1 h₁
      refine iff_of_false (by simp) ?_
      rintro (⟨g₀, hg₀, -⟩ | hloosens)
      · exact hnot ((grows_addField t f).mem_keys (OrderedMap.mem_keys_of_get? hg₀))
      · exact hnot (hloosens.mem_keys hkey)
    | some g₁ =>
      obtain ⟨g', hg', hgrows⟩ := (Table.Grows.foldl grows_addField _ fs).field h₁
      obtain rfl := Option.some.inj (hg'.symm.trans hg)
      rw [hgrows.kind, ← addField_optional_iff hkey h₁]
      simp

/-- The link of the key is added at some time after a field of the key below it. -/
def LinkedAfter (fs : List Field) (key below : String) : Prop :=
  ∃ before f, before ++ [f] <+: fs ∧ f.isLink = true ∧ f.key = key ∧ below ∈ before.map Field.key

/-- A link that is added after a field below it makes both optional. -/
theorem LinkedAfter.loosened (h : LinkedAfter fs key below) (hbelow : startsWith below (key ++ "/") = true)
    (huid : below ≠ t.uid) (kind : Field.Kind) :
    Loosened t fs key .link ∧ Loosened t fs below kind := by
  obtain ⟨before, f, hprefix, hlink, rfl, hmem⟩ := h
  obtain ⟨f₀, hf₀, hkey₀⟩ := List.mem_map.1 hmem
  have hkey : below ∈ (before.foldl addField t).fields.keys :=
    hkey₀ ▸ (covers_foldl hf₀ t).hasKey.resolve_left fun h => huid (hkey₀ ▸ h.trans (uid_foldl t before))
  have hconflict : below ∈ conflicts (before.foldl addField t) f := by
    rw [mem_conflicts_iff, if_pos hlink]
    exact ⟨hkey, hbelow⟩
  have hkind : f.kind = .link := by
    cases f with
    | link l => rfl
    | _ => cases hlink
  exact ⟨⟨before, f, hprefix, Or.inr ⟨rfl, hkind, Or.inr (List.ne_nil_of_mem hconflict)⟩⟩,
    before, f, hprefix, Or.inl hconflict⟩

end Run

/-! ### Links and the fields below them -/

theorem ne_uid_of_below {name key below : String} {natural : Bool}
    (h : startsWith below (key ++ "/") = true) : below ≠ (Table.create name natural).uid := by
  have hslash : '/' ∈ below.toList := by
    refine (startsWith_iff.1 h).subset ?_
    simp
  rintro rfl
  cases natural
  · exact absurd hslash (by simp [Table.create, Table.uidFor, Key.syntheticUid])
  · exact absurd hslash (by simp [Table.create, Table.uidFor, Key.naturalUid])

/-- In a table of fields that were added one after the other a link and a field below it are both optional
exactly if the latter is a value, or the link came after it, or else each of them was found optional, or in
conflict with a field that it was compared with. -/
theorem crossing_optional_iff {name key below : String} {natural : Bool} {fs : List Field} {l : Link}
    {g : Field}
    (hl : (fs.foldl addField (Table.create name natural)).fields.get? key = some (.link l))
    (hg : (fs.foldl addField (Table.create name natural)).fields.get? below = some g)
    (hbelow : startsWith below (key ++ "/") = true) :
    (l.optional = true ∧ g.isOptional = true) ↔
      g.isValue = true ∨ LinkedAfter fs key below ∨
        Loosened (Table.create name natural) fs key .link ∧
          Loosened (Table.create name natural) fs below g.kind := by
  have hsound := (Table.sound_create name natural).grows (Table.Grows.foldl grows_addField _ fs)
  have hkey : key ≠ (Table.create name natural).uid :=
    fun h => hsound.ne_uid_of_link hl (h.trans (uid_foldl _ fs).symm)
  have huid : below ≠ (Table.create name natural).uid := ne_uid_of_below hbelow
  have hnew : ∀ {k}, k ≠ (Table.create name natural).uid →
      (Table.create name natural).fields.get? k = none := by
    intro k hk
    rw [Table.get?_create, if_neg hk]
  have hlink : l.optional = true ↔ Loosened (Table.create name natural) fs key .link := by
    rw [show l.optional = (Field.link l).isOptional from rfl, foldl_optional_iff hkey hl, hnew hkey]
    simp [Field.kind]
  have hfield : g.isOptional = true ↔ Loosened (Table.create name natural) fs below g.kind := by
    rw [foldl_optional_iff huid hg, hnew huid]
    simp
  rw [hlink, hfield]
  constructor
  · exact fun h => Or.inr (Or.inr h)
  · rintro (hvalue | hafter | h)
    · obtain ⟨hlo, hgo⟩ := (Table.reconciled_create name natural).extend fs key below _ g hl hg hbelow rfl hvalue
      exact ⟨hlink.1 hlo, hfield.1 hgo⟩
    · exact hafter.loosened hbelow huid g.kind
    · exact h

/-- A link to a row that is always there. -/
def requiredLink (key : String) : Link := ⟨key, key, false, ⟨1, .bounded 1⟩, .int, none⟩

/-- A link that is added after one below it. -/
theorem linkedLast_optional :
    let t := [.link (requiredLink "a/b"), .link (requiredLink "a")].foldl addField (Table.create "p" false)
    ∃ l g, t.fields.get? "a" = some (.link l) ∧ t.fields.get? "a/b" = some g ∧
      startsWith "a/b" ("a" ++ "/") = true ∧ l.optional = true ∧ g.isOptional = true := by
  intro t
  have hl : t.fields.get? "a" = some (.link { requiredLink "a" with optional := true }) := by
    decide +kernel
  have hg : t.fields.get? "a/b" = some (.link { requiredLink "a/b" with optional := true }) := by
    decide +kernel
  have hbelow : startsWith "a/b" ("a" ++ "/") = true := by decide +kernel
  have hafter : LinkedAfter [.link (requiredLink "a/b"), .link (requiredLink "a")] "a" "a/b" :=
    ⟨[.link (requiredLink "a/b")], .link (requiredLink "a"), by simp, rfl, rfl, by decide⟩
  exact ⟨_, _, hl, hg, hbelow, (crossing_optional_iff hl hg hbelow).2 (Or.inr (Or.inl hafter))⟩

/-- A link that is added before one below it. One row has the child as a row of its own, and so no link
below it; another row has it as a part, and so no link to it; and neither link is optional. -/
theorem linkedFirst_required :
    let t := [.link (requiredLink "a"), .link (requiredLink "a/b")].foldl addField (Table.create "p" false)
    t.fields.get? "a" = some (.link (requiredLink "a")) ∧
    t.fields.get? "a/b" = some (.link (requiredLink "a/b")) ∧
    startsWith "a/b" ("a" ++ "/") = true ∧
    (requiredLink "a").optional = false ∧ (Field.link (requiredLink "a/b")).isOptional = false := by
  decide +kernel

end Layout
end FeatureTables
