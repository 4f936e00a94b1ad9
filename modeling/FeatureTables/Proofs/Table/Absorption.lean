import FeatureTables.Proofs.Table.Growth

/-!
Fields and tables that have been told all there is. A field absorbs another one if joining them changes
nothing (`Field.Absorbs`); it absorbs what it was joined with once, and goes on doing so. So a table that
has taken a field covers it for good (`Table.Covers`).
-/

namespace FeatureTables

/-! ### Joining twice -/

theorem MaxOccurs.join_self (a : MaxOccurs) : a.join a = a := by
  cases a <;> simp [join]

theorem MaxOccurs.join_right_comm (a b c : MaxOccurs) : (a.join b).join c = (a.join c).join b := by
  cases a <;> cases b <;> cases c <;> simp [join]
  omega

theorem MaxOccurs.join_join (a b : MaxOccurs) : (a.join b).join b = a.join b := by
  cases a <;> cases b <;> simp [join]

theorem SqlType.join_self (a : SqlType) : a.join a = a := if_pos rfl

theorem SqlType.join_right_comm (a b c : SqlType) : (a.join b).join c = (a.join c).join b := by
  unfold join
  grind

theorem SqlType.join_join (a b : SqlType) : (a.join b).join b = a.join b := by
  unfold join
  grind

namespace Field

/-- The field has been told the other one: joining them changes nothing. -/
def Absorbs (g f : Field) : Prop := g.join f = g

section Absorbs

variable {f g h : Field}

theorem absorbs_column {a b : Column} : (column a).Absorbs (column b) ↔
    a.type.join b.type = a.type ∧ (b.optional = true → a.optional = true) := by
  cases a
  cases b
  simp [Absorbs, Field.join]

theorem absorbs_link {a b : Link} : (link a).Absorbs (link b) ↔
    (b.optional = true → a.optional = true) ∧ a.occurs.min ≤ b.occurs.min ∧
      a.occurs.max.join b.occurs.max = a.occurs.max ∧ a.group?.or b.group? = a.group? := by
  obtain ⟨_, _, _, ⟨_, _⟩, _, _⟩ := a
  cases b
  simp only [Absorbs, Field.join, Field.link.injEq, Link.mk.injEq, Occurs.mk.injEq,
    Bool.or_eq_left_iff_imp, true_and, and_assoc]
  refine and_congr_right fun _ => and_congr_left fun _ => ?_
  omega

theorem absorbs_geometry {a b : GeometryColumn} : (geometry a).Absorbs (geometry b) ↔
    (a.type = b.type ∨ a.type = "GEOMETRY") ∧ b.dimension ≤ a.dimension ∧
      (b.optional = true → a.optional = true) := by
  obtain ⟨_, type, _, _, _⟩ := a
  obtain ⟨_, type', _, _, _⟩ := b
  have htype : (if type = type' then type else "GEOMETRY") = type ↔
      type = type' ∨ type = "GEOMETRY" := by
    by_cases h : type = type' <;> simp [h, eq_comm]
  simp only [Absorbs, Field.join, Field.geometry.injEq, GeometryColumn.mk.injEq,
    Bool.or_eq_left_iff_imp, true_and, htype]
  refine and_congr_right fun _ => and_congr_left fun _ => ?_
  omega

theorem absorbs_self (f : Field) : f.Absorbs f := by
  cases f with
  | column c => exact absorbs_column.2 ⟨SqlType.join_self _, id⟩
  | link l => exact absorbs_link.2 ⟨id, Nat.le_refl _, MaxOccurs.join_self _, Option.or_self⟩
  | backLink b => rfl
  | geometry g => exact absorbs_geometry.2 ⟨Or.inl rfl, Nat.le_refl _, id⟩

theorem absorbs_join (g f : Field) : (g.join f).Absorbs f := by
  cases g with
  | column a =>
    cases f with
    | column b => exact absorbs_column.2 ⟨SqlType.join_join _ _, by simp +contextual⟩
    | _ => rfl
  | link a =>
    cases f with
    | link b =>
      refine absorbs_link.2 ⟨by simp +contextual, Nat.min_le_right _ _, MaxOccurs.join_join _ _, ?_⟩
      cases a.group? <;> simp
    | _ => rfl
  | backLink b => cases f <;> rfl
  | geometry a =>
    cases f with
    | geometry b =>
      refine absorbs_geometry.2 ⟨?_, Nat.le_max_right _ _, by simp +contextual⟩
      by_cases h : a.type = b.type <;> simp [h]
    | _ => rfl

/-- What a field has been told stays with it. -/
theorem Absorbs.join (hf : g.Absorbs f) (h : Field) : (g.join h).Absorbs f := by
  cases g with
  | column a =>
    cases f with
    | column b =>
      cases h with
      | column c =>
        obtain ⟨htype, hoptional⟩ := absorbs_column.1 hf
        refine absorbs_column.2 ⟨?_, fun hb => by simp [hoptional hb]⟩
        rw [SqlType.join_right_comm, htype]
      | _ => exact hf
    | _ => cases h <;> rfl
  | link a =>
    cases f with
    | link b =>
      cases h with
      | link c =>
        obtain ⟨hoptional, hmin, hmax, hgroup⟩ := absorbs_link.1 hf
        refine absorbs_link.2 ⟨fun hb => by simp [hoptional hb], Nat.le_trans (Nat.min_le_left _ _) hmin,
          ?_, ?_⟩
        · rw [MaxOccurs.join_right_comm, hmax]
        · cases ha : a.group? with
          | none => simp [show b.group? = none by simpa [ha] using hgroup]
          | some name => rfl
      | _ => exact hf
    | _ => cases h <;> rfl
  | backLink b => cases f <;> cases h <;> rfl
  | geometry a =>
    cases f with
    | geometry b =>
      cases h with
      | geometry c =>
        obtain ⟨htype, hdimension, hoptional⟩ := absorbs_geometry.1 hf
        refine absorbs_geometry.2 ⟨?_, Nat.le_trans hdimension (Nat.le_max_left _ _),
          fun hb => by simp [hoptional hb]⟩
        by_cases hc : a.type = c.type
        · rwa [if_pos hc]
        · exact Or.inr (if_neg hc)
      | _ => exact hf
    | _ => cases h <;> rfl

theorem Absorbs.relaxed (hf : g.Absorbs f) : g.relaxed.Absorbs f := by
  cases g <;> cases f <;>
    simp_all [absorbs_column, absorbs_link, absorbs_geometry, Field.relaxed] <;> rfl

theorem Absorbs.of_relaxed (hf : g.Absorbs f.relaxed) : g.Absorbs f := by
  cases g <;> cases f <;>
    simp_all [absorbs_column, absorbs_link, absorbs_geometry, Field.relaxed] <;> rfl

theorem Absorbs.relaxed_right (hf : g.Absorbs f) (hg : g.isOptional = true) : g.Absorbs f.relaxed := by
  cases g <;> cases f <;>
    simp_all [absorbs_column, absorbs_link, absorbs_geometry, Field.relaxed, isOptional] <;> rfl

theorem relaxed_of_isOptional (h : f.isOptional = true) : f.relaxed = f := by
  cases f with
  | column c => exact congrArg column (by cases c; simpa [isOptional] using h.symm)
  | link l => exact congrArg link (by cases l; simpa [isOptional] using h.symm)
  | backLink b => rfl
  | geometry g => exact congrArg geometry (by cases g; simpa [isOptional] using h.symm)

theorem isOptional_relaxed (f : Field) : f.relaxed.isOptional = true := by
  cases f <;> rfl

end Absorbs

end Field

namespace Table

/-- The table has been told the field, or identifies its rows by the key. -/
def Covers (t : Table) (f : Field) : Prop :=
  f.key = t.uid ∨ ∃ g, t.fields.get? f.key = some g ∧ g.Absorbs f

section Covers

variable {t u : Table} {f : Field}

theorem covers_addField (t : Table) (f : Field) : (t.addField f).Covers f := by
  rcases addField_cases t f with ⟨hk, he⟩ | ⟨-, g, -, he⟩ | ⟨-, -, r, he, -⟩ <;> rw [he]
  · exact Or.inl hk
  · refine Or.inr ⟨g.join f, ?_, Field.absorbs_join g f⟩
    show (t.fields.put f.key _).get? f.key = _
    rw [OrderedMap.get?_put, if_pos rfl]
  · refine Or.inr ⟨f, ?_, Field.absorbs_self f⟩
    show (t.fields.put f.key _).get? f.key = _
    rw [OrderedMap.get?_put, if_pos rfl]

theorem Covers.addField (h : t.Covers f) (g : Field) : (t.addField g).Covers f := by
  rcases h with h | ⟨known, hknown, habsorbs⟩
  · exact Or.inl (h.trans (addField_uid t g).symm)
  · refine Or.inr ?_
    rcases addField_cases t g with ⟨-, he⟩ | ⟨-, k, hk, he⟩ | ⟨-, hnone, r, he, -⟩ <;> rw [he]
    · exact ⟨known, hknown, habsorbs⟩
    · show ∃ g', (t.fields.put g.key _).get? f.key = some g' ∧ _
      rw [OrderedMap.get?_put]
      split
      · rename_i hkey
        rw [hkey, hk] at hknown
        cases hknown
        exact ⟨_, rfl, habsorbs.join g⟩
      · exact ⟨known, hknown, habsorbs⟩
    · show ∃ g', (t.fields.put g.key _).get? f.key = some g' ∧ _
      rw [OrderedMap.get?_put, if_neg]
      · exact ⟨known, hknown, habsorbs⟩
      · intro hkey
        rw [hkey, hnone] at hknown
        cases hknown

/-- A table goes on covering a field as it grows. -/
theorem Covers.grows (h : t.Covers f) (htu : t.Grows u) : u.Covers f := by
  induction htu with
  | refl => exact h
  | add _ g ih => exact ih.addField g
  | @relax u _ key ih =>
    refine ih.imp id ?_
    rintro ⟨g, hg, habsorbs⟩
    show ∃ g', (u.fields.modify key Field.relaxed).get? f.key = some g' ∧ _
    rw [OrderedMap.get?_modify, hg]
    split
    · exact ⟨_, rfl, habsorbs.relaxed⟩
    · exact ⟨_, rfl, habsorbs⟩

theorem Covers.of_relaxed (h : t.Covers f.relaxed) : t.Covers f := by
  unfold Covers at h
  rw [Field.key_relaxed] at h
  exact h.imp id fun ⟨g, hg, habsorbs⟩ => ⟨g, hg, habsorbs.of_relaxed⟩

theorem Covers.hasKey (h : t.Covers f) : t.HasKey f.key :=
  h.imp id fun ⟨_, hg, _⟩ => OrderedMap.mem_keys_of_get? hg

/-- Adding a field that the table covers changes nothing. -/
theorem Covers.addField_eq (h : t.Covers f) : t.addField f = t := by
  rcases h with h | ⟨g, hg, habsorbs⟩
  · exact if_pos h
  · rcases addField_cases t f with ⟨-, he⟩ | ⟨-, g', hg', he⟩ | ⟨-, hnone, r, he, -⟩
    · exact he
    · rw [hg] at hg'
      cases hg'
      rw [he, show g.join f = g from habsorbs, OrderedMap.put_of_get? hg]
    · rw [hg] at hnone
      cases hnone

end Covers

end Table

end FeatureTables
