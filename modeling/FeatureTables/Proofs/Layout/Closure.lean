import FeatureTables.Proofs.Layout.Contents
import FeatureTables.Proofs.Layout.Invariants
import FeatureTables.Proofs.Layout.Way
import FeatureTables.Schema.Closure
import FeatureTables.Xml.Document

/-!
How the tables of a model refer to each other. Each link leads to a table of the model, and each link
back comes from one that holds a link to many rows (`Field.HoldsIn`); building keeps this, whatever fields
are joined on the way. In the end a link to many rows has its link back, unless the key of this link
back is taken, and no name of an element makes a key like that (`buildAll_closed`).
-/

namespace FeatureTables

/-! ### Fields that fit their model -/

/-- What a field of a table says of its model is so: only identifiers number rows, links lead to tables
of the model, and links back come from tables that hold a link to many rows of this one. -/
def Field.HoldsIn (m : Model) (name : String) : Field → Prop
  | .column c => c.autoIncrement = false
  | .link l => ∃ u, m.table? l.table = some u ∧ l.type = u.uidType
  | .backLink b => ∃ u, m.table? b.table = some u ∧ b.type = u.uidType ∧
      ∃ key l, u.fields.get? key = some (.link l) ∧ l.isMany = true ∧ l.table = name
  | .geometry _ => True

/-- No link back has the key of the field, unless the field is one. -/
def Field.Apart (f : Field) : Prop :=
  (∃ b, f = .backLink b) ∨ ∀ table : String, '/' ∉ table.toList → f.key ≠ BackLink.keyFor table

namespace Table

theorem Becomes.uidType {t u : Table} (h : t.Becomes u) (ht : t.Sound) : u.uidType = t.uidType :=
  Grows.uidType (t := { t with lastId := u.lastId }) h (ht.numbered _)

end Table

section HoldsIn

variable {m n : Model} {name : String} {f : Field}

/-- What is so of a model stays so while tables become more. -/
theorem Field.HoldsIn.mono (hm : m.Sound)
    (hkept : ∀ name t, m.table? name = some t → ∃ u, n.table? name = some u ∧ t.Becomes u)
    (h : f.HoldsIn m name) : f.HoldsIn n name := by
  cases f with
  | column c => exact h
  | geometry g => trivial
  | link l =>
    obtain ⟨t, ht, htype⟩ := h
    obtain ⟨u, hu, htu⟩ := hkept _ t ht
    exact ⟨u, hu, htype.trans (htu.uidType (hm.tables _ t ht)).symm⟩
  | backLink b =>
    obtain ⟨t, ht, htype, key, l, hl, hmany, htable⟩ := h
    obtain ⟨u, hu, htu⟩ := hkept _ t ht
    obtain ⟨g, hg, hgrows⟩ := htu.field hl
    cases hgrows with
    | @link _ l' _ htable' _ hmany' =>
      exact ⟨u, hu, htype.trans (htu.uidType (hm.tables _ t ht)).symm, key, l', hg, hmany' hmany,
        htable'.trans htable⟩

theorem Model.Grows.holdsIn (h : m.Grows n) (hm : m.Sound) (hf : f.HoldsIn m name) : f.HoldsIn n name :=
  hf.mono hm fun name t ht =>
    let ⟨u, hu, htu⟩ := h.kept name t ht
    ⟨u, hu, htu.becomes⟩

theorem Field.lasts_holdsIn (m : Model) (name : String) : Field.Lasts (Field.HoldsIn m name) where
  join {f} g hf := by cases f <;> cases g <;> exact hf
  relaxed {f} hf := by cases f <;> exact hf

theorem Field.lasts_apart : Field.Lasts Field.Apart where
  join {f} g hf := by
    refine hf.imp ?_ fun h table => by rw [Field.key_join]; exact h table
    rintro ⟨b, rfl⟩
    exact ⟨b, by cases g <;> rfl⟩
  relaxed {f} hf := by
    refine hf.imp ?_ fun h table => by rw [Field.key_relaxed]; exact h table
    rintro ⟨b, rfl⟩
    exact ⟨b, rfl⟩

end HoldsIn

/-! ### Keys of links back -/

theorem toList_keyFor (table : String) :
    (BackLink.keyFor table).toList = "backlink(".toList ++ (table.toList ++ [')']) := by
  simp [BackLink.keyFor]

theorem keyFor_injective {a b : String} (h : BackLink.keyFor a = BackLink.keyFor b) : a = b := by
  have hlist := congrArg String.toList h
  rw [toList_keyFor, toList_keyFor] at hlist
  exact String.toList_inj.1 (List.append_cancel_right (List.append_cancel_left hlist))

theorem keyFor_ne_of_head {key : String} {c : Char} (h : key.toList.head? = some c) (hc : c ≠ 'b')
    (table : String) : key ≠ BackLink.keyFor table := by
  rintro rfl
  rw [toList_keyFor] at h
  exact hc (Option.some.inj h).symm

/-- The identifier of a table has no key of a link back. -/
theorem Table.Sound.keyFor_ne_uid {t : Table} (h : t.Sound) (table : String) :
    BackLink.keyFor table ≠ t.uid := by
  rcases h.uid with huid | huid <;> rw [huid]
  · exact (keyFor_ne_of_head rfl (by decide) table).symm
  · exact (keyFor_ne_of_head rfl (by decide) table).symm

theorem Field.apart_under (step : String) (optional : Bool) {f : Field} (h : f.Apart) :
    (f.under step optional).Apart := by
  have hslash : ∀ key table : String, '/' ∉ table.toList →
      Key.under step key ≠ BackLink.keyFor table := by
    intro key table htable heq
    have hmem : '/' ∈ (Key.under step key).toList := by simp [Key.under]
    rw [heq, toList_keyFor] at hmem
    simp [htable] at hmem
  cases f with
  | backLink b => exact h
  | column c => exact Or.inr (hslash c.key)
  | link l => exact Or.inr (hslash l.key)
  | geometry g => exact Or.inr (hslash g.key)

namespace Layout

open Xml Element

/-! ### What building keeps -/

/-- What the fields of all tables say of the model is so. -/
structure Fitting (m : Model) : Prop where
  sound : m.Sound
  fits : ∀ name t, m.table? name = some t → t.All (Field.HoldsIn m name)

/-- The names of tables have no slash, and only links back have keys of links back. -/
structure Apart (m : Model) : Prop where
  names : ∀ name t, m.table? name = some t → '/' ∉ name.toList
  apart : ∀ name t, m.table? name = some t → t.All Field.Apart

/-- A name without slash and bracket, as names in XML are. -/
def WordName (s : String) : Prop := '/' ∉ s.toList ∧ ')' ∉ s.toList

instance (s : String) : Decidable (WordName s) :=
  inferInstanceAs (Decidable ('/' ∉ s.toList ∧ ')' ∉ s.toList))

section Invariants

variable {m : Model} {name : String}

theorem fitting_empty : Fitting {} where
  sound := Model.sound_empty
  fits _ _ ht := by cases ht

theorem apart_empty : Apart {} where
  names _ _ ht := by cases ht
  apart _ _ ht := by cases ht

theorem table?_put {t u : Table} {key : String}
    (h : ({ m with tables := m.tables.put name t } : Model).table? key = some u) :
    key = name ∧ u = t ∨ m.table? key = some u := by
  change (m.tables.put name t).get? key = some u at h
  rw [OrderedMap.get?_put] at h
  split at h
  · exact Or.inl ⟨by assumption, (Option.some.inj h).symm⟩
  · exact Or.inr h

theorem table?_addTable {natural : Bool} {u : Table} {key : String} (hnone : m.table? name = none)
    (h : (m.addTable (Table.create name natural)).table? key = some u) :
    key = name ∧ u = Table.create name natural ∨ m.table? key = some u := by
  unfold Model.addTable at h
  rw [show m.table? (Table.create name natural).name = none from hnone] at h
  exact table?_put h

theorem table?_modify {change : Table → Table} {u : Table} {key : String}
    (h : ({ m with tables := m.tables.modify name change } : Model).table? key = some u) :
    key ≠ name ∧ m.table? key = some u ∨ key = name ∧ ∃ t, m.table? name = some t ∧ u = change t := by
  change (m.tables.modify name change).get? key = some u at h
  rw [OrderedMap.get?_modify] at h
  split at h
  · rename_i hkey
    subst hkey
    obtain ⟨t, ht, rfl⟩ := Option.map_eq_some_iff.1 h
    exact Or.inr ⟨rfl, t, ht, rfl⟩
  · exact Or.inl ⟨by assumption, h⟩

/-- What holds of the tables of a model holds of them with links back put into them. -/
theorem tables_settling {Q : String → Table → Prop} {os : List Model.Owed}
    (h : ∀ name t, m.table? name = some t → Q name t)
    (hback : ∀ o ∈ os, ∀ name t, Q name t → Q name (t.addField (.backLink ⟨o.source, o.type⟩))) :
    ∀ name t, (os.foldl Model.settle m).table? name = some t → Q name t := by
  induction os generalizing m with
  | nil => exact h
  | cons o os ih =>
    refine ih (fun key u hu => ?_) fun p hp => hback p (List.mem_cons_of_mem _ hp)
    rcases table?_modify hu with ⟨-, hu⟩ | ⟨rfl, t, ht, rfl⟩
    · exact h key u hu
    · split
      · exact h _ t ht
      · exact hback o List.mem_cons_self _ t (h _ t ht)

/-- All fields of the model have the property, but for those that identify rows. -/
def AllFields (P : Field → Prop) (m : Model) : Prop :=
  ∀ name t, m.table? name = some t → t.All P

section AllFields

variable {P : Field → Prop}

theorem AllFields.started (h : AllFields P m) (natural : Bool) (hnone : m.table? name = none) :
    AllFields P (m.addTable (Table.create name natural)) := by
  intro key u hu
  rcases table?_addTable hnone hu with ⟨-, rfl⟩ | hu
  · exact Table.all_create _ _ _
  · exact h key u hu

theorem AllFields.modify (h : AllFields P m) {change : Table → Table}
    (hchange : ∀ t : Table, t.All P → (change t).All P) :
    AllFields P { m with tables := m.tables.modify name change } := by
  intro key u hu
  rcases table?_modify hu with ⟨-, hu⟩ | ⟨rfl, t, ht, rfl⟩
  · exact h key u hu
  · exact hchange t (h key t ht)

theorem AllFields.settling {os : List Model.Owed} (h : AllFields P m) (hP : Field.Lasts P)
    (hback : ∀ o ∈ os, P (.backLink ⟨o.source, o.type⟩)) : AllFields P (os.foldl Model.settle m) :=
  tables_settling h fun o ho _ _ ht => ht.addField hP (hback o ho)

end AllFields

/-- Fields still fit when one table gets fields that fit. -/
theorem Fitting.modify (h : Fitting m) (name : String) {change : Table → Table}
    (hgrows : ∀ t : Table, t.Grows (change t))
    (hchange : ∀ t : Table, t.All (Field.HoldsIn m name) → (change t).All (Field.HoldsIn m name)) :
    Fitting { m with tables := m.tables.modify name change } := by
  have hm := Model.grows_modify m name hgrows
  refine ⟨hm.sound h.sound, fun key u hu => ?_⟩
  have hall : u.All (Field.HoldsIn m key) := by
    rcases table?_modify hu with ⟨-, hu⟩ | ⟨rfl, t, ht, rfl⟩
    · exact h.fits key u hu
    · exact hchange t (h.fits key t ht)
  exact hall.mono fun f hf => hm.holdsIn h.sound hf

theorem invariant_fitting : Invariant (fun _ => True) (fun _ => True) Fitting
    fun m f => ∀ name, f.HoldsIn m name where
  next _ _ _ _ := trivial
  grows hm hgrows hf name := hgrows.holdsIn hm.sound (hf name)
  started {m name} natural hm _ hnone := by
    have hgrows := Model.grows_addTable m natural hnone
    refine ⟨hgrows.sound hm.sound, fun key u hu => ?_⟩
    rcases table?_addTable hnone hu with ⟨-, rfl⟩ | hu
    · exact Table.all_create _ _ _
    · exact (hm.fits key u hu).mono fun f hf => hgrows.holdsIn hm.sound hf
  extended {m name fs} hm hfs :=
    hm.modify name (fun t => Table.Grows.foldl grows_addField t fs) fun t ht =>
      ht.extend (Field.lasts_holdsIn m name) fun f hf => hfs f hf name
  own hf name := by
    rcases mem_ownFields hf with ⟨_, _, -, rfl⟩ | ⟨_, rfl⟩ <;> rfl
  geometry _ := trivial
  link _ hu _ := ⟨_, hu, by rw [hu]; rfl⟩
  under {m f} step optional hf name := by
    cases f with
    | column c => exact hf name
    | link l => exact hf name
    | backLink b => exact hf name
    | geometry g => trivial

theorem invariant_apart : Invariant (fun e => WordName e.localName) (fun name => '/' ∉ name.toList)
    Apart fun _ f => f.Apart where
  next {name e} parent natural hname he := by
    have hstep : '/' ∉ (stepName (keyStep parent e)).toList := fun hmem =>
      (Text.mem_replace hmem).elim (by decide) (slash_keyStep parent he.1)
    cases natural
    · simpa [nextName, hname] using hstep
    · exact hstep
  grows _ _ hf := hf
  started {m name} natural hm hname hnone := by
    refine ⟨fun key u hu => ?_, AllFields.started hm.apart natural hnone⟩
    rcases table?_addTable hnone hu with ⟨rfl, -⟩ | hu
    · exact hname
    · exact hm.names key u hu
  extended {m name fs} hm hfs := by
    refine ⟨fun key u hu => ?_,
      AllFields.modify hm.apart fun t ht => ht.extend Field.lasts_apart hfs⟩
    rcases table?_modify hu with ⟨-, hu⟩ | ⟨rfl, t, ht, -⟩
    · exact hm.names key u hu
    · exact hm.names key t ht
  own {m e t f} hf := by
    rcases mem_ownFields hf with ⟨name, _, -, rfl⟩ | ⟨_, rfl⟩
    · refine Or.inr fun table _ => keyFor_ne_of_head (c := '@') ?_ (by decide) table
      show ("@" ++ name).toList.head? = some '@'
      simp
    · exact Or.inr fun table _ => @keyFor_ne_of_head Key.text 't' rfl (by decide) table
  geometry := Or.inr fun table _ => @keyFor_ne_of_head Key.geometry 'g' rfl (by decide) table
  link {m parent e _ _ _ _} he _ := by
    refine Or.inr fun table _ hkey => ?_
    change keyStep parent e = BackLink.keyFor table at hkey
    have hlast : (keyStep parent e).toList.getLast? = some ')' := by
      rw [hkey, toList_keyFor, ← List.append_assoc]
      exact List.getLast?_concat
    rcases List.mem_cons.1 (getLast?_keyStep parent e hlast) with h | h
    · exact absurd h (by decide)
    · exact he.2 h
  under step optional hf := Field.apart_under step optional hf

end Invariants

/-! ### Links back -/

section Owed

variable {m n : Model} {o : Model.Owed}

/-- The links back that a model calls for are those of its links to many rows. -/
theorem mem_owed_iff (hm : m.Sound) : o ∈ m.owed ↔ ∃ name t key l, m.table? name = some t ∧
    t.fields.get? key = some (.link l) ∧ l.isMany = true ∧ o = ⟨l.table, name, t.uidType⟩ := by
  simp only [Model.owed, List.mem_flatMap, List.mem_map, List.mem_filter, Table.links,
    List.mem_filterMap, OrderedMap.values]
  constructor
  · rintro ⟨t, ⟨⟨name, t'⟩, ht, rfl⟩, l, ⟨⟨f, ⟨⟨key, f'⟩, hf, rfl⟩, hl⟩, hmany⟩, rfl⟩
    have ht := OrderedMap.get?_of_mem_entries hm.nodup ht
    have hf := OrderedMap.get?_of_mem_entries (hm.tables name t' ht).nodup hf
    cases f' with
    | link l' =>
      cases hl
      exact ⟨name, t', key, l, ht, hf, hmany, by rw [hm.named name t' ht]⟩
    | _ => cases hl
  · rintro ⟨name, t, key, l, ht, hl, hmany, rfl⟩
    refine ⟨t, ⟨(name, t), OrderedMap.mem_entries_of_get? ht, rfl⟩, l,
      ⟨⟨_, ⟨(key, .link l), OrderedMap.mem_entries_of_get? hl, rfl⟩, rfl⟩, hmany⟩, ?_⟩
    rw [hm.named name t ht]

/-- The table of a link back has its key. -/
def Paid (m : Model) (o : Model.Owed) : Prop :=
  ∀ t, m.table? o.target = some t → BackLink.keyFor o.source ∈ t.fields.keys

theorem Paid.grows (h : Paid m o) (hm : m.Grows n) (htarget : ∃ t, m.table? o.target = some t) :
    Paid n o := by
  intro u hu
  obtain ⟨t, ht⟩ := htarget
  obtain ⟨u', hu', htu⟩ := hm.kept _ t ht
  obtain rfl := Option.some.inj (hu.symm.trans hu')
  exact htu.mem_keys (h t ht)

theorem hasBackLink_iff {t : Table} (ht : t.Sound) {source : String} : t.hasBackLink source = true ↔
    ∃ b, t.fields.get? (BackLink.keyFor source) = some (.backLink b) ∧ b.table = source := by
  simp only [Table.hasBackLink, List.any_eq_true, OrderedMap.values, List.mem_map]
  constructor
  · rintro ⟨f, ⟨⟨key, f'⟩, hf, rfl⟩, hsource⟩
    have hf := OrderedMap.get?_of_mem_entries ht.nodup hf
    cases f' with
    | backLink b =>
      have hb : b.table = source := by simpa using hsource
      have hkey : BackLink.keyFor b.table = key := ht.keyed _ _ hf
      exact ⟨b, by rw [← hb, hkey, hf], hb⟩
    | _ => cases hsource
  · rintro ⟨b, hf, hb⟩
    exact ⟨_, ⟨_, OrderedMap.mem_entries_of_get? hf, rfl⟩, by simpa using hb⟩

/-- Putting a link back into its table gives the table its key. -/
theorem paid_settle (hm : m.Sound) (o : Model.Owed) : Paid (m.settle o) o := by
  intro u hu
  rcases table?_modify hu with ⟨hne, -⟩ | ⟨-, t, ht, rfl⟩
  · exact absurd rfl hne
  · have hsound := hm.tables _ t ht
    split
    · rename_i hback
      obtain ⟨b, hb, -⟩ := (hasBackLink_iff hsound).1 hback
      exact OrderedMap.mem_keys_of_get? hb
    · refine (Table.hasKey_addField t (.backLink ⟨o.source, o.type⟩)).resolve_left fun hkey => ?_
      rw [Table.addField_uid] at hkey
      exact hsound.keyFor_ne_uid _ hkey

/-- What is owed is so: the source holds a link to many rows of the target. -/
def Justified (m : Model) (o : Model.Owed) : Prop :=
  (∃ t, m.table? o.target = some t) ∧ (Field.backLink ⟨o.source, o.type⟩).HoldsIn m o.target

theorem Justified.grows (h : Justified m o) (hm : m.Sound) (hmn : m.Grows n) : Justified n o := by
  obtain ⟨⟨t, ht⟩, hfits⟩ := h
  obtain ⟨u, hu, -⟩ := hmn.kept _ t ht
  exact ⟨⟨u, hu⟩, hmn.holdsIn hm hfits⟩

theorem justified_of_mem_owed (h : Fitting m) (ho : o ∈ m.owed) : Justified m o := by
  obtain ⟨name, t, key, l, ht, hl, hmany, rfl⟩ := (mem_owed_iff h.sound).1 ho
  obtain ⟨u, hu, -⟩ := h.fits name t ht key _ hl ((h.sound.tables name t ht).ne_uid_of_link hl)
  exact ⟨⟨u, hu⟩, t, ht, rfl, key, l, hl, hmany, rfl⟩

theorem Fitting.settle (h : Fitting m) (ho : Justified m o) : Fitting (m.settle o) := by
  refine h.modify o.target (fun t => ?_) fun t ht => ?_
  · split
    · exact .refl t
    · exact (Table.Grows.refl t).add _
  · split
    · exact ht
    · exact ht.addField (Field.lasts_holdsIn m o.target) ho.2

/-- Links back are put one after the other. -/
theorem fitting_settling {os : List Model.Owed} (h : Fitting m) (hos : ∀ o ∈ os, Justified m o) :
    Fitting (os.foldl Model.settle m) ∧ ∀ o ∈ os, Paid (os.foldl Model.settle m) o := by
  induction os generalizing m with
  | nil => exact ⟨h, fun o ho => by cases ho⟩
  | cons o os ih =>
    have ho := hos o List.mem_cons_self
    have hgrows := Model.grows_settle m o
    obtain ⟨hfitting, hpaid⟩ := ih (h.settle ho) fun p hp =>
      (hos p (List.mem_cons_of_mem _ hp)).grows h.sound hgrows
    refine ⟨hfitting, fun p hp => ?_⟩
    rcases List.mem_cons.1 hp with rfl | hp
    · exact (paid_settle h.sound p).grows (Model.grows_settling _ os) (ho.grows h.sound hgrows).1
    · exact hpaid p hp

theorem apart_settling (h : Apart m) (os : List Model.Owed) : Apart (os.foldl Model.settle m) :=
  ⟨tables_settling h.names fun _ _ _ _ hname => hname,
    AllFields.settling h.apart Field.lasts_apart fun _ _ => Or.inl ⟨_, rfl⟩⟩

/-- A link back that is added makes no link. -/
theorem link_of_addField {t : Table} {b : BackLink} {key : String} {l : Link}
    (h : (t.addField (.backLink b)).fields.get? key = some (.link l)) :
    t.fields.get? key = some (.link l) := by
  rcases Table.addField_cases t (.backLink b) with ⟨-, he⟩ | ⟨-, f, hf, he⟩ | ⟨-, -, r, he, -⟩
  · rwa [he] at h
  · rw [he, Field.join_backLink] at h
    change (t.fields.put _ f).get? key = some (.link l) at h
    rw [OrderedMap.get?_put] at h
    split at h
    · rename_i hkey
      rw [hkey, hf, h]
    · exact h
  · rw [he] at h
    change (t.fields.put _ _).get? key = some (.link l) at h
    rw [OrderedMap.get?_put] at h
    split at h
    · cases h
    · exact h

theorem link_of_settling {os : List Model.Owed} {name key : String} {u : Table} {l : Link}
    (hu : (os.foldl Model.settle m).table? name = some u) (hl : u.fields.get? key = some (.link l)) :
    ∃ t, m.table? name = some t ∧ t.fields.get? key = some (.link l) := by
  induction os generalizing m with
  | nil => exact ⟨u, hu, hl⟩
  | cons o os ih =>
    obtain ⟨t, ht, hlt⟩ := ih hu
    rcases table?_modify ht with ⟨-, ht⟩ | ⟨rfl, t₀, ht₀, rfl⟩
    · exact ⟨t, ht, hlt⟩
    · split at hlt
      · exact ⟨t₀, ht₀, hlt⟩
      · exact ⟨t₀, ht₀, link_of_addField hlt⟩

end Owed

/-! ### Documents -/

/-- A link to many rows has its link back, or its key is taken. -/
def Returned (m : Model) : Prop :=
  ∀ name t key l, m.table? name = some t → t.fields.get? key = some (.link l) → l.isMany = true →
    ∀ u, m.table? l.table = some u → BackLink.keyFor name ∈ u.fields.keys

section Build

variable {s : Setting} {m : Model} {root : Element} {o : Outcome}

theorem build_fitting (hm : Fitting m) (h : build s m root = .ok o) :
    Fitting o.model ∧ Returned o.model := by
  obtain ⟨b, hb, -, hmodel⟩ := build_eq_ok_iff.1 h
  have hfitting : Fitting b.model :=
    invariant_fitting.buildTable trivial (fun _ _ => trivial) hm hb
  generalize hroot : ({ b.model with rootTable? := b.model.rootTable?.or o.rootTable? } : Model) = n
    at hmodel
  have hn : Fitting n := by
    rw [← hroot]
    exact ⟨(Model.grows_rootTable b.model _).sound hfitting.sound, hfitting.fits⟩
  rw [hmodel]
  obtain ⟨hsettled, hpaid⟩ := fitting_settling hn fun o ho => justified_of_mem_owed hn ho
  refine ⟨hsettled, fun name u key l hu hl hmany v hv => ?_⟩
  obtain ⟨t, ht, hlt⟩ := link_of_settling hu hl
  exact hpaid ⟨l.table, name, t.uidType⟩
    ((mem_owed_iff hn.sound).2 ⟨name, t, key, l, ht, hlt, hmany, rfl⟩) v hv

theorem build_apart (hm : Apart m) (hnames : ∀ y ∈ root.descendants, WordName y.localName)
    (h : build s m root = .ok o) : Apart o.model := by
  obtain ⟨b, hb, -, hmodel⟩ := build_eq_ok_iff.1 h
  have hapart : Apart b.model := invariant_apart.buildTable
    (hnames root (mem_descendants_self root)).1
    (fun y hy => hnames y (mem_descendants_iff.2 (Or.inr hy))) hm hb
  have hn : Apart { b.model with rootTable? := b.model.rootTable?.or o.rootTable? } :=
    ⟨hapart.names, hapart.apart⟩
  rw [hmodel]
  exact apart_settling hn _

end Build

end Layout

/-- Each one-to-many link has a link back to its table in the table that it leads to. -/
def Model.LinkedBack (m : Model) : Prop :=
  ∀ name t key l, m.table? name = some t → t.fields.get? key = some (.link l) → l.isMany = true →
    ∃ u b, m.table? l.table = some u ∧
      u.fields.get? (BackLink.keyFor name) = some (.backLink b) ∧ b.table = name

/-- The table has its fields under their keys, first the identifier, which numbers rows unless the
document identifies them; and its links and links back agree with the other tables. -/
structure Table.Closed (m : Model) (name : String) (t : Table) : Prop where
  named : t.name = name
  distinct : t.fields.keys.Nodup
  keyed : ∀ key f, t.fields.get? key = some f → f.key = key
  first : t.fields.keys.head? = some t.uid
  numbers : ∀ key c, t.fields.get? key = some (.column c) →
    (c.autoIncrement = true ↔ key = t.uid ∧ t.hasNaturalId = false)
  links : ∀ key l, t.fields.get? key = some (.link l) → ∃ u, m.table? l.table = some u ∧
    l.type = u.uidType ∧ (l.isMany = true → BackLink.keyFor name ∈ u.fields.keys)
  backLinks : ∀ key b, t.fields.get? key = some (.backLink b) → ∃ u, m.table? b.table = some u ∧
    b.type = u.uidType ∧
    ∃ key l, u.fields.get? key = some (.link l) ∧ l.isMany = true ∧ l.table = name

structure Model.Closed (m : Model) : Prop where
  distinct : m.tables.keys.Nodup
  tables : ∀ name t, m.table? name = some t → t.Closed m name

namespace Layout

open Xml Element

section Closed

variable {m : Model}

/-- The links back are there, as no other field can have their keys. -/
theorem Fitting.linkedBack (h : Fitting m) (hreturned : Returned m) (hapart : Apart m) :
    m.LinkedBack := by
  intro name t key l ht hl hmany
  have hsound := h.sound.tables name t ht
  obtain ⟨u, hu, -⟩ := h.fits name t ht key _ hl (hsound.ne_uid_of_link hl)
  have hsoundTarget := h.sound.tables _ u hu
  obtain ⟨f, hf⟩ := OrderedMap.mem_keys_iff.1 (hreturned name t key l ht hl hmany u hu)
  rcases hapart.apart _ u hu _ f hf (hsoundTarget.keyFor_ne_uid name) with ⟨b, rfl⟩ | hne
  · exact ⟨u, b, hu, hf, keyFor_injective (hsoundTarget.keyed _ _ hf)⟩
  · exact absurd (hsoundTarget.keyed _ _ hf) (hne name (hapart.names name t ht))

/-- A new table has its identifier in front, and keeps it there. -/
theorem uid_of_grows {name : String} {natural : Bool} {t : Table}
    (h : (Table.create name natural).Grows t) : t.fields.keys.head? = some t.uid ∧
      ∃ c, t.fields.get? t.uid = some (.column c) ∧ c.autoIncrement = !t.hasNaturalId := by
  have hcreate : (Table.create name natural).fields.get? (Table.create name natural).uid =
      some (.column (Table.uidFor natural)) := by
    simp [Table.create, OrderedMap.get?_put]
  obtain ⟨c, hc, -, hnumbers⟩ := h.uidColumn hcreate
  refine ⟨?_, c, hc, ?_⟩
  · obtain ⟨rest, hrest⟩ := h.prefix_keys
    rw [← hrest, h.uid]
    rfl
  · rw [hnumbers, h.hasNaturalId]
    cases natural <;> rfl

theorem Fitting.closed (h : Fitting m) (hreturned : Returned m) (hgrows : ({} : Model).Grows m) :
    m.Closed := by
  refine ⟨h.sound.nodup, fun name t ht => ?_⟩
  have hsound := h.sound.tables name t ht
  obtain ⟨natural, hgrown⟩ := hgrows.fresh name t ht rfl
  obtain ⟨hfirst, uid, huid, hnumbers⟩ := uid_of_grows hgrown
  have hother : ∀ {key f}, t.fields.get? key = some f → (∀ c, f ≠ .column c) → key ≠ t.uid := by
    rintro key f hf hcolumn rfl
    exact hcolumn uid (Option.some.inj (hf.symm.trans huid))
  refine ⟨h.sound.named name t ht, hsound.nodup, hsound.keyed, hfirst, fun key c hc => ?_,
    fun key l hl => ?_, fun key b hb => ?_⟩
  · by_cases hkey : key = t.uid
    · rw [hkey, huid] at hc
      cases hc
      simp [hkey, hnumbers]
    · have hfits : c.autoIncrement = false := h.fits name t ht key _ hc hkey
      simp [hkey, hfits]
  · obtain ⟨u, hu, htype⟩ := h.fits name t ht key _ hl (hother hl fun _ => nofun)
    exact ⟨u, hu, htype, fun hmany => hreturned name t key l ht hl hmany u hu⟩
  · exact h.fits name t ht key _ hb (hother hb fun _ => nofun)

end Closed

/-- The model with documents built in one after the other, each one in its own setting. -/
def buildAll (m : Model) (docs : List (Setting × Element)) : Except Error Model :=
  docs.foldlM (fun m d => Outcome.model <$> build d.1 m d.2) m

section BuildAll

variable {m n : Model} {docs : List (Setting × Element)}

theorem buildAll_cons {d : Setting × Element} : buildAll m (d :: docs) = .ok n ↔
    ∃ o, build d.1 m d.2 = .ok o ∧ buildAll o.model docs = .ok n := by
  unfold buildAll
  rw [List.foldlM_cons]
  cases build d.1 m d.2 with
  | error e => simp [Functor.map, Except.map, bind, Except.bind]
  | ok o => simp [Functor.map, Except.map, bind, Except.bind]

theorem buildAll_fitting (hm : Fitting m) (hreturned : Returned m) (h : buildAll m docs = .ok n) :
    Fitting n ∧ Returned n ∧ m.Grows n := by
  induction docs generalizing m with
  | nil =>
    cases h
    exact ⟨hm, hreturned, .refl _⟩
  | cons d docs ih =>
    obtain ⟨o, ho, h⟩ := buildAll_cons.1 h
    obtain ⟨hfitting, hreturned⟩ := build_fitting hm ho
    obtain ⟨hn, hreturned', hgrows⟩ := ih hfitting hreturned h
    exact ⟨hn, hreturned', (build_grows ho).trans hgrows⟩

theorem buildAll_apart (hm : Apart m)
    (hnames : ∀ d ∈ docs, ∀ y ∈ d.2.descendants, WordName y.localName)
    (h : buildAll m docs = .ok n) : Apart n := by
  induction docs generalizing m with
  | nil =>
    cases h
    exact hm
  | cons d docs ih =>
    obtain ⟨o, ho, h⟩ := buildAll_cons.1 h
    exact ih (build_apart hm (hnames d List.mem_cons_self) ho)
      (fun d' hd' => hnames d' (List.mem_cons_of_mem _ hd')) h

/-- The tables of documents that were built into an empty model are closed under their links. A
one-to-many link has its link back there, unless its key is taken; and names of elements without
slashes and brackets take no such key. -/
theorem buildAll_closed (h : buildAll {} docs = .ok m) : m.Closed ∧
    ((∀ d ∈ docs, ∀ y ∈ d.2.descendants, WordName y.localName) → m.LinkedBack) := by
  obtain ⟨hfitting, hreturned, hgrows⟩ :=
    buildAll_fitting fitting_empty (fun _ _ _ _ ht => by cases ht) h
  exact ⟨hfitting.closed hreturned hgrows, fun hnames =>
    hfitting.linkedBack hreturned (buildAll_apart apart_empty hnames h)⟩

end BuildAll

/-- The document of a text in the setting of a schema. -/
def settled? (schema text : String) : Option (Setting × Element) := do
  let catalog ← (Schema.Catalog.ofText schema).toOption
  let d ← (Document.ofText text).toOption
  let typing ← (Typing.ofRoot catalog d.root).toOption
  return (⟨typing, {}⟩, d.root)

/-- Elements that are children of elements of their own kind. -/
def nestedSchema : String :=
  "<xs:schema xmlns:xs='http://www.w3.org/2001/XMLSchema'><xs:complexType name='C'><xs:sequence>" ++
  "<xs:element name='c' type='C' minOccurs='0' maxOccurs='unbounded'/></xs:sequence>" ++
  "<xs:attribute name='id' type='xs:ID'/></xs:complexType><xs:element name='c' type='C'/></xs:schema>"

/-- A table that leads to itself leads back to itself, and goes on doing so. -/
theorem closed_of_nested : ∃ d d' m, settled? nestedSchema "<c id='k'><c id='l'/></c>" = some d ∧
    settled? nestedSchema "<c id='m'/>" = some d' ∧ buildAll {} [d, d'] = .ok m ∧ m.Closed ∧
    m.LinkedBack ∧ (m.table? "c").map (·.fields.keys) = some ["@id", "c", "backlink(c)"] := by
  have heval : ((settled? nestedSchema "<c id='k'><c id='l'/></c>").bind fun d =>
      (settled? nestedSchema "<c id='m'/>").bind fun d' =>
        (buildAll {} [d, d']).toOption.map fun m =>
          (decide (∀ x ∈ [d, d'], ∀ y ∈ x.2.descendants, WordName y.localName),
            (m.table? "c").map (·.fields.keys))) =
      some (true, some ["@id", "c", "backlink(c)"]) := by
    decide +kernel
  obtain ⟨d, hd, heval⟩ := Option.bind_eq_some_iff.1 heval
  obtain ⟨d', hd', heval⟩ := Option.bind_eq_some_iff.1 heval
  obtain ⟨m, hm, heval⟩ := Option.map_eq_some_iff.1 heval
  obtain ⟨hnames, hkeys⟩ := Prod.mk.inj heval
  rw [toOption_eq_some_iff] at hm
  obtain ⟨hclosed, hlinked⟩ := buildAll_closed hm
  exact ⟨d, d', m, hd, hd', hm, hclosed, hlinked (of_decide_eq_true hnames), hkeys⟩

/-- Repeated elements below a repeated one, with a name that no document in XML has. -/
def takenSchema : String :=
  "<xs:schema xmlns:xs='http://www.w3.org/2001/XMLSchema'><xs:element name='a'><xs:complexType>" ++
  "<xs:sequence><xs:element name='c' maxOccurs='unbounded'><xs:complexType><xs:sequence>" ++
  "<xs:element name='backlink(a)' type='xs:string' maxOccurs='unbounded'/></xs:sequence>" ++
  "</xs:complexType></xs:element></xs:sequence></xs:complexType></xs:element></xs:schema>"

/-- The key of the link back is that of another link. -/
theorem taken_key_not_linked_back : ∃ d m,
    settled? takenSchema "<a><c><backlink(a)>x</backlink(a)></c></a>" = some d ∧
    buildAll {} [d] = .ok m ∧ ¬ m.LinkedBack := by
  have heval : ((settled? takenSchema "<a><c><backlink(a)>x</backlink(a)></c></a>").bind fun d =>
      (buildAll {} [d]).toOption.map fun m =>
        ((m.table? "a").bind (·.fields.get? "c"), (m.table? "a_c").bind (·.fields.get? "backlink(a)"))) =
      some (some (.link ⟨"c", "a_c", false, ⟨1, .unbounded⟩, .int, none⟩),
        some (.link ⟨"backlink(a)", "a_c_backlink(a)", false, ⟨1, .unbounded⟩, .int, none⟩)) := by
    decide +kernel
  obtain ⟨d, hd, heval⟩ := Option.bind_eq_some_iff.1 heval
  obtain ⟨m, hm, heval⟩ := Option.map_eq_some_iff.1 heval
  obtain ⟨hsource, htarget⟩ := Prod.mk.inj heval
  rw [toOption_eq_some_iff] at hm
  refine ⟨d, m, hd, hm, fun h => ?_⟩
  obtain ⟨t, ht, hl⟩ := Option.bind_eq_some_iff.1 hsource
  obtain ⟨u, b, hu, hb, -⟩ := h "a" t "c" _ ht hl rfl
  rw [hu] at htarget
  change u.fields.get? "backlink(a)" = _ at htarget hb
  rw [htarget] at hb
  cases hb

end Layout

end FeatureTables
