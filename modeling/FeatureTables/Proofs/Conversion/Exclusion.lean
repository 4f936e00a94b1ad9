import FeatureTables.Proofs.Conversion.Presence
import FeatureTables.Proofs.Sql

/-!
Which members of a substitution group a row refers to. A link has a cell in a row exactly if it led to
a child when the row was made. So a row fulfils the condition of a group exactly if no two members led
to a child, and one did in case some member is required (`exclusive_after_iff`). That a member is
required says what its own parent asks for, which need not be there.
-/

namespace FeatureTables

open Population Xml

/-- The row has cells for the members of a group as the condition of the group wants it. -/
def Row.Satisfies (r : Row) (g : Sql.Group) : Prop :=
  let count := g.columns.countP fun column => (r.get? column).isSome
  if g.required then count = 1 else count ≤ 1

/-- Each row fulfils the conditions of the substitution groups of its table. -/
def Model.Exclusive (m : Model) : Prop :=
  ∀ name t, m.table? name = some t → ∀ g ∈ Sql.groups t, ∀ row ∈ m.rowsOf name, row.Satisfies g

section Satisfies

theorem countP_le_one_iff {α : Type} {p : α → Bool} {xs : List α} (h : xs.Nodup) :
    xs.countP p ≤ 1 ↔ ∀ x ∈ xs, ∀ y ∈ xs, p x = true → p y = true → x = y := by
  induction xs with
  | nil => simp
  | cons a xs ih =>
    obtain ⟨ha, hxs⟩ := List.nodup_cons.1 h
    cases hp : p a with
    | false =>
      rw [List.countP_cons_of_neg (by simp [hp]), ih hxs]
      simp [hp]
    | true =>
      have hzero : xs.countP p + 1 ≤ 1 ↔ ∀ x ∈ xs, ¬ p x = true := by
        rw [← List.countP_eq_zero]
        omega
      rw [List.countP_cons_of_pos (by simp [hp]), hzero]
      constructor
      · intro hnone
        simp only [List.forall_mem_cons]
        refine ⟨⟨fun _ _ => trivial, fun y hy _ hpy => absurd hpy (hnone y hy)⟩, fun x hx => ?_⟩
        exact ⟨fun hpx _ => absurd hpx (hnone x hx), fun y _ hpx _ => absurd hpx (hnone x hx)⟩
      · intro hsame x hx hpx
        exact ha (hsame x (List.mem_cons_of_mem _ hx) a List.mem_cons_self hpx hp ▸ hx)

variable {r : Row} {t : Table} {g : Sql.Group}

theorem Row.atMostOne_iff (h : t.Sound) (hg : g ∈ Sql.groups t) :
    (g.columns.countP fun column => (r.get? column).isSome) ≤ 1 ↔
      ∀ key key' column column' l l', Sql.IsMember t g.name key column l →
        Sql.IsMember t g.name key' column' l' → (r.get? column).isSome = true →
        (r.get? column').isSome = true → key = key' := by
  rw [countP_le_one_iff (Sql.nodup_group h hg)]
  constructor
  · intro hsame key key' column column' l l' hl hl' hc hc'
    have he := hsame column ((Sql.mem_group_iff h hg).2 ⟨key, l, hl⟩) column'
      ((Sql.mem_group_iff h hg).2 ⟨key', l', hl'⟩) hc hc'
    exact h.columns key key' column (OrderedMap.mem_keys_of_get? hl.1)
      (OrderedMap.mem_keys_of_get? hl'.1) hl.2.2 (he ▸ hl'.2.2)
  · intro hsame column hcolumn column' hcolumn' hc hc'
    obtain ⟨key, l, hl⟩ := (Sql.mem_group_iff h hg).1 hcolumn
    obtain ⟨key', l', hl'⟩ := (Sql.mem_group_iff h hg).1 hcolumn'
    have hkey := hsame key key' column column' l l' hl hl' hc hc'
    subst hkey
    exact Option.some.inj (hl.2.2.symm.trans hl'.2.2)

theorem Row.atLeastOne_iff (h : t.Sound) (hg : g ∈ Sql.groups t) :
    0 < (g.columns.countP fun column => (r.get? column).isSome) ↔
      ∃ key column l, Sql.IsMember t g.name key column l ∧ (r.get? column).isSome = true := by
  rw [List.countP_pos_iff]
  constructor
  · rintro ⟨column, hcolumn, hc⟩
    obtain ⟨key, l, hl⟩ := (Sql.mem_group_iff h hg).1 hcolumn
    exact ⟨key, column, l, hl, hc⟩
  · rintro ⟨key, column, l, hl, hc⟩
    exact ⟨column, (Sql.mem_group_iff h hg).2 ⟨key, l, hl⟩, hc⟩

/-- A condition says that no two members have a cell, and that one has if one is required. -/
theorem Row.satisfies_iff (h : t.Sound) (hg : g ∈ Sql.groups t) : r.Satisfies g ↔
      (∀ key key' column column' l l', Sql.IsMember t g.name key column l →
        Sql.IsMember t g.name key' column' l' → (r.get? column).isSome = true →
        (r.get? column').isSome = true → key = key') ∧
      ∀ key column l, Sql.IsMember t g.name key column l → 0 < l.occurs.min →
        ∃ key' column' l', Sql.IsMember t g.name key' column' l' ∧
          (r.get? column').isSome = true := by
  have hrequired := Sql.required_group_iff h hg
  unfold Row.Satisfies
  rw [← Row.atMostOne_iff h hg]
  cases hr : g.required with
  | true =>
    obtain ⟨key, column, l, hl, hmin⟩ := hrequired.1 hr
    rw [if_pos rfl]
    constructor
    · intro hone
      exact ⟨Nat.le_of_eq hone, fun _ _ _ _ _ => (atLeastOne_iff h hg).1 (hone ▸ Nat.one_pos)⟩
    · rintro ⟨hle, hsome⟩
      exact Nat.le_antisymm hle ((atLeastOne_iff h hg).2 (hsome key column l hl hmin))
  | false =>
    rw [if_neg Bool.false_ne_true]
    refine ⟨fun hle => ⟨hle, fun key column l hl hmin => ?_⟩, fun h => h.1⟩
    rw [hrequired.2 ⟨key, column, l, hl, hmin⟩] at hr
    cases hr

end Satisfies

namespace Conversion

/-! ### The cells of links -/

/-- A link with this column led to a child when the row was made. -/
def Birth.Led (b : Birth) (column : String) : Prop :=
  ∃ t key l, b.setting.model.table? b.visit.table = some t ∧
    t.fields.get? key = some (.link l) ∧ l.isMany = false ∧ t.columnName? key = some column ∧
    b.setting.layout.selectNodes l.key b.visit.element ≠ []

section Births

variable {b : Birth} {m : Model} {t u : Table} {key column : String} {l : Link}

/-- A row has a cell in the column of a link if a link with this column led to a child. -/
theorem Birth.Settled.led_iff (h : b.Settled m t u) (hl : u.fields.get? key = some (.link l))
    (hcolumn : u.columnName? key = some column) :
    (b.row.get? column).isSome = true ↔ b.Led column := by
  have hsound := h.sound.tables _ t h.table
  rw [h.isSome_get?]
  constructor
  · rintro ⟨x, hx⟩
    rcases h.follows.cell_cases h.made h.table hsound hx with hx |
      ⟨other, f, found, hf, hother, hfills, hx, -⟩
    · -- the column of the identifier is not that of a link
      obtain ⟨rfl, -⟩ := Prod.mk.inj hx
      rw [← h.becomes.uidName] at hcolumn
      exact absurd ((h.becomes.sound hsound).eq_uid (OrderedMap.mem_keys_of_get? hl) hcolumn)
        ((h.becomes.sound hsound).ne_uid_of_link hl)
    · have hlink : ∃ l', f = .link l' := by
        rcases h.becomes.column_cases hsound hl hcolumn hf (hfills.column hx) with rfl |
          ⟨-, l', rfl, -⟩
        · obtain ⟨g, hg, hgrows⟩ := h.becomes.field hf
          rw [hl] at hg
          cases hg
          cases hgrows
          exact ⟨_, rfl⟩
        · exact ⟨l', rfl⟩
      obtain ⟨l', rfl⟩ := hlink
      have hmany : l'.isMany = false := hfills.leaves_of_cell hx
      exact ⟨t, other, l', h.table, hf, hmany, hfills.column hx,
        (hfills.link_cell hmany (hfills.column hx)).1 ⟨x, hx⟩⟩
  · rintro ⟨t', other, l', ht', hl', hmany, hother, hnodes⟩
    obtain rfl := Option.some.inj (h.table.symm.trans ht')
    obtain ⟨found, hfills, hcells, -⟩ :=
      h.follows.fills h.made h.table hl' (hsound.ne_uid_of_link hl')
    obtain ⟨x, hx⟩ := (hfills.link_cell hmany hother).2 hnodes
    exact ⟨x, hcells _ hx⟩

/-- What the condition of a group says of the links that led to children. -/
theorem Birth.Settled.satisfies_iff (h : b.Settled m t u) {g : Sql.Group}
    (hg : g ∈ Sql.groups u) : b.row.Satisfies g ↔
      (∀ key key' column column' l l', Sql.IsMember u g.name key column l →
        Sql.IsMember u g.name key' column' l' → b.Led column → b.Led column' → key = key') ∧
      ∀ key column l, Sql.IsMember u g.name key column l → 0 < l.occurs.min →
        ∃ key' column' l', Sql.IsMember u g.name key' column' l' ∧ b.Led column' := by
  have hled : ∀ {key column l}, Sql.IsMember u g.name key column l →
      ((b.row.get? column).isSome = true ↔ b.Led column) := fun hl => h.led_iff hl.1 hl.2.2
  rw [Row.satisfies_iff (h.becomes.sound (h.sound.tables _ t h.table)) hg]
  refine and_congr ⟨fun hsame => ?_, fun hsame => ?_⟩ ⟨fun hsome => ?_, fun hsome => ?_⟩
  · intro key key' column column' l l' hl hl' hc hc'
    exact hsame key key' column column' l l' hl hl' ((hled hl).2 hc) ((hled hl').2 hc')
  · intro key key' column column' l l' hl hl' hc hc'
    exact hsame key key' column column' l l' hl hl' ((hled hl).1 hc) ((hled hl').1 hc')
  · intro key column l hl hmin
    obtain ⟨key', column', l', hl', hc⟩ := hsome key column l hl hmin
    exact ⟨key', column', l', hl', (hled hl').1 hc⟩
  · intro key column l hl hmin
    obtain ⟨key', column', l', hl', hc⟩ := hsome key column l hl hmin
    exact ⟨key', column', l', hl', (hled hl').2 hc⟩

end Births

/-! ### Groups -/

/-- The rows fulfil the conditions of all groups exactly if, for each row and each group of its table,
no two of the links that are members of the group in the end led to a child when the row was made, and
one of them did in case one of them is required. -/
theorem exclusive_after_iff (c : Conversion) (docs : List Document) :
    (c.after docs).Exclusive ↔ ∀ b ∈ c.births docs, ∀ u group,
      (c.after docs).table? b.visit.table = some u →
      (∀ key key' column column' l l', Sql.IsMember u group key column l →
        Sql.IsMember u group key' column' l' → b.Led column → b.Led column' → key = key') ∧
      ∀ key column l, Sql.IsMember u group key column l → 0 < l.occurs.min →
        ∃ key' column' l', Sql.IsMember u group key' column' l' ∧ b.Led column' := by
  constructor
  · intro h b hb u group hu
    obtain ⟨t, u', hsettled⟩ := settled_after docs b hb
    obtain rfl := Option.some.inj (hsettled.grown.symm.trans hu)
    have hsound := hsettled.becomes.sound (hsettled.sound.tables _ t hsettled.table)
    have hgroup : ∀ {key column l}, Sql.IsMember u' group key column l → ∃ g ∈ Sql.groups u',
        g.name = group ∧ b.row.Satisfies g := by
      intro key column l hl
      obtain ⟨g, hg, hname⟩ := Sql.exists_group hsound hl
      exact ⟨g, hg, hname, h _ u' hu g hg b.row (mem_rowsOf_after.2 ⟨b, hb, rfl, rfl⟩)⟩
    refine ⟨fun key key' column column' l l' hl hl' => ?_, fun key column l hl => ?_⟩
    · obtain ⟨g, hg, rfl, hrow⟩ := hgroup hl
      exact ((hsettled.satisfies_iff hg).1 hrow).1 key key' column column' l l' hl hl'
    · obtain ⟨g, hg, rfl, hrow⟩ := hgroup hl
      exact ((hsettled.satisfies_iff hg).1 hrow).2 key column l hl
  · intro h name u hu g hg row hrow
    obtain ⟨b, hb, rfl, rfl⟩ := mem_rowsOf_after.1 hrow
    obtain ⟨t, u', hsettled⟩ := settled_after docs b hb
    obtain rfl := Option.some.inj (hsettled.grown.symm.trans hu)
    exact (hsettled.satisfies_iff hg).2 (h b hb u' g.name hu)

/-- A child that has to be there and substitutes for a head, in a parent that may be left out. -/
def holderSchema : String :=
  "<xs:schema xmlns:xs='http://www.w3.org/2001/XMLSchema'><xs:element name='h' type='xs:string' " ++
  "abstract='true'/><xs:element name='m' type='xs:string' substitutionGroup='h'/>" ++
  "<xs:element name='a'><xs:complexType><xs:sequence><xs:element name='p' minOccurs='0'>" ++
  "<xs:complexType><xs:sequence><xs:element ref='h'/></xs:sequence></xs:complexType></xs:element>" ++
  "<xs:element name='q' type='xs:string'/></xs:sequence></xs:complexType></xs:element></xs:schema>"

def holderDocuments : List Document :=
  documents ["<a><p><m>x</m></p><q>y</q></a>", "<a><q>z</q></a>"]

/-- The condition of the group asks for a child in each row, also where the parent is left out. -/
theorem holder_left_out :
    ((ofText holderSchema).after holderDocuments).rowsOf "a" =
      [⟨[("id", .int 1), ("p_m_id", .int 1), ("q", .text "y")]⟩,
        ⟨[("id", .int 2), ("q", .text "z")]⟩] ∧
    ¬ ((ofText holderSchema).after holderDocuments).Exclusive := by
  generalize hm : (ofText holderSchema).after holderDocuments = m
  have hrows : m.rowsOf "a" =
      [⟨[("id", .int 1), ("p_m_id", .int 1), ("q", .text "y")]⟩,
        ⟨[("id", .int 2), ("q", .text "z")]⟩] := by
    rw [← hm]
    decide +kernel
  generalize ht : ({ name := "a", uid := "id", mergeable := true, lastId := 2
                     fields := ⟨[("id", .column ⟨"id", .int, false, true⟩),
                       ("p/m", .link ⟨"p/m", "a_p_m", true, .once, .int, some "h"⟩),
                       ("q/text()", .column ⟨"q/text()", .text, false, false⟩)]⟩ } : Table) = t
  have htable : m.table? "a" = some t := by
    rw [← hm, ← ht]
    decide +kernel
  refine ⟨hrows, fun h => ?_⟩
  obtain ⟨g, hg, hname⟩ := (Sql.grouped t).found
    ("p_m_id", "p/m", .link ⟨"p/m", "a_p_m", true, .once, .int, some "h"⟩)
    (by rw [← ht]; decide +kernel) "h" (by rw [← ht]; rfl)
  have hcolumns : g.columns = ["p_m_id"] := by
    rw [(Sql.grouped t).columns g hg, hname, ← ht]
    decide +kernel
  have hrequired : g.required = true := by
    rw [(Sql.grouped t).required g hg, hname, ← ht]
    decide +kernel
  have hrow := h "a" t htable g hg ⟨[("id", .int 2), ("q", .text "z")]⟩ (by simp [hrows])
  simp [Row.Satisfies, hrequired, hcolumns, Row.get?] at hrow

end Conversion

end FeatureTables
