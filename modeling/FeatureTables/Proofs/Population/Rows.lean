import FeatureTables.Proofs.Population.Steps

/-!
What populating does, read off the tree of its visits. A visit either finds its row made and stops
there, or makes a row whose cells and visits come field by field from the table (`Follows`). In the
order of the visits, elements enter the accounts of their tables (`Traces`), and rows are put behind
those of their tables. All of it is one statement, `visit_faithful`.
-/

namespace FeatureTables.Population

open Xml

theorem exists_of_mem_right {α β : Type} {R : α → β → Prop} {xs : List α} {ys : List β}
    (h : List.Forall₂ R xs ys) {y : β} (hy : y ∈ ys) : ∃ x ∈ xs, R x y := by
  induction h with
  | nil => cases hy
  | @cons x y' xs ys hxy _ ih =>
    rcases List.mem_cons.1 hy with rfl | hy
    · exact ⟨x, List.mem_cons_self, hxy⟩
    · obtain ⟨x', hx', hR⟩ := ih hy
      exact ⟨x', List.mem_cons_of_mem _ hx', hR⟩

theorem exists_of_mem_left {α β : Type} {R : α → β → Prop} {xs : List α} {ys : List β}
    (h : List.Forall₂ R xs ys) {x : α} (hx : x ∈ xs) : ∃ y ∈ ys, R x y :=
  exists_of_mem_right h.flip hx

/-- The rows of a table so far. -/
def rowsOf (p : Population) (name : String) : List Row := (p.rows.get? name).getD []

/-- The rows that visits made in a table. -/
def made (name : String) (vs : List Visit) : List Row :=
  vs.filterMap fun v => if v.table = name then v.row? else none

theorem made_append (name : String) (vs ws : List Visit) :
    made name (vs ++ ws) = made name vs ++ made name ws :=
  List.filterMap_append

/-- Visits that all made rows made as many rows as they are. -/
theorem length_made {name : String} {vs : List Visit}
    (h : ∀ v ∈ vs.filter (·.table = name), v.row?.isSome = true) :
    (made name vs).length = (vs.filter (·.table = name)).length := by
  have heq : made name vs = (vs.filter (·.table = name)).filterMap (·.row?) := by
    simp [made, List.filterMap_filter]
  rw [heq]
  generalize vs.filter (·.table = name) = vs at h
  induction vs with
  | nil => rfl
  | cons v vs ih =>
    obtain ⟨row, hrow⟩ := Option.isSome_iff_exists.1 (h v List.mem_cons_self)
    rw [List.filterMap_cons_some hrow, List.length_cons, List.length_cons,
      ih fun w hw => h w (List.mem_cons_of_mem _ hw)]

/-! ### What a visit does -/

/-- What a field brings to the row of an element: cells, and the visits of a link. -/
def Fills (s : Setting) (e : Element) (t : Table) (id : Value) (parent? : Option Parent)
    (key : String) (found : List (String × Value) × List Visit) : Field → Prop
  | .column c => found.2 = [] ∧
    match s.layout.selectText? c.key e with
    | some text => found.1 = cell (t.columnName? key) (some (c.type.read text))
    | none => c.optional = true ∧ found.1 = []
  | .link l =>
    List.Forall₂ (fun child v => v.element = child ∧ v.table = targetOf s l child ∧
      v.parent? = some ⟨t.name, id⟩) (s.layout.selectNodes l.key e) found.2 ∧
    (found.2 = [] → l.optional = true) ∧ l.occurs.max.allows found.2.length = true ∧
    found.1 = if l.isMany then [] else cell (t.columnName? key) (found.2.map (·.id)).getLast?
  | .backLink b => found.2 = [] ∧
    found.1 = cell (t.columnName? key) ((parent?.filter (·.table == b.table)).map (·.id))
  | .geometry g => found.2 = [] ∧
    match s.layout.selectShape? g.key e with
    | some shape => found.1 =
        cell (t.columnName? key) ((s.codec shape).map fun (wkt, srid) => .geometry wkt srid)
    | none => g.optional = true ∧ found.1 = []

/-- A visit goes no further, or follows the fields of its table. -/
inductive Follows (s : Setting) : Visit → Prop
  | known {e parent? id t} : s.model.table? t.name = some t →
      Follows s ⟨e, t.name, parent?, id, none, []⟩
  | made {e parent? id t found} : s.model.table? t.name = some t →
      List.Forall₂ (fun (field : String × Field) found =>
        Fills s e t id parent? field.1 found field.2) (t.fields.entries.filter (·.1 ≠ t.uid))
        found →
      Follows s ⟨e, t.name, parent?, id, some ⟨(t.uidName, id) :: (found.map (·.1)).flatten⟩,
        (found.map (·.2)).flatten⟩

/-- What a visit did that made a row. -/
theorem Follows.of_row {s : Setting} {v : Visit} {row : Row} (h : Follows s v)
    (hrow : v.row? = some row) : ∃ t found, s.model.table? v.table = some t ∧ v.table = t.name ∧
      List.Forall₂ (fun (field : String × Field) found =>
        Fills s v.element t v.id v.parent? field.1 found field.2)
        (t.fields.entries.filter (·.1 ≠ t.uid)) found ∧
      row.cells = (t.uidName, v.id) :: (found.map (·.1)).flatten ∧
      v.visits = (found.map (·.2)).flatten := by
  cases h with
  | known => cases hrow
  | @made e parent? id t found ht hfound =>
    cases hrow
    exact ⟨t, found, ht, rfl, hfound, rfl, rfl⟩

theorem Follows.table {s : Setting} {v : Visit} (h : Follows s v) :
    ∃ t, s.model.table? v.table = some t := by
  cases h with
  | known ht => exact ⟨_, ht⟩
  | made ht _ => exact ⟨_, ht⟩

/-- The visits below one that made a row are those of its links, and have this row above them. -/
theorem Follows.below {s : Setting} {v w : Visit} (h : Follows s v) (hw : w ∈ v.visits) :
    v.row?.isSome = true ∧ w.parent? = some ⟨v.table, v.id⟩ ∧
      ∃ l : Link, w.element ∈ s.layout.selectNodes l.key v.element ∧
        w.table = targetOf s l w.element := by
  cases h with
  | known => cases hw
  | @made e parent? id t found ht hfound =>
    refine ⟨rfl, ?_⟩
    obtain ⟨visits, hvisits, hw⟩ := List.mem_flatten.1 hw
    obtain ⟨x, hx, rfl⟩ := List.mem_map.1 hvisits
    obtain ⟨⟨key, f⟩, -, hfills⟩ := exists_of_mem_right hfound hx
    cases f with
    | column c => simp [hfills.1] at hw
    | backLink b => simp [hfills.1] at hw
    | geometry g => simp [hfills.1] at hw
    | link l =>
      obtain ⟨child, hchild, rfl, htable, hparent⟩ := exists_of_mem_right hfills.1 hw
      exact ⟨hparent, l, hchild, htable⟩

/-- Elements enter the account of a table one after the other. -/
inductive Traces (t : Table) : Account → List Visit → Account → Prop
  | nil {a} : Traces t a [] a
  | cons {a a₁ a' v vs} : Enters t v.element a v.id v.row?.isSome a₁ → Traces t a₁ vs a' →
      Traces t a (v :: vs) a'

theorem Traces.append {t : Table} {a a₁ a' : Account} {vs ws : List Visit}
    (h : Traces t a vs a₁) (h' : Traces t a₁ ws a') : Traces t a (vs ++ ws) a' := by
  induction h with
  | nil => exact h'
  | cons hv _ ih => exact .cons hv (ih h')

/-- What visits do to the progress. -/
structure Visited (s : Setting) (p : Progress) (vs : List Visit) (p' : Progress) : Prop where
  follows : ∀ v ∈ vs, Follows s v
  traces : ∀ name t, s.model.table? name = some t →
    Traces t (p.account t) (vs.filter (·.table = name)) (p'.account t)
  rows : ∀ name, p'.rowsOf name = p.rowsOf name ++ made name vs
  nodup : p.rows.keys.Nodup → p'.rows.keys.Nodup
  nodupIds : p.lastIds.keys.Nodup → p'.lastIds.keys.Nodup
  counted : ∀ name ∈ p.lastIds.keys, name ∈ p'.lastIds.keys

section Visited

variable {s : Setting} {p p₁ p' : Progress} {vs ws : List Visit}

theorem Visited.nil (p : Progress) : Visited s p [] p where
  follows v hv := by cases hv
  traces name t _ := .nil
  rows name := by simp [Population.made]
  nodup := id
  nodupIds := id
  counted _ := id

theorem Visited.append (h : Visited s p vs p₁) (h' : Visited s p₁ ws p') :
    Visited s p (vs ++ ws) p' where
  follows v hv := by
    rcases List.mem_append.1 hv with hv | hv
    · exact h.follows v hv
    · exact h'.follows v hv
  traces name t ht := by
    rw [List.filter_append]
    exact (h.traces name t ht).append (h'.traces name t ht)
  rows name := by rw [h'.rows, h.rows, made_append, List.append_assoc]
  nodup hp := h'.nodup (h.nodup hp)
  nodupIds hp := h'.nodupIds (h.nodupIds hp)
  counted name hname := h'.counted name (h.counted name hname)

/-! ### Fields -/

theorem leads_checkCount {e : Element} {t : Table} {l : Link} {n : Nat} {u : Unit}
    (h : Leads (checkCount e t l n) p u p') :
    p' = p ∧ (n = 0 → l.optional = true) ∧ l.occurs.max.allows n = true := by
  simp only [checkCount, violation, leads_ite, leads_pure, not_leads_throw, and_false, false_or,
    or_false] at h
  obtain ⟨hoptional, hallows, -, rfl⟩ := h
  refine ⟨rfl, fun hn => ?_, hallows⟩
  by_contra hl
  exact hoptional ⟨hn, hl⟩

section Fields

variable {visit : Element → String → Option Parent → PopulateM Visit} {e : Element} {t : Table}
  {id : Value} {parent? : Option Parent}

/-- A field whose cells need no visits leaves the progress as it is. -/
theorem visitField_fills_of_cells {key : String} {f : Field}
    {found : List (String × Value) × List Visit} (hf : ∀ l, f ≠ .link l)
    (h : Leads (visitField s visit e t id parent? key f) p found p') :
    p' = p ∧ Fills s e t id parent? key found f := by
  cases f with
  | link l => exact absurd rfl (hf l)
  | column c =>
    simp only [visitField, cells, leads_bind, leads_pure] at h
    obtain ⟨cs, _, h, rfl, rfl⟩ := h
    cases htext : s.layout.selectText? c.key e with
    | some text =>
      simp only [htext, leads_pure] at h
      obtain ⟨rfl, rfl⟩ := h
      exact ⟨rfl, rfl, by simp [htext]⟩
    | none =>
      simp only [htext, violation, leads_ite, leads_pure, not_leads_throw, and_false,
        or_false] at h
      obtain ⟨hoptional, rfl, rfl⟩ := h
      exact ⟨rfl, rfl, by simp [htext, hoptional]⟩
  | backLink b =>
    simp only [visitField, cells, leads_bind, leads_pure] at h
    obtain ⟨cs, _, ⟨rfl, rfl⟩, rfl, rfl⟩ := h
    exact ⟨rfl, rfl, rfl⟩
  | geometry g =>
    simp only [visitField, cells, leads_bind, leads_pure] at h
    obtain ⟨cs, _, h, rfl, rfl⟩ := h
    cases hshape : s.layout.selectShape? g.key e with
    | some shape =>
      simp only [hshape, leads_pure] at h
      obtain ⟨rfl, rfl⟩ := h
      exact ⟨rfl, rfl, by simp [hshape]⟩
    | none =>
      simp only [hshape, violation, leads_ite, leads_pure, not_leads_throw, and_false,
        or_false] at h
      obtain ⟨hoptional, rfl, rfl⟩ := h
      exact ⟨rfl, rfl, by simp [hshape, hoptional]⟩

/-- What visits are known to do when they end. -/
def Faithful (s : Setting) (visit : Element → String → Option Parent → PopulateM Visit) : Prop :=
  ∀ {e table parent? p v p'}, Leads (visit e table parent?) p v p' →
    v.element = e ∧ v.table = table ∧ v.parent? = parent? ∧ Visited s p v.all p'

theorem visitField_fills (hvisit : Faithful s visit) {key : String} {f : Field}
    {found : List (String × Value) × List Visit}
    (h : Leads (visitField s visit e t id parent? key f) p found p') :
    Visited s p (found.2.flatMap Visit.all) p' ∧ Fills s e t id parent? key found f := by
  by_cases hf : ∃ l, f = .link l
  · obtain ⟨l, rfl⟩ := hf
    simp only [visitField, leads_bind, leads_pure] at h
    obtain ⟨_, _, hcount, visits, p₁, hvisits, rfl, rfl⟩ := h
    obtain ⟨rfl, hoptional, hallows⟩ := leads_checkCount hcount
    obtain ⟨hvisited, hall⟩ := leads_mapM (R := Visited s) Visited.nil Visited.append
      (g := Visit.all) (P := fun child v => v.element = child ∧ v.table = targetOf s l child ∧
        v.parent? = some ⟨t.name, id⟩)
      (fun child _ p v p' hv => by
        obtain ⟨helement, htable, hparent, hv⟩ := hvisit hv
        exact ⟨hv, helement, htable, hparent⟩) hvisits
    refine ⟨hvisited, hall, fun hnil => hoptional ?_, ?_, rfl⟩
    · rw [hall.length_eq]
      exact List.length_eq_zero_iff.2 hnil
    · rw [← hall.length_eq]
      exact hallows
  · have hf : ∀ l, f ≠ .link l := fun l hl => hf ⟨l, hl⟩
    obtain ⟨rfl, hfills⟩ := visitField_fills_of_cells hf h
    have hnil : found.2 = [] := by
      cases f with
      | link l => exact absurd rfl (hf l)
      | column c => exact hfills.1
      | backLink b => exact hfills.1
      | geometry g => exact hfills.1
    rw [hnil]
    exact ⟨.nil _, hfills⟩

end Fields

/-! ### Rows -/

/-- An empty row behind those of a table. -/
def Progress.reserving (p : Progress) (name : String) : Progress :=
  { p with rows := p.rows.put name (p.rowsOf name ++ [{}]) }

def Progress.filling (p : Progress) (name : String) (slot : Nat) (r : Row) : Progress :=
  { p with rows := p.rows.modify name (·.set slot r) }

theorem rowsOf_reserving (p : Progress) (name name' : String) :
    (p.reserving name).rowsOf name' =
      if name' = name then p.rowsOf name ++ [({} : Row)] else p.rowsOf name' := by
  show ((p.rows.put name (p.rowsOf name ++ [({} : Row)])).get? name').getD [] = _
  rw [OrderedMap.get?_put]
  split <;> rfl

theorem rowsOf_filling (p : Progress) (name name' : String) (slot : Nat) (r : Row) :
    (p.filling name slot r).rowsOf name' =
      if name' = name then (p.rowsOf name).set slot r else p.rowsOf name' := by
  show ((p.rows.modify name (·.set slot r)).get? name').getD [] = _
  rw [OrderedMap.get?_modify]
  unfold rowsOf
  by_cases h : name' = name
  · subst h
    cases p.rows.get? name' <;> simp
  · cases p.rows.get? name' <;> simp [h]

theorem leads_reserve {name : String} {slot : Nat} :
    Leads (reserve name) p slot p' ↔ slot = (p.rowsOf name).length ∧ p' = p.reserving name := by
  simp only [reserve, leads_bind, leads_get, leads_modify, leads_pure]
  constructor
  · rintro ⟨_, _, ⟨rfl, rfl⟩, _, _, rfl, rfl, rfl⟩
    exact ⟨rfl, rfl⟩
  · rintro ⟨rfl, rfl⟩
    exact ⟨p, p, ⟨rfl, rfl⟩, (), _, rfl, rfl, rfl⟩

theorem leads_fill {name : String} {slot : Nat} {r : Row} {u : Unit} :
    Leads (fill name slot r) p u p' ↔ p' = p.filling name slot r := leads_modify

/-- Making a row between the rows of others: the row is where room was made for it, and the rows of
the visits below it are behind. -/
theorem rowsOf_made {name name' : String} {r : Row} (h : Visited s (p.reserving name) vs p₁) :
    (p₁.filling name (p.rowsOf name).length r).rowsOf name' =
      p.rowsOf name' ++ (if name = name' then [r] else []) ++ made name' vs := by
  rw [rowsOf_filling]
  by_cases hname : name' = name
  · subst hname
    rw [if_pos rfl, if_pos rfl, h.rows, rowsOf_reserving, if_pos rfl, List.append_assoc,
      List.set_append_right _ _ (Nat.le_refl _), Nat.sub_self]
    simp
  · rw [if_neg hname, if_neg (Ne.symm hname), h.rows, rowsOf_reserving, if_neg hname,
      List.append_nil]

section Row

variable {visit : Element → String → Option Parent → PopulateM Visit} {e : Element} {t : Table}
  {id : Value} {parent? : Option Parent}

/-- An element whose identifier is new makes a row. -/
theorem visitRow_visited (hvisit : Faithful s visit) (hs : s.model.table? t.name = some t)
    (hnamed : ∀ name u, s.model.table? name = some u → u.name = name)
    (hp : Identified t e p id true p₁) {row : Row} {visits : List Visit}
    (h : Leads (visitRow s visit e t id parent?) p₁ (row, visits) p') :
    Visited s p (Visit.all ⟨e, t.name, parent?, id, some row, visits⟩) p' := by
  simp only [visitRow, leads_bind, leads_reserve, leads_fill, leads_pure, Prod.mk.injEq] at h
  obtain ⟨_, _, ⟨rfl, rfl⟩, found, p₂, hfound, _, _, rfl, ⟨rfl, rfl⟩, rfl⟩ := h
  obtain ⟨hvisited, hfills⟩ := leads_mapM (R := Visited s) Visited.nil Visited.append
    (g := fun found => found.2.flatMap Visit.all)
    (P := fun (field : String × Field) found => Fills s e t id parent? field.1 found field.2)
    (fun field _ q found q' hq => visitField_fills hvisit hq) hfound
  generalize hrow : (⟨(t.uidName, id) :: (found.map (·.1)).flatten⟩ : Row) = row
  have hbelow : (found.map (·.2)).flatten.flatMap Visit.all =
      found.flatMap fun found => found.2.flatMap Visit.all := by
    rw [← List.flatMap_def, List.flatMap_assoc]
  rw [Visit.all_eq, hbelow]
  refine ⟨?_, ?_, ?_, ?_, ?_, ?_⟩
  · exact List.forall_mem_cons.2 ⟨hrow ▸ .made hs hfills, hvisited.follows⟩
  · intro name u hu
    have hrest : Traces u (p₁.account u) _ (p₂.account u) := hvisited.traces name u hu
    by_cases hname : t.name = name
    · subst hname
      rw [hs] at hu
      cases hu
      rw [List.filter_cons_of_pos (by simp)]
      exact .cons hp.enters hrest
    · rw [List.filter_cons_of_neg (by simpa using hname),
        ← hp.others u (by rw [hnamed name u hu]; exact Ne.symm hname)]
      exact hrest
  · intro name
    rw [rowsOf_made hvisited, show p₁.rowsOf name = p.rowsOf name by rw [rowsOf, hp.rows]; rfl]
    by_cases hname : t.name = name <;> simp [made, hname]
  · intro hnodup
    show (p₂.rows.modify _ _).keys.Nodup
    rw [OrderedMap.keys_modify]
    refine hvisited.nodup (OrderedMap.nodup_keys_put ?_)
    rw [hp.rows]
    exact hnodup
  · exact fun hnodup => hvisited.nodupIds (hp.nodup hnodup)
  · exact fun name hname => hvisited.counted name (hp.counted name hname)

end Row

/-! ### Visits -/

/-- An element whose identifier is known makes nothing. -/
theorem known_visited {e : Element} {t : Table} {id : Value} {parent? : Option Parent}
    (hs : s.model.table? t.name = some t)
    (hnamed : ∀ name u, s.model.table? name = some u → u.name = name)
    (hp : Identified t e p id false p') :
    Visited s p (Visit.all ⟨e, t.name, parent?, id, none, []⟩) p' := by
  rw [Visit.all_eq, List.flatMap_nil]
  refine ⟨?_, ?_, ?_, ?_, hp.nodup, hp.counted⟩
  · exact List.forall_mem_singleton.2 (.known hs)
  · intro name u hu
    by_cases hname : t.name = name
    · subst hname
      rw [hs] at hu
      cases hu
      rw [List.filter_cons_of_pos (by simp)]
      exact .cons hp.enters .nil
    · rw [List.filter_cons_of_neg (by simpa using hname), List.filter_nil,
        hp.others u (by rw [hnamed name u hu]; exact Ne.symm hname)]
      exact .nil
  · intro name
    rw [rowsOf, hp.rows]
    simp [made, rowsOf]
  · rw [hp.rows]
    exact fun hnodup => hnodup

/-- A visit that ends is one of the element in the table for the parent, and does what `Visited`
says with all visits below it. -/
theorem visit_faithful (hnamed : ∀ name u, s.model.table? name = some u → u.name = name) (n : Nat) :
    Faithful s (visit s n) := by
  induction n with
  | zero =>
    intro e table parent? p v p' h
    exact absurd h not_leads_throw
  | succ n ih =>
    intro e table parent? p v p' h
    unfold visit at h
    cases ht : s.model.table? table with
    | none =>
      rw [ht] at h
      exact absurd h not_leads_throw
    | some t =>
      have hname := hnamed table t ht
      subst hname
      simp only [ht, leads_bind, leads_ite, leads_pure] at h
      obtain ⟨⟨id, isNew⟩, p₁, hid, h⟩ := h
      have hp := leads_identify hid
      rcases h with ⟨hnew, ⟨row, visits⟩, p₂, hrow, rfl, rfl⟩ | ⟨hnew, rfl, rfl⟩
      · rw [show isNew = true from hnew] at hp
        exact ⟨rfl, rfl, rfl, visitRow_visited ih ht hnamed hp hrow⟩
      · rw [show isNew = false by simpa using hnew] at hp
        exact ⟨rfl, rfl, rfl, known_visited ht hnamed hp⟩

end Visited

end FeatureTables.Population
