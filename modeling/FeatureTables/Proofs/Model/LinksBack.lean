import FeatureTables.Model
import FeatureTables.Proofs.Table.Growth

/-!
The links back that a model calls for. What the pass does to a table is a matter of the links back that are
called for in it, put in one after the other (`addBackLinks_eq_map`). Each comes behind the fields that are
there, or changes nothing (`putBack_of_not_rests`, `Rests.putBack_eq`), and once it was put in, it changes
nothing again (`rests_putBack`). So the pass leaves all that a model has as it is, and finds nothing to do
the second time (`addBackLinks_again`).
-/

namespace FeatureTables

/-! ### One table -/

namespace Table

/-- The table with a link back put into it, unless it has one to the same source. -/
def putBack (t : Table) (b : BackLink) : Table :=
  if t.hasBackLink b.table then t else t.addField (.backLink b)

/-- The table has the link back, or no room for it, since its key identifies rows or has a field. -/
def Rests (t : Table) (b : BackLink) : Prop :=
  t.hasBackLink b.table = true ∨ t.HasKey (BackLink.keyFor b.table)

/-- The second table is the first one with links back behind its fields: some of those that are called for,
and for which there was room. -/
structure Trails (called : BackLink → Prop) (t u : Table) : Prop where
  name : u.name = t.name
  uid : u.uid = t.uid
  mergeable : u.mergeable = t.mergeable
  lastId : u.lastId = t.lastId
  fields : ∃ added : List BackLink,
    u.fields.entries = t.fields.entries ++ added.map (fun b => (BackLink.keyFor b.table, .backLink b)) ∧
    (added.map (·.table)).Nodup ∧ ∀ b ∈ added, called b ∧ ¬ t.Rests b
  columnName? : ∀ key ∈ t.fields.keys, u.columnName? key = t.columnName? key

section PutBack

variable {t u : Table} {b : BackLink} {key : String}

theorem Rests.putBack_eq (h : t.Rests b) : t.putBack b = t := by
  unfold putBack
  split
  · rfl
  · rename_i hnot
    rcases addField_cases t (.backLink b) with ⟨-, he⟩ | ⟨-, g, hg, he⟩ | ⟨huid, hnone, -⟩
    · exact he
    · rw [he, Field.join_backLink, OrderedMap.put_of_get? hg]
    · rcases h with h | h | h
      · exact absurd h hnot
      · exact absurd h huid
      · exact absurd h (OrderedMap.get?_eq_none_iff.1 hnone)

/-- A link back for which there is room comes behind the fields. Its column may get another name. -/
theorem putBack_of_not_rests (h : ¬ t.Rests b) : ∃ renamed,
    t.putBack b = { t with
      fields := ⟨t.fields.entries ++ [(BackLink.keyFor b.table, .backLink b)]⟩, renamed } ∧
    ∀ key ≠ BackLink.keyFor b.table, renamed.get? key = t.renamed.get? key := by
  obtain ⟨hnot, huid, hkey⟩ : ¬ t.hasBackLink b.table = true ∧ BackLink.keyFor b.table ≠ t.uid ∧
      BackLink.keyFor b.table ∉ t.fields.keys := by
    simpa only [Rests, HasKey, not_or] using h
  rw [putBack, if_neg hnot]
  rcases addField_cases t (.backLink b) with ⟨hk, -⟩ | ⟨-, g, hg, -⟩ | ⟨-, -, renamed, he, hr⟩
  · exact absurd hk huid
  · exact absurd (OrderedMap.mem_keys_of_get? hg) hkey
  · refine ⟨renamed, ?_, fun key hne => ?_⟩
    · rw [he, ← OrderedMap.put_of_not_mem hkey]
      rfl
    · rcases hr with ⟨rfl, -⟩ | ⟨c, -, rfl⟩
      · rfl
      · exact (OrderedMap.get?_put _ _ _ _).trans (if_neg hne)

theorem rests_putBack (t : Table) (b : BackLink) : (t.putBack b).Rests b := by
  by_cases h : t.Rests b
  · rwa [h.putBack_eq]
  · obtain ⟨renamed, he, -⟩ := putBack_of_not_rests h
    refine Or.inl ?_
    rw [he]
    simp [hasBackLink, OrderedMap.values]

/-- The fields that are there stay. -/
theorem get?_putBack (h : t.HasKey key) : (t.putBack b).fields.get? key = t.fields.get? key := by
  by_cases hb : t.Rests b
  · rw [hb.putBack_eq]
  · obtain ⟨renamed, he, -⟩ := putBack_of_not_rests hb
    have hne : key ≠ BackLink.keyFor b.table := fun hkey => hb (Or.inr (hkey ▸ h))
    rw [he]
    show List.lookup key (_ ++ [_]) = List.lookup key _
    rw [List.lookup_append, OrderedMap.lookup_cons_ite, if_neg hne, List.lookup_nil, Option.or_none]

theorem columnName?_putBack (h : t.HasKey key) : (t.putBack b).columnName? key = t.columnName? key := by
  unfold columnName?
  rw [get?_putBack h]
  by_cases hb : t.Rests b
  · rw [hb.putBack_eq]
  · obtain ⟨renamed, he, hr⟩ := putBack_of_not_rests hb
    rw [he]
    show (renamed.get? key).or _ = _
    rw [hr key fun hkey => hb (Or.inr (hkey ▸ h))]

theorem name_putBack (t : Table) (b : BackLink) : (t.putBack b).name = t.name := by
  unfold putBack
  split
  · rfl
  · exact addField_name t _

theorem uid_putBack (t : Table) (b : BackLink) : (t.putBack b).uid = t.uid := by
  unfold putBack
  split
  · rfl
  · exact addField_uid t _

theorem uidType_putBack (t : Table) (b : BackLink) : (t.putBack b).uidType = t.uidType := by
  unfold uidType
  rw [uid_putBack, get?_putBack (Or.inl rfl)]

theorem links_putBack (t : Table) (b : BackLink) : (t.putBack b).links = t.links := by
  by_cases hb : t.Rests b
  · rw [hb.putBack_eq]
  · obtain ⟨renamed, he, -⟩ := putBack_of_not_rests hb
    rw [he]
    simp [links, OrderedMap.values]

theorem Trails.refl (called : BackLink → Prop) (t : Table) : t.Trails called t :=
  ⟨rfl, rfl, rfl, rfl, ⟨[], by simp⟩, fun _ _ => rfl⟩

/-- There is no more room later on than there was before. -/
theorem Trails.rests {called : BackLink → Prop} (h : t.Trails called u) (hb : t.Rests b) : u.Rests b := by
  obtain ⟨added, he, -⟩ := h.fields
  refine hb.imp (fun hb => ?_) (Or.imp (fun hb => hb.trans h.uid.symm) fun hb => ?_)
  · rw [hasBackLink, OrderedMap.values, he, List.map_append, List.any_append, Bool.or_eq_true]
    exact Or.inl hb
  · rw [OrderedMap.keys, he, List.map_append, List.mem_append]
    exact Or.inl hb

theorem Trails.putBack {called : BackLink → Prop} (h : t.Trails called u) (hb : called b) :
    t.Trails called (u.putBack b) := by
  by_cases hrests : u.Rests b
  · rwa [hrests.putBack_eq]
  · obtain ⟨renamed, he, -⟩ := putBack_of_not_rests hrests
    obtain ⟨added, hadded, hnodup, hcalled⟩ := h.fields
    have hkey : ∀ key ∈ t.fields.keys, u.HasKey key := fun key hkey => Or.inr <| by
      rw [OrderedMap.keys, hadded, List.map_append, List.mem_append]
      exact Or.inl hkey
    -- the sources of the links back that were put in are other ones
    have hnew : b.table ∉ added.map (·.table) := by
      intro hmem
      obtain ⟨c, hc, heq⟩ := List.mem_map.1 hmem
      refine hrests (Or.inr (Or.inr ?_))
      rw [OrderedMap.keys, hadded, List.map_append, List.mem_append, List.map_map, ← heq]
      exact Or.inr (List.mem_map_of_mem hc)
    refine ⟨(name_putBack u b).trans h.name, (uid_putBack u b).trans h.uid, ?_, ?_,
      ⟨added ++ [b], ?_, ?_, ?_⟩, fun key hk =>
        (columnName?_putBack (hkey key hk)).trans (h.columnName? key hk)⟩
    · rw [he]
      exact h.mergeable
    · rw [he]
      exact h.lastId
    · rw [he, List.map_append, ← List.append_assoc, ← hadded]
      rfl
    · rw [List.map_append]
      exact List.nodup_append_comm.1 (List.nodup_cons.2 ⟨hnew, hnodup⟩)
    · intro c hc
      rcases List.mem_append.1 hc with hc | hc
      · exact hcalled c hc
      · obtain rfl := List.mem_singleton.1 hc
        exact ⟨hb, fun hrest => hrests (h.rests hrest)⟩

end PutBack

/-! ### One table, many links back -/

section Fold

variable {t u : Table} {bs : List BackLink} {called : BackLink → Prop}

theorem Trails.foldl (h : t.Trails called u) (hbs : ∀ b ∈ bs, called b) :
    t.Trails called (bs.foldl Table.putBack u) := by
  induction bs generalizing u with
  | nil => exact h
  | cons b bs ih =>
    exact ih (h.putBack (hbs b List.mem_cons_self)) fun c hc => hbs c (List.mem_cons_of_mem _ hc)

theorem rests_foldl {b : BackLink} (hb : b ∈ bs) (t : Table) : (bs.foldl putBack t).Rests b := by
  induction bs generalizing t with
  | nil => cases hb
  | cons c bs ih =>
    rcases List.mem_cons.1 hb with rfl | hb
    · exact ((Trails.refl (fun _ => True) (t.putBack b)).foldl fun _ _ => trivial).rests
        (rests_putBack t b)
    · exact ih hb _

/-- A field of the table was there, or is a link back. -/
theorem Trails.origin {key : String} {f : Field} (h : t.Trails called u)
    (hf : u.fields.get? key = some f) : t.fields.get? key = some f ∨ ∃ b, f = .backLink b := by
  obtain ⟨added, he, -⟩ := h.fields
  rw [OrderedMap.get?, he, List.lookup_append, Option.or_eq_some_iff] at hf
  refine hf.imp id fun hf => ?_
  obtain ⟨b, -, heq⟩ := List.mem_map.1 (OrderedMap.mem_entries_of_get? (m := ⟨_⟩) hf.2)
  exact ⟨b, (Prod.ext_iff.1 heq).2.symm⟩

theorem foldl_putBack_eq (h : ∀ b ∈ bs, t.Rests b) : bs.foldl putBack t = t := by
  induction bs with
  | nil => rfl
  | cons b bs ih =>
    rw [List.foldl_cons, (h b List.mem_cons_self).putBack_eq]
    exact ih fun c hc => h c (List.mem_cons_of_mem _ hc)

end Fold

end Table

/-! ### All tables -/

namespace Model

/-- A table of the model has a link to many rows of the table `target`, and the link back leads to it. -/
def CallsFor (m : Model) (target : String) (b : BackLink) : Prop :=
  ∃ t ∈ m.tables.values, t.name = b.table ∧ t.uidType = b.type ∧
    ∃ l, .link l ∈ t.fields.values ∧ l.isMany = true ∧ l.table = target

/-- The links back that are called for in the table `target`. -/
def backLinksTo (m : Model) (target : String) : List BackLink :=
  (m.owed.filter (·.target = target)).map fun o => ⟨o.source, o.type⟩

variable {m : Model} {target : String} {b : BackLink}

theorem mem_backLinksTo : b ∈ m.backLinksTo target ↔ m.CallsFor target b := by
  obtain ⟨source, type⟩ := b
  simp only [backLinksTo, owed, Table.links, CallsFor, List.mem_map, List.mem_filter, List.mem_flatMap,
    List.mem_filterMap, decide_eq_true_eq]
  constructor
  · rintro ⟨_, ⟨⟨t, ht, l, ⟨⟨f, hf, hl⟩, hmany⟩, rfl⟩, rfl⟩, heq⟩
    cases heq
    cases f with
    | link l' =>
      cases hl
      exact ⟨t, ht, rfl, rfl, l, hf, hmany, rfl⟩
    | _ => cases hl
  · rintro ⟨t, ht, rfl, rfl, l, hl, hmany, rfl⟩
    exact ⟨_, ⟨⟨t, ht, l, ⟨⟨.link l, hl, rfl⟩, hmany⟩, rfl⟩, rfl⟩, rfl⟩

/-- The pass over what is owed treats each table by itself. -/
theorem foldl_settle (m : Model) (os : List Owed) : os.foldl settle m = { m with
    tables := ⟨m.tables.entries.map fun e => (e.1,
      ((os.filter (·.target = e.1)).map fun o => ⟨o.source, o.type⟩).foldl Table.putBack e.2)⟩ } := by
  induction os generalizing m with
  | nil => simp
  | cons o os ih =>
    rw [List.foldl_cons, ih]
    show ({ m with tables := ⟨(m.tables.entries.map _).map _⟩ } : Model) = _
    rw [List.map_map]
    congr 3
    funext e
    by_cases he : e.1 = o.target
    · rw [List.filter_cons_of_pos (by simp [he])]
      simp [he, Table.putBack]
    · rw [List.filter_cons_of_neg (by simpa using Ne.symm he)]
      simp [he]

theorem addBackLinks_eq_map (m : Model) : m.addBackLinks = { m with
    tables := ⟨m.tables.entries.map fun e => (e.1, (m.backLinksTo e.1).foldl Table.putBack e.2)⟩ } :=
  foldl_settle m m.owed

theorem table?_addBackLinks (m : Model) (name : String) : m.addBackLinks.table? name =
    (m.table? name).map fun t => (m.backLinksTo name).foldl Table.putBack t := by
  rw [addBackLinks_eq_map]
  exact OrderedMap.lookup_map_entries _ (fun name t => (m.backLinksTo name).foldl Table.putBack t) _

/-- Links back call for nothing. -/
theorem owed_settle (m : Model) (o : Owed) : (m.settle o).owed = m.owed := by
  simp only [owed, settle, OrderedMap.modify, OrderedMap.values, List.map_map, List.flatMap_map,
    Function.comp_apply]
  congr 1
  funext e
  by_cases he : e.1 = o.target
  · have hback : (if e.2.hasBackLink o.source then e.2 else e.2.addField (.backLink ⟨o.source, o.type⟩)) =
        e.2.putBack ⟨o.source, o.type⟩ := rfl
    rw [if_pos he, hback, Table.links_putBack, Table.name_putBack, Table.uidType_putBack]
  · rw [if_neg he]

theorem owed_addBackLinks (m : Model) : m.addBackLinks.owed = m.owed := by
  have hrun : ∀ (os : List Owed) (n : Model), (os.foldl settle n).owed = n.owed := by
    intro os
    induction os with
    | nil => exact fun _ => rfl
    | cons o os ih => exact fun n => (ih _).trans (owed_settle n o)
  exact hrun m.owed m

/-- The second pass of links back over a model changes nothing. The first one leaves rows, tables, their
counters and fields and the names of their columns as they are, and puts behind the fields of a table those
links back that the links to many rows of it call for, unless they are there or their key is taken. -/
theorem addBackLinks_again (m : Model) :
    m.addBackLinks.addBackLinks = m.addBackLinks ∧
    m.addBackLinks.rows = m.rows ∧ m.addBackLinks.rootTable? = m.rootTable? ∧
    List.Forall₂ (fun e e' => e'.1 = e.1 ∧ e.2.Trails (m.CallsFor e.1) e'.2 ∧
        ∀ b, m.CallsFor e.1 b → e'.2.Rests b)
      m.tables.entries m.addBackLinks.tables.entries := by
  have hagain : ∀ target, m.addBackLinks.backLinksTo target = m.backLinksTo target := fun target => by
    rw [backLinksTo, owed_addBackLinks, backLinksTo]
  refine ⟨?_, by rw [addBackLinks_eq_map], by rw [addBackLinks_eq_map], ?_⟩
  · rw [addBackLinks_eq_map m.addBackLinks]
    simp only [hagain]
    rw [addBackLinks_eq_map m]
    simp only [List.map_map]
    congr 2
    refine List.map_congr_left fun e _ => ?_
    exact congrArg (Prod.mk e.1) (Table.foldl_putBack_eq fun b hb => Table.rests_foldl hb e.2)
  · rw [addBackLinks_eq_map]
    refine List.forall₂_map_right_iff.2 (List.forall₂_same.2 fun e _ => ⟨rfl, ?_, fun b hb => ?_⟩)
    · exact (Table.Trails.refl _ e.2).foldl fun b hb => mem_backLinksTo.1 hb
    · exact Table.rests_foldl (mem_backLinksTo.2 hb) e.2

end Model
end FeatureTables
