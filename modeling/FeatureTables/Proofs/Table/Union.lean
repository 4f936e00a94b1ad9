import FeatureTables.Proofs.Table.Absorption
import FeatureTables.Proofs.Table.Joining

/-!
Tables that are told the same fields in different orders. What the fields of a key say in common is
their gist (`Field.gist`); gists of one kind are joined in any order with the same result
(`Gist.merge_right_comm`). So the order in which fields are added decides which of them stands first and
how columns are called, but neither the keys nor what is said under them (`addFields_perm`).
-/

namespace FeatureTables

/-! ### What fields say -/

namespace Field

inductive Kind where
  | column
  | link
  | backLink
  | geometry
deriving DecidableEq

def kind : Field → Kind
  | column _ => .column
  | link _ => .link
  | backLink _ => .backLink
  | geometry _ => .geometry

end Field

/-- What a field says apart from its name, its target and its reference system. -/
inductive Gist where
  | column (type : SqlType) (optional : Bool)
  | link (optional : Bool) (occurs : Occurs)
  | backLink
  | geometry (type : String) (dimension : Nat) (optional : Bool)
deriving DecidableEq

def Field.gist : Field → Gist
  | column c => .column c.type c.optional
  | link l => .link l.optional l.occurs
  | backLink _ => .backLink
  | geometry g => .geometry g.type g.dimension g.optional

namespace Gist

/-- The wider types and bounds of both. A gist of another kind changes nothing. -/
def join : Gist → Gist → Gist
  | column type optional, column type' optional' => column (type.join type') (optional || optional')
  | link optional occurs, link optional' occurs' =>
    link (optional || optional') ⟨min occurs.min occurs'.min, occurs.max.join occurs'.max⟩
  | geometry type dimension optional, geometry type' dimension' optional' =>
    geometry (if type = type' then type else "GEOMETRY") (max dimension dimension')
      (optional || optional')
  | a, _ => a

end Gist

theorem Field.gist_join (f g : Field) : (f.join g).gist = f.gist.join g.gist := by
  cases f <;> cases g <;> rfl

/-! ### Joining in any order -/

theorem MaxOccurs.join_comm (a b : MaxOccurs) : a.join b = b.join a := by
  cases a <;> cases b <;> simp [join, Nat.max_comm]

theorem SqlType.join_comm (a b : SqlType) : a.join b = b.join a := by
  unfold join
  grind

namespace Gist

variable {a b : Field}

theorem join_comm (h : a.kind = b.kind) : a.gist.join b.gist = b.gist.join a.gist := by
  cases a <;> cases b <;> cases h
  case column a b => exact congrArg₂ column (SqlType.join_comm _ _) (Bool.or_comm _ _)
  case link a b =>
    refine congrArg₂ link (Bool.or_comm _ _) ?_
    rw [Nat.min_comm, MaxOccurs.join_comm]
  case backLink a b => rfl
  case geometry a b => simp only [join, Field.gist, Nat.max_comm, Bool.or_comm]; grind

/-- Joining with two gists of one kind may be done in either order, whatever comes first. -/
theorem join_right_comm (x : Gist) (h : a.kind = b.kind) :
    (x.join a.gist).join b.gist = (x.join b.gist).join a.gist := by
  cases a <;> cases b <;> cases h
  case column a b =>
    cases x with
    | column type optional =>
      exact congrArg₂ column (SqlType.join_right_comm _ _ _) (Bool.or_right_comm _ _ _)
    | _ => rfl
  case link a b =>
    cases x with
    | link optional occurs =>
      refine congrArg₂ link (Bool.or_right_comm _ _ _) ?_
      exact congrArg₂ Occurs.mk (Nat.min_right_comm _ _ _) (MaxOccurs.join_right_comm _ _ _)
    | _ => rfl
  case backLink a b => cases x <;> rfl
  case geometry a b =>
    cases x with
    | geometry type dimension optional =>
      simp only [join, Field.gist, Nat.max_right_comm dimension, Bool.or_right_comm optional]
      grind
    | _ => rfl

/-- What stands under a key after two fields of one kind does not depend on which came first, also if
nothing stood there before. -/
theorem merge_right_comm (x : Option Gist) (h : a.kind = b.kind) :
    (x.merge join (some a.gist)).merge join (some b.gist) =
      (x.merge join (some b.gist)).merge join (some a.gist) := by
  cases x with
  | none => exact congrArg some (join_comm h)
  | some x => exact congrArg some (join_right_comm x h)

end Gist

/-! ### Adding in any order -/

namespace Table

variable {t : Table} {fs gs : List Field}

/-- What is said under a key. -/
def gist? (t : Table) (key : String) : Option Gist := (t.fields.get? key).map Field.gist

theorem gist?_addField (t : Table) (f : Field) (key : String) : (t.addField f).gist? key =
    if key = f.key ∧ key ≠ t.uid then (t.gist? key).merge Gist.join (some f.gist) else t.gist? key := by
  unfold gist?
  rw [get?_addField]
  split
  · cases t.fields.get? key with
    | none => rfl
    | some g => exact congrArg some (g.gist_join f)
  · rfl

/-- The fields of a key are joined in the order in which they are added. -/
theorem gist?_addFields (t : Table) (fs : List Field) {key : String} (hkey : key ≠ t.uid) :
    (fs.foldl addField t).gist? key =
      (fs.filter (key = ·.key)).foldl (fun x f => x.merge Gist.join (some f.gist)) (t.gist? key) := by
  induction fs generalizing t with
  | nil => rfl
  | cons f fs ih =>
    rw [List.foldl_cons, ih _ (by rwa [addField_uid]), gist?_addField]
    by_cases h : key = f.key
    · rw [if_pos ⟨h, hkey⟩, List.filter_cons_of_pos (by simpa using h), List.foldl_cons]
    · rw [if_neg fun h' => h h'.1, List.filter_cons_of_neg (by simpa using h)]

theorem gist?_addFields_uid (t : Table) (fs : List Field) :
    (fs.foldl addField t).gist? t.uid = t.gist? t.uid := by
  induction fs generalizing t with
  | nil => rfl
  | cons f fs ih =>
    have h := ih (t.addField f)
    rw [addField_uid] at h
    rw [List.foldl_cons, h, gist?_addField, if_neg fun h => h.2 rfl]

theorem gist?_perm (t : Table) (hperm : fs.Perm gs)
    (hkind : ∀ f ∈ fs, ∀ g ∈ fs, f.key = g.key → f.kind = g.kind) (key : String) :
    (fs.foldl addField t).gist? key = (gs.foldl addField t).gist? key := by
  by_cases hkey : key = t.uid
  · rw [hkey, gist?_addFields_uid, gist?_addFields_uid]
  · rw [gist?_addFields t fs hkey, gist?_addFields t gs hkey]
    refine (hperm.filter _).foldl_eq' (fun f hf g hg x => ?_) _
    obtain ⟨hf, hfkey⟩ := List.mem_filter.1 hf
    obtain ⟨hg, hgkey⟩ := List.mem_filter.1 hg
    simp only [decide_eq_true_eq] at hfkey hgkey
    exact Gist.merge_right_comm x (hkind f hf g hg (hfkey.symm.trans hgkey))

theorem mem_keys_iff_gist? {key : String} : key ∈ t.fields.keys ↔ (t.gist? key).isSome := by
  rw [gist?, Option.isSome_map, OrderedMap.mem_keys_iff, Option.isSome_iff_exists]

theorem covers_addFields (t : Table) {f : Field} (hf : f ∈ fs) : (fs.foldl addField t).Covers f := by
  obtain ⟨before, after, rfl⟩ := List.append_of_mem hf
  rw [List.foldl_append, List.foldl_cons]
  exact (covers_addField _ f).grows (grows_addFields _ after)

/-- Fields of which those with one key are of one kind may be added in any order: the keys are the same,
and so is what is said under each. Adding one of them again changes nothing. -/
theorem addFields_perm (name : String) (natural : Bool) (hperm : fs.Perm gs)
    (hkind : ∀ f ∈ fs, ∀ g ∈ fs, f.key = g.key → f.kind = g.kind) :
    (∀ key, key ∈ (fs.foldl addField (create name natural)).fields.keys ↔
      key ∈ (gs.foldl addField (create name natural)).fields.keys) ∧
    (∀ key, (fs.foldl addField (create name natural)).gist? key =
      (gs.foldl addField (create name natural)).gist? key) ∧
    ∀ f ∈ fs, (fs.foldl addField (create name natural)).addField f =
        fs.foldl addField (create name natural) := by
  have hgist := gist?_perm (create name natural) hperm hkind
  refine ⟨fun key => ?_, hgist, fun f hf => (covers_addFields _ hf).addField_eq⟩
  rw [mem_keys_iff_gist?, mem_keys_iff_gist?, hgist]

/-- A column, a repeating link and a geometry that are told again with other types, bounds and flags. -/
def variedFields : List Field :=
  [.column ⟨"n", .int, false, false⟩, .link ⟨"c", "c", false, ⟨1, .bounded 1⟩, .int, none⟩,
    .geometry ⟨"g/geometry()", "POINT", 2, 4326, false⟩, .column ⟨"n", .real, true, false⟩,
    .link ⟨"c", "c", true, ⟨0, .unbounded⟩, .int, none⟩, .geometry ⟨"g/geometry()", "POLYGON", 3, 0, false⟩,
    .column ⟨"n", .int, false, false⟩]

/-- Both orders widen the column to text, take the link to repeat and forget the kind of geometry. -/
theorem varied_reversed :
    (∀ key, (variedFields.foldl addField (create "t" false)).gist? key =
      (variedFields.reverse.foldl addField (create "t" false)).gist? key) ∧
    (variedFields.reverse.foldl addField (create "t" false)).gist? "n" = some (.column .text true) ∧
    (variedFields.reverse.foldl addField (create "t" false)).gist? "c" =
      some (.link true ⟨0, .unbounded⟩) ∧
    (variedFields.reverse.foldl addField (create "t" false)).gist? "g/geometry()" =
      some (.geometry "GEOMETRY" 3 false) :=
  ⟨(addFields_perm "t" false (List.reverse_perm _).symm (by decide)).2.1,
    by decide, by decide, by decide⟩

end Table
end FeatureTables
