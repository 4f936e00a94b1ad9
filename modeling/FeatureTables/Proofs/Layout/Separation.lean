import FeatureTables.Proofs.Layout.Absorption
import FeatureTables.Proofs.Layout.Closure
import FeatureTables.Proofs.Layout.Way

/-!
The keys of ways. A table has a field under the path of the way to each row next below one of its rows, and
this is a link to the row unless the key was taken. The keys of values and of links back have an attribute
in them or a bracket at their end (`build_offWays`), so that none of them is a path of plain names. The
number of a row is the only other field that may have such a key (`key_of_way`).
-/

namespace FeatureTables

open Text

/-- The first piece starts with what is open. -/
theorem Text.exists_piecesFrom_eq (c : Char) (run s : List Char) :
    ∃ first rest, piecesFrom c [] run s = (run.reverse ++ first) :: rest := by
  fun_induction piecesFrom c [] run s with
  | case1 run => exact ⟨[], [], by simp⟩
  | case2 run d s rest _ _ => exact ⟨[], _, congrArg (· :: _) (List.append_nil _).symm⟩
  | case3 run d s _ ih =>
    obtain ⟨first, rest, h⟩ := ih
    exact ⟨d :: first, rest, by simp [h]⟩

namespace Key

/-- A plain step that ends with a letter of a name. -/
structure OfName (step : String) : Prop where
  plain : Plain step
  last : step.toList.getLast? ≠ some ')'

theorem OfName.ne_nil {step : String} (h : OfName step) : step.toList ≠ [] :=
  fun hnil => h.plain.nonempty (String.toList_eq_nil_iff.1 hnil)

theorem getLast?_path {names : List String} (hne : names ≠ []) (h : ∀ name ∈ names, OfName name) :
    ∃ name ∈ names, (path names).toList.getLast? = name.toList.getLast? := by
  induction names with
  | nil => exact absurd rfl hne
  | cons name rest ih =>
    obtain ⟨hname, hnames⟩ := List.forall_mem_cons.1 h
    cases rest with
    | nil => exact ⟨name, List.mem_cons_self, rfl⟩
    | cons next rest =>
      obtain ⟨last, hmem, hlast⟩ := ih (List.cons_ne_nil _ _) hnames
      refine ⟨last, List.mem_cons_of_mem _ hmem, ?_⟩
      have hlist : (path (name :: next :: rest)).toList =
          name.toList ++ '/' :: (path (next :: rest)).toList := by
        simp [path, under]
      have hc := List.getLast?_eq_getLast_of_ne_nil (hnames last hmem).ne_nil
      rw [hlist, List.getLast?_append_of_ne_nil _ (List.cons_ne_nil _ _), List.getLast?_cons, hlast, hc]
      rfl

/-- A path of one step is this step. -/
theorem path_eq_singleton {names : List String} {step : String} (hne : names ≠ [])
    (h : ∀ name ∈ names, Plain name) (hstep : Plain step) (heq : path names = step) : names = [step] := by
  have hsteps := steps_path hne h
  rw [heq, steps_of_plain hstep] at hsteps
  cases names with
  | nil => exact absurd rfl hne
  | cons name rest =>
    cases rest with
    | nil => exact congrArg (fun s => [s]) heq
    | cons next rest => simp at hsteps

/-- The key has a step to an attribute, or a bracket at its end. -/
def OffWays (key : String) : Prop :=
  (∃ name, Step.attr name ∈ steps key) ∨ key.toList.getLast? = some ')'

theorem not_offWays_path {names : List String} (hne : names ≠ []) (h : ∀ name ∈ names, OfName name) :
    ¬ OffWays (path names) := by
  rintro (⟨attr, hattr⟩ | hround)
  · rw [steps_path hne fun name hname => (h name hname).plain] at hattr
    obtain ⟨name, -, hname⟩ := List.mem_map.1 hattr
    cases hname
  · obtain ⟨name, hname, hlast⟩ := getLast?_path hne h
    exact (h name hname).last (hlast.symm.trans hround)

theorem steps_under_eq (step key : String) : steps (under step key) = steps step ++ steps key := by
  unfold steps under
  rw [show "/" = String.singleton '/' from rfl, splitOn_append, List.filter_append, List.map_append]

theorem OffWays.under {key : String} (h : OffWays key) (step : String) : OffWays (under step key) := by
  refine h.imp ?_ fun hround => ?_
  · rintro ⟨name, hname⟩
    exact ⟨name, steps_under_eq step key ▸ List.mem_append_right _ hname⟩
  · have hlist : (Key.under step key).toList = step.toList ++ '/' :: key.toList := by
      simp [Key.under]
    rw [hlist, List.getLast?_append_of_ne_nil _ (List.cons_ne_nil _ _), List.getLast?_cons, hround]
    rfl

theorem offWays_attribute (name : String) : OffWays ("@" ++ name) := by
  obtain ⟨first, rest, hpieces⟩ := exists_piecesFrom_eq '/' ['@'] name.toList
  refine Or.inl ⟨String.ofList first, ?_⟩
  have hmem : "@" ++ String.ofList first ∈ splitOn "/" ("@" ++ name) := by
    have hlist : piecesFrom '/' [] [] ("@" ++ name).toList = ('@' :: first) :: rest := by
      simpa [piecesFrom, after?] using hpieces
    rw [splitOn_slash, hlist, List.map_cons]
    exact List.mem_cons.2 (Or.inl (String.toList_inj.1 (by simp)))
  rw [← stepOf_attribute]
  exact List.mem_map_of_mem (List.mem_filter.2 ⟨hmem, by simp [← String.toList_inj]⟩)

end Key

/-- The key of the field is no path, unless the field is a link. -/
def Field.OffWays (f : Field) : Prop := f.isLink = true ∨ Key.OffWays f.key

theorem Field.lasts_offWays : Field.Lasts Field.OffWays where
  join {f} g hf := by
    refine hf.imp (fun hlink => ?_) fun hkey => by rwa [Field.key_join]
    exact (Field.grows_join f g).isLink.trans hlink
  relaxed {f} hf := by
    refine hf.imp (fun hlink => ?_) fun hkey => by rwa [Field.key_relaxed]
    exact (Field.grows_relaxed f).isLink.trans hlink

theorem Field.offWays_backLink (b : BackLink) : (Field.backLink b).OffWays := by
  refine Or.inr (Or.inr ?_)
  rw [show (Field.backLink b).key = BackLink.keyFor b.table from rfl, toList_keyFor,
    ← List.append_assoc, List.getLast?_concat]

theorem Field.OffWays.under {f : Field} (h : f.OffWays) (step : String) (optional : Bool) :
    (f.under step optional).OffWays := by
  cases f with
  | backLink b => exact h
  | link l => exact Or.inl rfl
  | column c => exact Or.inr ((h.resolve_left Bool.false_ne_true).under step)
  | geometry g => exact Or.inr ((h.resolve_left Bool.false_ne_true).under step)

open Xml Element

namespace Layout

section Way

variable {l : Layout} {c e x : Element} {names : List String} {t : Table} {f : Field}

theorem ofName_keyStep (parent : Element) (h : PlainName c.localName) :
    Key.OfName (keyStep parent c) where
  plain := plain_keyStep parent h
  last hlast := by
    rcases List.mem_cons.1 (getLast?_keyStep parent c hlast) with hcolon | hmem
    · exact absurd hcolon (by decide)
    · exact h.chars _ hmem (by decide)

theorem Way.ofName (h : Way l e names x) (hplain : PlainBelow e) : ∀ name ∈ names, Key.OfName name := by
  induction h with
  | row hc _ =>
    intro name hname
    rw [List.mem_singleton.1 hname]
    exact ofName_keyStep _ (hplain _ (mem_inner_of_mem_children hc))
  | part hc _ _ ih =>
    have hmem := mem_inner_of_mem_children hc
    refine List.forall_mem_cons.2 ⟨ofName_keyStep _ (hplain _ hmem), ih fun y hy => hplain y ?_⟩
    exact mem_inner_of_descendants (mem_descendants_iff.2 (Or.inr hy)) hmem

/-- A way of one step leads to a child. -/
theorem Way.child {step : String} (h : Way l e [step] x) : x ∈ e.children ∧ keyStep e x = step := by
  cases h with
  | row hc => exact ⟨hc, rfl⟩
  | part _ _ hway => exact absurd rfl hway.ne_nil

/-- The field under the path of a way is a link, or it numbers rows and the way is a step to a child of
the same name. -/
theorem key_of_way (hway : Way l e names x) (hplain : PlainBelow e) (ht : t.Sound)
    (hoff : t.All Field.OffWays) (hf : t.fields.get? (Key.path names) = some f) :
    f.isLink = true ∨ t.hasNaturalId = false ∧ x ∈ e.children ∧ keyStep e x = Key.syntheticUid := by
  have hnames := hway.plain hplain
  by_cases hkey : Key.path names = t.uid
  · right
    rcases ht.uid with huid | huid
    · have hsteps := Key.steps_path hway.ne_nil hnames
      rw [hkey, huid, show Key.naturalUid = "@" ++ "id" by decide, Key.steps_attribute (by decide)] at hsteps
      have hmem : Key.Step.attr "id" ∈ names.map fun name => Key.Step.tag name false := by simp [← hsteps]
      obtain ⟨name, -, hname⟩ := List.mem_map.1 hmem
      cases hname
    · obtain rfl :=
        Key.path_eq_singleton hway.ne_nil hnames Key.plain_syntheticUid (hkey.trans huid)
      exact ⟨by rw [Table.hasNaturalId, huid]; decide, hway.child⟩
  · refine (hoff _ f hf hkey).imp id fun hpath => ?_
    rw [ht.keyed _ f hf] at hpath
    exact absurd hpath (Key.not_offWays_path hway.ne_nil (hway.ofName hplain))

end Way

/-! ### Building -/

theorem invariant_offWays : Invariant (fun _ => True) (fun _ => True) (AllFields Field.OffWays)
    fun _ f => f.OffWays where
  next _ _ _ _ := trivial
  grows _ _ hf := hf
  started natural hm _ hnone := hm.started natural hnone
  extended hm hfs := hm.modify fun _ ht => ht.extend Field.lasts_offWays hfs
  own {m e t f} hf := by
    rcases mem_ownFields hf with ⟨name, _, -, rfl⟩ | ⟨_, rfl⟩
    · exact Or.inr (Key.offWays_attribute name)
    · exact Or.inr (Or.inr (show Key.text.toList.getLast? = some ')' by decide))
  geometry := Or.inr (Or.inr (show Key.geometry.toList.getLast? = some ')' by decide))
  link _ _ := Or.inl rfl
  under step optional hf := hf.under step optional

/-- Building keeps the keys of ways for links. -/
theorem build_offWays {s : Setting} {m : Model} {root : Element} {o : Outcome}
    (hm : AllFields Field.OffWays m) (h : build s m root = .ok o) : AllFields Field.OffWays o.model := by
  obtain ⟨b, hb, -, hmodel⟩ := build_eq_ok_iff.1 h
  have hbuilt : AllFields Field.OffWays b.model :=
    invariant_offWays.buildTable trivial (fun _ _ => trivial) hm hb
  have hrooted : AllFields Field.OffWays
      { b.model with rootTable? := b.model.rootTable?.or o.rootTable? } := hbuilt
  rw [hmodel]
  exact hrooted.settling Field.lasts_offWays fun _ _ => Field.offWays_backLink _

end Layout

end FeatureTables
