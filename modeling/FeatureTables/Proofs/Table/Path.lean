import FeatureTables.Proofs.Text.Pieces
import FeatureTables.Table.Key

/-!
Keys of children with rows of their own: the steps to the child between slashes. A key is read back as
its steps (`steps_path`), as long as these are plain names.
-/

namespace FeatureTables

namespace Key

open Text

/-! ### Paths -/

/-- The key of the steps that lead to a child. -/
def path : List String → String
  | [] => ""
  | [step] => step
  | step :: next :: rest => under step (path (next :: rest))

theorem path_cons {step : String} {rest : List String} (h : rest ≠ []) :
    path (step :: rest) = under step (path rest) := by
  cases rest with
  | nil => exact absurd rfl h
  | cons next rest => rfl

/-- A step that is read as the name that it is. -/
structure Plain (step : String) : Prop where
  slash : '/' ∉ step.toList
  nonempty : step ≠ ""
  step : stepOf step = .tag step false

/-- Only the first and the last character of a step can say that it is not a name. -/
theorem plain_of_ends {s : String} {c : Char} (hslash : '/' ∉ s.toList)
    (hfirst : s.toList.head? ≠ some '@') (hlast : s.toList.getLast? = some c) (hround : c ≠ ')')
    (hsquare : c ≠ ']') : Plain s := by
  have hne : s.toList ≠ [] := fun hnil => by
    rw [hnil] at hlast
    cases hlast
  refine ⟨hslash, fun hempty => hne (by rw [hempty]; rfl), ?_⟩
  have hcall : ∀ name : String, name.toList.getLast? = some ')' → s ≠ name := by
    intro name hname heq
    rw [heq, hname] at hlast
    exact hround (Option.some.inj hlast).symm
  have hattribute : dropStart? s "@" = none := by
    have hafter : after? "@".toList s.toList = none := by
      cases hs : s.toList with
      | nil => exact absurd hs hne
      | cons d ds =>
        have hd : '@' ≠ d := fun hd => hfirst (by rw [hs, hd]; rfl)
        show after? ['@'] (d :: ds) = none
        simp [after?, hd]
    unfold dropStart?
    rw [hafter]
    rfl
  have hindex : after? "[0]".toList.reverse s.toList.reverse = none := by
    have hrev : s.toList.reverse.head? = some c := by rw [List.head?_reverse, hlast]
    cases hs : s.toList.reverse with
    | nil => simp [hs] at hrev
    | cons d ds =>
      have hd : ']' ≠ d := by
        rw [hs] at hrev
        exact fun hd => hsquare ((Option.some.inj hrev).symm.trans hd.symm)
      show after? [']', '0', '['] (d :: ds) = none
      simp [after?, hd]
  unfold stepOf
  rw [if_neg (hcall text rfl), if_neg (hcall geometry rfl), hattribute]
  unfold tagStep
  rw [hindex]

theorem plain_syntheticUid : Plain syntheticUid :=
  plain_of_ends (by decide) (by decide) (c := 'd') (by decide) (by decide) (by decide)

theorem splitOn_slash (s : String) :
    splitOn "/" s = (piecesFrom '/' [] [] s.toList).map String.ofList := rfl

/-- A key with something else than slashes has steps. -/
theorem steps_ne_nil {key : String} (h : ∃ c ∈ key.toList, c ≠ '/') : steps key ≠ [] := by
  obtain ⟨c, hc, hne⟩ := h
  obtain ⟨p, hp, hcp⟩ := exists_mem_piecesFrom [] hne (Or.inr hc)
  have hpiece : String.ofList p ∈ (splitOn "/" key).filter (· ≠ "") := by
    refine List.mem_filter.2 ⟨splitOn_slash key ▸ List.mem_map_of_mem hp, ?_⟩
    have hp : p ≠ [] := List.ne_nil_of_mem hcp
    simpa [← String.toList_inj] using hp
  unfold steps
  rw [Ne, List.map_eq_nil_iff]
  exact List.ne_nil_of_mem hpiece

theorem steps_of_not_mem {step : String} (hslash : '/' ∉ step.toList) (hne : step ≠ "") :
    steps step = [stepOf step] := by
  unfold steps
  rw [splitOn_slash, piecesFrom_of_not_mem [] hslash]
  simp [hne]

theorem steps_of_plain {step : String} (h : Plain step) : steps step = [.tag step false] := by
  rw [steps_of_not_mem h.slash h.nonempty, h.step]

theorem steps_under {step : String} (h : Plain step) (key : String) :
    steps (under step key) = .tag step false :: steps key := by
  have hlist : (under step key).toList = step.toList ++ '/' :: key.toList := by
    simp [under]
  unfold steps
  rw [splitOn_slash, hlist, piecesFrom_append [] _ h.slash, splitOn_slash]
  simp [h.nonempty, h.step]

theorem stepOf_attribute (name : String) : stepOf ("@" ++ name) = .attr name := by
  have hlist : ("@" ++ name).toList = '@' :: name.toList := by simp
  have hcall : ∀ c cs, c ≠ '@' → "@" ++ name ≠ String.ofList (c :: cs) := by
    intro c cs hc heq
    rw [heq, String.toList_ofList] at hlist
    exact hc (List.cons.inj hlist).1
  have hname : dropStart? ("@" ++ name) "@" = some name := by
    have hafter : after? "@".toList ("@" ++ name).toList = some name.toList := by
      rw [hlist]
      show after? ['@'] ('@' :: name.toList) = some name.toList
      simp [after?]
    unfold dropStart?
    rw [hafter]
    simp
  unfold stepOf
  rw [if_neg (show "@" ++ name ≠ text from hcall 't' "ext()".toList (by decide)),
    if_neg (show "@" ++ name ≠ geometry from hcall 'g' "eometry()".toList (by decide)), hname]

theorem steps_attribute {name : String} (h : '/' ∉ name.toList) :
    steps ("@" ++ name) = [.attr name] := by
  rw [steps_of_not_mem (by simpa using h) (by simp [← String.toList_inj]), stepOf_attribute]

theorem steps_text : steps text = [.text] := steps_of_not_mem (by decide) (by decide)

theorem steps_geometry : steps geometry = [.geometry] := steps_of_not_mem (by decide) (by decide)

/-- The steps of a key are those that it was made of. -/
theorem steps_path {names : List String} (hne : names ≠ []) (h : ∀ name ∈ names, Plain name) :
    steps (path names) = names.map (.tag · false) := by
  induction names with
  | nil => exact absurd rfl hne
  | cons name rest ih =>
    have hplain := h name List.mem_cons_self
    by_cases hrest : rest = []
    · subst hrest
      exact steps_of_plain hplain
    · rw [path_cons hrest, steps_under hplain, ih hrest fun n hn => h n (List.mem_cons_of_mem _ hn)]
      rfl

end Key

end FeatureTables
