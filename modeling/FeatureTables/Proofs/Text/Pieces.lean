import FeatureTables.Text.Pieces

/-!
The pieces of a text around a character, and what becomes of the text when something else is put between
them.
-/

namespace FeatureTables.Text

/-! ### Pieces around a character -/

theorem piecesFrom_of_not_mem {c : Char} {s : List Char} (run : List Char) (h : c ∉ s) :
    piecesFrom c [] run s = [run.reverse ++ s] := by
  induction s generalizing run with
  | nil => simp [piecesFrom]
  | cons d s ih =>
    have hd : c ≠ d := fun hd => h (hd ▸ List.mem_cons_self)
    have hs : c ∉ s := fun hs => h (List.mem_cons_of_mem _ hs)
    rw [piecesFrom]
    split
    · rename_i hafter
      simp [after?, hd] at hafter
    · rw [ih _ hs]
      simp

theorem piecesFrom_append {c : Char} {s : List Char} (run t : List Char) (h : c ∉ s) :
    piecesFrom c [] run (s ++ c :: t) = (run.reverse ++ s) :: piecesFrom c [] [] t := by
  induction s generalizing run with
  | nil =>
    rw [List.nil_append, piecesFrom]
    split
    · rename_i rest hafter
      have hrest : t = rest := by simpa [after?] using hafter
      simp [hrest]
    · rename_i hafter
      simp [after?] at hafter
  | cons d s ih =>
    have hd : c ≠ d := fun hd => h (hd ▸ List.mem_cons_self)
    have hs : c ∉ s := fun hs => h (List.mem_cons_of_mem _ hs)
    rw [List.cons_append, piecesFrom]
    split
    · rename_i hafter
      simp [after?, hd] at hafter
    · rw [ih _ hs]
      simp

theorem splitOnce_of_not_mem {c : Char} {s : String} (h : c ∉ s.toList) : splitOnce c s = none := by
  have hcut : ∀ cs : List Char, c ∉ cs → cutAt? (· == c) cs = none := by
    intro cs
    induction cs with
    | nil => exact fun _ => rfl
    | cons d ds ih =>
      intro h
      have hd : ¬ (d == c) = true := fun hd => h (beq_iff_eq.1 hd ▸ List.mem_cons_self)
      rw [cutAt?, if_neg hd, ih fun hds => h (List.mem_cons_of_mem _ hds)]
      rfl
  unfold splitOnce
  rw [hcut _ h]
  rfl

theorem splitOnce_append {c : Char} {s t : String} (h : c ∉ s.toList) :
    splitOnce c (s ++ String.singleton c ++ t) = some (s, t) := by
  have hcut : ∀ cs : List Char, c ∉ cs →
      cutAt? (· == c) (cs ++ c :: t.toList) = some (cs, t.toList) := by
    intro cs
    induction cs with
    | nil => simp [cutAt?]
    | cons d ds ih =>
      intro h
      have hd : ¬ (d == c) = true := fun hd => h (beq_iff_eq.1 hd ▸ List.mem_cons_self)
      rw [List.cons_append, cutAt?, if_neg hd, ih fun hds => h (List.mem_cons_of_mem _ hds)]
      rfl
  have hlist : (s ++ String.singleton c ++ t).toList = s.toList ++ c :: t.toList := by simp
  unfold splitOnce
  rw [hlist, hcut _ h]
  simp

/-! ### Characters -/

/-- The pieces of a text have no other characters than the text. -/
theorem mem_piecesFrom {a c : Char} {sep run s p : List Char} (hp : p ∈ piecesFrom a sep run s)
    (hc : c ∈ p) : c ∈ run ∨ c ∈ s := by
  fun_induction piecesFrom a sep run s with
  | case1 run =>
    rw [List.mem_singleton.1 hp] at hc
    exact Or.inl (List.mem_reverse.1 hc)
  | case2 run d s rest hafter ih =>
    rcases List.mem_cons.1 hp with rfl | hp
    · exact Or.inl (List.mem_reverse.1 hc)
    · rcases ih hp with h | h
      · cases h
      · rw [eq_append_of_after? hafter]
        exact Or.inr (List.mem_append_right _ h)
  | case3 run d s _ ih =>
    rcases ih hp with h | h
    · rcases List.mem_cons.1 h with rfl | h
      · exact Or.inr List.mem_cons_self
      · exact Or.inl h
    · exact Or.inr (List.mem_cons_of_mem _ h)

theorem mem_pieces {c : Char} {sep s p : List Char} (hp : p ∈ pieces sep s) (hc : c ∈ p) :
    c ∈ s := by
  cases sep with
  | cons a sep => exact (mem_piecesFrom hp hc).resolve_left List.not_mem_nil
  | nil =>
    simp only [pieces, List.cons_append, List.mem_cons, List.mem_append, List.mem_map,
      List.not_mem_nil, or_false] at hp
    rcases hp with rfl | ⟨d, hd, rfl⟩ | rfl
    · cases hc
    · exact List.mem_singleton.1 hc ▸ hd
    · cases hc

/-- A character that does not separate is in one of the pieces. -/
theorem exists_mem_piecesFrom {a c : Char} (run : List Char) {s : List Char} (hne : c ≠ a)
    (hc : c ∈ run ∨ c ∈ s) :
    ∃ p ∈ piecesFrom a [] run s, c ∈ p := by
  fun_induction piecesFrom a [] run s with
  | case1 run =>
    exact ⟨_, List.mem_singleton_self _, List.mem_reverse.2 (hc.resolve_right List.not_mem_nil)⟩
  | case2 run d s rest hafter ih =>
    rcases hc with hc | hc
    · exact ⟨_, List.mem_cons_self, List.mem_reverse.2 hc⟩
    · rw [eq_append_of_after? hafter] at hc
      obtain ⟨p, hp, hcp⟩ := ih (Or.inr ((List.mem_cons.1 hc).resolve_left hne))
      exact ⟨p, List.mem_cons_of_mem _ hp, hcp⟩
  | case3 run d s _ ih =>
    refine ih ?_
    rcases hc with hc | hc
    · exact Or.inl (List.mem_cons_of_mem _ hc)
    · rcases List.mem_cons.1 hc with rfl | hc
      · exact Or.inl List.mem_cons_self
      · exact Or.inr hc

theorem mem_intercalate {c : Char} {sep : String} {parts : List String}
    (h : c ∈ (String.intercalate sep parts).toList) :
    c ∈ sep.toList ∨ ∃ p ∈ parts, c ∈ p.toList := by
  induction parts with
  | nil => simp at h
  | cons p parts ih =>
    cases parts with
    | nil =>
      rw [String.intercalate_singleton] at h
      exact Or.inr ⟨p, List.mem_cons_self, h⟩
    | cons q parts =>
      rw [String.intercalate_cons_cons, String.toList_append, String.toList_append] at h
      rcases List.mem_append.1 h with h | h
      · rcases List.mem_append.1 h with h | h
        · exact Or.inr ⟨p, List.mem_cons_self, h⟩
        · exact Or.inl h
      · rcases ih h with h | ⟨r, hr, h⟩
        · exact Or.inl h
        · exact Or.inr ⟨r, List.mem_cons_of_mem _ hr, h⟩

theorem mem_replace {c : Char} {old new s : String} (h : c ∈ (replace old new s).toList) :
    c ∈ new.toList ∨ c ∈ s.toList := by
  rcases mem_intercalate h with h | ⟨p, hp, h⟩
  · exact Or.inl h
  · obtain ⟨piece, hpiece, rfl⟩ := List.mem_map.1 hp
    rw [String.toList_ofList] at h
    exact Or.inr (mem_pieces hpiece h)

theorem intercalate_concat {a : Char} {parts : List (List Char)} (h : parts ≠ []) (part : List Char) :
    [a].intercalate (parts ++ [part]) = [a].intercalate parts ++ a :: part := by
  induction parts with
  | nil => exact absurd rfl h
  | cons p parts ih =>
    cases parts with
    | nil => simp [List.intercalate]
    | cons q parts =>
      rw [List.cons_append, List.intercalate_cons_of_ne_nil (by simp),
        List.intercalate_cons_of_ne_nil (by simp), ih (by simp)]
      simp

theorem piecesFrom_cons_self (c : Char) (run t : List Char) :
    piecesFrom c [] run (c :: t) = run.reverse :: piecesFrom c [] [] t := by
  have h := piecesFrom_append run t (List.not_mem_nil (a := c))
  simpa using h

theorem piecesFrom_append_cons (c : Char) (run s t : List Char) :
    piecesFrom c [] run (s ++ c :: t) = piecesFrom c [] run s ++ piecesFrom c [] [] t := by
  induction s generalizing run with
  | nil => simp [piecesFrom_cons_self, piecesFrom_of_not_mem]
  | cons d s ih =>
    rw [List.cons_append]
    by_cases hd : c = d
    · subst hd
      rw [piecesFrom_cons_self, piecesFrom_cons_self, ih, List.cons_append]
    · have hshift : ∀ s, piecesFrom c [] run (d :: s) = piecesFrom c [] (d :: run) s := by
        intro s
        rw [piecesFrom]
        split
        · rename_i hafter
          simp [after?, hd] at hafter
        · rfl
      rw [hshift, hshift, ih]

theorem not_mem_piecesFrom {c : Char} {run s p : List Char} (hrun : c ∉ run)
    (hp : p ∈ piecesFrom c [] run s) : c ∉ p := by
  fun_induction piecesFrom c [] run s with
  | case1 run =>
    rw [List.mem_singleton.1 hp]
    exact fun h => hrun (List.mem_reverse.1 h)
  | case2 run d s rest hafter ih =>
    rcases List.mem_cons.1 hp with rfl | hp
    · exact fun h => hrun (List.mem_reverse.1 h)
    · exact ih List.not_mem_nil hp
  | case3 run d s hafter ih =>
    refine ih (fun h => ?_) hp
    rcases List.mem_cons.1 h with rfl | h
    · simp [after?] at hafter
    · exact hrun h

/-! ### Parts of a text -/

theorem splitOn_append (c : Char) (s t : String) :
    splitOn (String.singleton c) (s ++ String.singleton c ++ t) =
      splitOn (String.singleton c) s ++ splitOn (String.singleton c) t := by
  have hlist : (s ++ String.singleton c ++ t).toList = s.toList ++ c :: t.toList := by simp
  simp only [splitOn, hlist, String.toList_singleton, pieces]
  rw [piecesFrom_append_cons, List.map_append]

theorem splitOn_of_not_mem {c : Char} {s : String} (h : c ∉ s.toList) :
    splitOn (String.singleton c) s = [s] := by
  simp [splitOn, pieces, piecesFrom_of_not_mem [] h]

theorem not_mem_splitOn {c : Char} {s p : String} (h : p ∈ splitOn (String.singleton c) s) :
    c ∉ p.toList := by
  obtain ⟨piece, hpiece, rfl⟩ := List.mem_map.1 h
  rw [String.toList_ofList]
  rw [String.toList_singleton] at hpiece
  exact not_mem_piecesFrom List.not_mem_nil hpiece

theorem splitOn_intercalate {c : Char} {parts : List String} (hne : parts ≠ [])
    (h : ∀ p ∈ parts, c ∉ p.toList) :
    splitOn (String.singleton c) (String.intercalate (String.singleton c) parts) = parts := by
  induction parts with
  | nil => exact absurd rfl hne
  | cons p parts ih =>
    have hp := splitOn_of_not_mem (h p List.mem_cons_self)
    cases parts with
    | nil => rw [String.intercalate_singleton, hp]
    | cons q parts =>
      have hrest := ih (List.cons_ne_nil _ _) fun r hr => h r (List.mem_cons_of_mem _ hr)
      rw [String.intercalate_cons_cons, splitOn_append, hp, hrest, List.singleton_append]

/-- Of two texts, each with nothing or a character behind it, none goes on as the other one with the
character behind it. -/
theorem eq_of_append_eq {c : Char} {s t rest rest' : List Char} (hrest : rest = [] ∨ ∃ r, rest = c :: r)
    (hrest' : rest' = [] ∨ ∃ r, rest' = c :: r) (hst : ¬ s ++ [c] <+: t) (hts : ¬ t ++ [c] <+: s)
    (h : s ++ rest = t ++ rest') : s = t := by
  have hlonger : ∀ {s more rest rest' : List Char}, rest = more ++ rest' →
      (rest = [] ∨ ∃ r, rest = c :: r) → ¬ s ++ [c] <+: s ++ more → more = [] := by
    intro s more rest rest' heq hrest hjoint
    cases more with
    | nil => rfl
    | cons d more =>
      obtain rfl | ⟨r, rfl⟩ := hrest
      · cases heq
      · obtain ⟨rfl, -⟩ := List.cons.inj heq
        exact absurd ⟨more, by simp⟩ hjoint
  rcases List.append_eq_append_iff.1 h with ⟨more, rfl, heq⟩ | ⟨more, rfl, heq⟩
  · rw [hlonger heq hrest hst, List.append_nil]
  · rw [hlonger heq hrest' hts, List.append_nil]

/-- Parts with a character between them can be told apart, when none goes on as another one with this
character behind it. -/
theorem eq_of_intercalate_eq {α : Type} {f : α → List Char} {c : Char} {as bs : List α} (ha : as ≠ [])
    (hb : bs ≠ []) (hinj : ∀ a ∈ as, ∀ b ∈ bs, f a = f b → a = b)
    (hjoints : ∀ a ∈ as, ∀ b ∈ bs, ¬ f a ++ [c] <+: f b ∧ ¬ f b ++ [c] <+: f a)
    (h : [c].intercalate (as.map f) = [c].intercalate (bs.map f)) : as = bs := by
  have hfirst : ∀ (a : α) (as : List α), ∃ rest, [c].intercalate ((a :: as).map f) = f a ++ rest ∧
      (as = [] ∧ rest = [] ∨ as ≠ [] ∧ rest = c :: [c].intercalate (as.map f)) := by
    intro a as
    cases as with
    | nil => exact ⟨[], by simp, Or.inl ⟨rfl, rfl⟩⟩
    | cons b bs =>
      refine ⟨_, ?_, Or.inr ⟨List.cons_ne_nil _ _, rfl⟩⟩
      rw [List.map_cons, List.intercalate_cons_of_ne_nil (by simp)]
      simp
  induction as generalizing bs with
  | nil => exact absurd rfl ha
  | cons a as ih =>
    obtain ⟨b, bs, rfl⟩ := List.exists_cons_of_ne_nil hb
    obtain ⟨rest, hrest, hcases⟩ := hfirst a as
    obtain ⟨rest', hrest', hcases'⟩ := hfirst b bs
    rw [hrest, hrest'] at h
    have hhead : f a = f b := by
      obtain ⟨hab, hba⟩ := hjoints a List.mem_cons_self b List.mem_cons_self
      exact eq_of_append_eq (hcases.imp (·.2) fun h => ⟨_, h.2⟩) (hcases'.imp (·.2) fun h => ⟨_, h.2⟩)
        hab hba h
    obtain rfl : a = b := hinj a List.mem_cons_self b List.mem_cons_self hhead
    have htail : rest = rest' := List.append_cancel_left h
    rcases hcases with ⟨rfl, rfl⟩ | ⟨hne, rfl⟩ <;> rcases hcases' with ⟨rfl, rfl⟩ | ⟨hne', rfl⟩
    · rfl
    · cases htail
    · cases htail
    · rw [ih hne hne' (fun a ha b hb => hinj a (List.mem_cons_of_mem _ ha) b (List.mem_cons_of_mem _ hb))
        (fun a ha b hb => hjoints a (List.mem_cons_of_mem _ ha) b (List.mem_cons_of_mem _ hb))
        (List.cons.inj htail).2]

/-! ### Starts -/

theorem after?_isSome_iff {sep s : List Char} : (after? sep s).isSome = true ↔ sep <+: s := by
  induction sep generalizing s with
  | nil => simp [after?]
  | cons a sep ih =>
    cases s with
    | nil => simp [after?]
    | cons b s =>
      rw [after?, List.cons_prefix_cons, ← ih]
      split <;> simp [*]

theorem startsWith_iff {s start : String} : startsWith s start = true ↔ start.toList <+: s.toList :=
  after?_isSome_iff

/-! ### Occurrences -/

theorem piecesFrom_ne_nil (a : Char) (sep run s : List Char) : piecesFrom a sep run s ≠ [] := by
  fun_induction piecesFrom a sep run s with
  | case1 run => exact List.cons_ne_nil _ _
  | case2 run c s rest hafter ih => exact List.cons_ne_nil _ _
  | case3 run c s _ ih => exact ih

theorem one_lt_length_piecesFrom (a : Char) (sep run s : List Char) :
    1 < (piecesFrom a sep run s).length ↔ a :: sep <:+: s := by
  fun_induction piecesFrom a sep run s with
  | case1 run => simp
  | case2 run c s rest hafter ih =>
    have hpos := List.length_pos_iff.2 (piecesFrom_ne_nil a sep [] rest)
    rw [eq_append_of_after? hafter]
    refine iff_of_true ?_ (List.prefix_append _ _).isInfix
    rw [List.length_cons]
    omega
  | case3 run c s hafter ih =>
    have hstart : ¬ a :: sep <+: c :: s := by
      rw [← after?_isSome_iff, hafter]
      exact Bool.false_ne_true
    rw [ih, List.infix_cons_iff, or_iff_right hstart]

theorem containsText_iff {s part : String} : containsText s part = true ↔ part.toList <:+: s.toList := by
  rw [containsText, decide_eq_true_iff, splitOn, List.length_map]
  cases part.toList with
  | nil => simp [pieces]
  | cons a sep => exact one_lt_length_piecesFrom a sep [] s.toList

/-! ### Replacing -/

theorem intercalate_piecesFrom (a b : Char) (run s : List Char) :
    [b].intercalate (piecesFrom a [] run s) = run.reverse ++ s.map fun c => if c = a then b else c := by
  fun_induction piecesFrom a [] run s with
  | case1 run => simp
  | case2 run c s rest hafter ih =>
    obtain ⟨rfl, rfl⟩ : c = a ∧ s = rest := by simpa using eq_append_of_after? hafter
    rw [List.intercalate_cons_of_ne_nil (piecesFrom_ne_nil _ _ _ _), ih]
    simp
  | case3 run c s hafter ih =>
    have hc : c ≠ a := by
      rintro rfl
      simp [after?] at hafter
    simp [ih, hc]

/-- With one character replaced by another one, each one changes on its own. -/
theorem toList_replace (a b : Char) (s : String) :
    (replace (String.singleton a) (String.singleton b) s).toList =
      s.toList.map fun c => if c = a then b else c := by
  have hpieces : (splitOn (String.singleton a) s).map String.toList = piecesFrom a [] [] s.toList := by
    rw [splitOn, String.toList_singleton, List.map_map]
    simp [pieces, Function.comp_def]
  rw [replace, String.toList_intercalate, hpieces, String.toList_singleton, intercalate_piecesFrom]
  rfl

end FeatureTables.Text
