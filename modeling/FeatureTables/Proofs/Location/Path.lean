import FeatureTables.Location
import FeatureTables.Proofs.Text.Pieces

/-!
What a path denotes when it is read as text, and what its normal form keeps of that. A walk goes down by
names, and each `..` takes back the last name or climbs; the normal form has the names of the walk, and of
the climbs only whether their number is odd (`walk_normalize`), so that it denotes the same place as the
path as long as this climbs at most once.
-/

namespace FeatureTables

open Text

namespace Path

/-! ### Walks -/

/-- Where a path leads to: how often it climbs above its start, and the names that it then goes down, last
one first. -/
structure Walk where
  rooted : Bool := false
  ups : Nat := 0
  names : List String := []
deriving DecidableEq

/-- A `..` cancels the last name that is left. -/
def Walk.step (w : Walk) : Component → Walk
  | .root => { rooted := true }
  | .current => w
  | .parent =>
    match w.names with
    | [] => { w with ups := w.ups + 1 }
    | _ :: names => { w with names }
  | .ordinary name => { w with names := name :: w.names }

def walk (path : String) : Walk := (components path).foldl Walk.step {}

/-- The place that a path denotes: no place is above the root. -/
def place (path : String) : Walk :=
  if (walk path).rooted then { walk path with ups := 0 } else walk path

/-- The walk along `w` from where `v` leads to; `w` starts anywhere. -/
def Walk.follow (v w : Walk) : Walk where
  rooted := v.rooted
  ups := v.ups + (w.ups - v.names.length)
  names := w.names ++ v.names.drop w.ups

/-! ### Segments -/

/-- The walk further along a segment of a path. -/
def Walk.pass (w : Walk) (s : String) : Walk :=
  match Component.ofSegment? false s with
  | some c => w.step c
  | none => w

@[simp] theorem Walk.pass_empty (w : Walk) : w.pass "" = w := rfl

theorem Walk.pass_parent (w : Walk) : w.pass ".." = w.step .parent := rfl

/-- A segment that is a name in a path. -/
structure Name (s : String) : Prop where
  nonempty : s ≠ ""
  current : s ≠ "."
  parent : s ≠ ".."
  slash : '/' ∉ s.toList

theorem Name.pass {s : String} (h : Name s) (w : Walk) :
    w.pass s = { w with names := s :: w.names } := by
  simp [Walk.pass, Component.ofSegment?, h.nonempty, h.current, h.parent, Walk.step]

theorem pass_cases {s : String} (h : '/' ∉ s.toList) :
    (∀ w : Walk, w.pass s = w) ∨ (∀ w : Walk, w.pass s = w.step .parent) ∨ Name s := by
  by_cases h0 : s = ""
  · subst h0
    exact Or.inl fun _ => rfl
  by_cases h1 : s = "."
  · subst h1
    exact Or.inl fun _ => rfl
  by_cases h2 : s = ".."
  · subst h2
    exact Or.inr (Or.inl fun _ => rfl)
  · exact Or.inr (Or.inr ⟨h0, h1, h2, h⟩)

/-- The first segment of a path may be `.`, which leads nowhere. -/
theorem Walk.foldl_ofSegment (w : Walk) (first : Bool) (s : String) :
    (Component.ofSegment? first s).toList.foldl Walk.step w = w.pass s := by
  by_cases h1 : s = "."
  · subst h1
    cases first <;> rfl
  · have hfirst : Component.ofSegment? first s = Component.ofSegment? false s := by
      simp [Component.ofSegment?, h1]
    rw [hfirst, Walk.pass]
    cases Component.ofSegment? false s <;> rfl

theorem Walk.foldl_segments (w : Walk) (ss : List String) :
    (ss.filterMap (Component.ofSegment? false)).foldl Walk.step w = ss.foldl Walk.pass w := by
  induction ss generalizing w with
  | nil => rfl
  | cons s ss ih =>
    rw [List.foldl_cons, Walk.pass, ← ih]
    cases h : Component.ofSegment? false s with
    | none => rw [List.filterMap_cons_none h]
    | some c => rw [List.filterMap_cons_some h, List.foldl_cons]

theorem slash_eq : "/" = String.singleton '/' := by decide

theorem isAbsolute_slash (rest : String) : isAbsolute ("/" ++ rest) = true := by
  simp [isAbsolute, startsWith, after?]

theorem eq_of_isAbsolute {path : String} (h : isAbsolute path = true) :
    ∃ rest, dropStart? path "/" = some rest ∧ path = "/" ++ rest := by
  obtain ⟨cs, hcs⟩ := Option.isSome_iff_exists.1 h
  refine ⟨String.ofList cs, by rw [dropStart?, hcs]; rfl, ?_⟩
  rw [← String.toList_inj]
  simpa using eq_append_of_after? hcs

theorem isAbsolute_eq_false {path : String} (h : path.toList.head? ≠ some '/') :
    isAbsolute path = false := by
  rw [Bool.eq_false_iff]
  intro habs
  obtain ⟨rest, -, rfl⟩ := eq_of_isAbsolute habs
  exact h (by simp)

theorem isAbsolute_append {path : String} (h : path ≠ "") (more : String) :
    isAbsolute (path ++ more) = isAbsolute path := by
  cases habs : isAbsolute path with
  | true =>
    obtain ⟨rest, -, rfl⟩ := eq_of_isAbsolute habs
    rw [String.append_assoc, isAbsolute_slash]
  | false =>
    obtain ⟨c, cs, hcs⟩ : ∃ c cs, path.toList = c :: cs :=
      List.exists_cons_of_ne_nil fun hnil => h (String.toList_inj.1 hnil)
    have hc : c ≠ '/' := by
      rintro rfl
      have hpath : path = "/" ++ String.ofList cs := by
        rw [← String.toList_inj, hcs]
        simp
      rw [hpath, isAbsolute_slash] at habs
      cases habs
    exact isAbsolute_eq_false (by simpa [hcs] using hc)

theorem splitOn_empty : splitOn "/" "" = [""] := by
  rw [slash_eq]
  exact splitOn_of_not_mem List.not_mem_nil

theorem splitOn_slash_append (s t : String) :
    splitOn "/" (s ++ "/" ++ t) = splitOn "/" s ++ splitOn "/" t := by
  have h := splitOn_append '/' s t
  rwa [← slash_eq] at h

/-- A path is walked segment by segment. -/
theorem walk_eq (path : String) :
    walk path = (splitOn "/" path).foldl Walk.pass { rooted := isAbsolute path } := by
  cases habs : isAbsolute path with
  | true =>
    obtain ⟨rest, hrest, rfl⟩ := eq_of_isAbsolute habs
    have hsplit : splitOn "/" ("/" ++ rest) = "" :: splitOn "/" rest := by
      have h := splitOn_slash_append "" rest
      rwa [String.empty_append, splitOn_empty] at h
    simp only [walk, components, habs, segments, hrest, Option.getD_some, List.foldl_cons]
    rw [hsplit, List.foldl_cons, Walk.pass_empty, Walk.foldl_segments]
    rfl
  | false =>
    have hdrop : dropStart? path "/" = none := by
      rw [dropStart?, Option.map_eq_none_iff, ← Option.not_isSome_iff_eq_none]
      exact fun hsome => Bool.false_ne_true (habs.symm.trans hsome)
    simp only [walk, components, habs, segments, hdrop, Option.getD_none]
    cases splitOn "/" path with
    | nil => rfl
    | cons s ss => rw [List.foldl_append, Walk.foldl_ofSegment, Walk.foldl_segments, List.foldl_cons]

@[simp] theorem walk_empty : walk "" = {} := by decide +kernel

/-! ### One path after another -/

theorem Walk.follow_step (v w : Walk) : v.follow (w.step .parent) = (v.follow w).step .parent := by
  cases hw : w.names with
  | cons name names => simp [Walk.step, Walk.follow, hw]
  | nil =>
    have hdrop : v.names.drop (w.ups + 1) = (v.names.drop w.ups).tail := by
      rw [List.tail_drop]
    cases hv : v.names.drop w.ups with
    | nil =>
      have hlength : v.names.length ≤ w.ups := List.drop_eq_nil_iff.1 hv
      simp only [Walk.step, Walk.follow, hw, hv, hdrop, List.nil_append, List.tail_nil,
        Walk.mk.injEq, and_true, true_and]
      omega
    | cons name names =>
      have hlength : w.ups < v.names.length := by
        refine Nat.lt_of_not_le fun hle => ?_
        rw [List.drop_eq_nil_iff.2 hle] at hv
        cases hv
      simp only [Walk.step, Walk.follow, hw, hv, hdrop, List.nil_append, List.tail_cons,
        Walk.mk.injEq, and_true, true_and]
      omega

theorem Walk.follow_pass (v w : Walk) {s : String} (h : '/' ∉ s.toList) :
    v.follow (w.pass s) = (v.follow w).pass s := by
  rcases pass_cases h with heq | heq | hname
  · rw [heq, heq]
  · rw [heq, heq, Walk.follow_step]
  · rw [hname.pass, hname.pass]
    rfl

theorem Walk.foldl_pass (v w : Walk) {ss : List String} (h : ∀ s ∈ ss, '/' ∉ s.toList) :
    ss.foldl Walk.pass (v.follow w) = v.follow (ss.foldl Walk.pass w) := by
  induction ss generalizing w with
  | nil => rfl
  | cons s ss ih =>
    rw [List.foldl_cons, List.foldl_cons, ← v.follow_pass w (h s List.mem_cons_self)]
    exact ih _ fun r hr => h r (List.mem_cons_of_mem _ hr)

theorem not_mem_segment {path s : String} (h : s ∈ splitOn "/" path) : '/' ∉ s.toList := by
  rw [slash_eq] at h
  exact not_mem_splitOn h

theorem Walk.pass_rooted (w : Walk) {s : String} (h : '/' ∉ s.toList) :
    (w.pass s).rooted = w.rooted := by
  rcases pass_cases h with heq | heq | hname
  · rw [heq]
  · rw [heq]
    cases hw : w.names <;> simp [Walk.step, hw]
  · rw [hname.pass]

/-- A path that starts at the root is walked from there. -/
theorem walk_rooted (path : String) : (walk path).rooted = isAbsolute path := by
  have hfold : ∀ (ss : List String) (w : Walk), (∀ s ∈ ss, '/' ∉ s.toList) →
      (ss.foldl Walk.pass w).rooted = w.rooted := by
    intro ss
    induction ss with
    | nil => exact fun w _ => rfl
    | cons s ss ih =>
      intro w h
      rw [List.foldl_cons, ih _ fun r hr => h r (List.mem_cons_of_mem _ hr)]
      exact w.pass_rooted (h s List.mem_cons_self)
  rw [walk_eq]
  exact hfold _ _ fun s hs => not_mem_segment hs

theorem walk_slash_eq (dir : String) : walk (dir ++ "/") =
    (splitOn "/" dir).foldl Walk.pass { rooted := isAbsolute (dir ++ "/") } := by
  have hsplit : splitOn "/" (dir ++ "/") = splitOn "/" dir ++ [""] := by
    have h := splitOn_slash_append dir ""
    rwa [String.append_empty, splitOn_empty] at h
  rw [walk_eq, hsplit, List.foldl_append]
  rfl

theorem walk_slash {dir : String} (h : dir ≠ "") : walk (dir ++ "/") = walk dir := by
  rw [walk_slash_eq, isAbsolute_append h, ← walk_eq]

theorem walk_append (dir : String) {path : String} (h : isAbsolute path = false) :
    walk (dir ++ "/" ++ path) = (walk (dir ++ "/")).follow (walk path) := by
  have hstart : ∀ v : Walk, v.follow {} = v := by
    intro v
    simp [Walk.follow]
  have hdir : dir ++ "/" ≠ "" := fun hempty => by
    have hlist := congrArg String.toList hempty
    simp at hlist
  rw [walk_eq, isAbsolute_append hdir, splitOn_slash_append, List.foldl_append, ← walk_slash_eq,
    ← hstart (walk (dir ++ "/")), Walk.foldl_pass _ _ fun s hs => not_mem_segment hs, walk_eq path, h,
    hstart]

/-- A relative path starts where the directory leads to. -/
theorem walk_join (dir : String) {path : String} (h : isAbsolute path = false) :
    walk (join dir path) = (walk dir).follow (walk path) := by
  by_cases hdir : dir = ""
  · subst hdir
    have hrooted : (walk path).rooted = false := (walk_rooted path).trans h
    rw [join, if_pos (Or.inr rfl), walk_empty]
    simp only [Walk.follow, List.length_nil, Nat.sub_zero, Nat.zero_add, List.drop_nil,
      List.append_nil]
    rw [← hrooted]
  have hstart : ¬ (isAbsolute path = true ∨ dir = "") := by
    rw [h]
    exact not_or.2 ⟨Bool.false_ne_true, hdir⟩
  rw [join, if_neg hstart]
  split
  · rename_i hend
    obtain ⟨cs, hcs⟩ := Option.isSome_iff_exists.1 hend
    have hlist : dir.toList = (String.ofList cs.reverse ++ "/").toList := by
      have hreverse := congrArg List.reverse (eq_append_of_after? hcs)
      simpa using hreverse
    obtain rfl := String.toList_inj.1 hlist
    exact walk_append _ h
  · rw [walk_append dir h, walk_slash hdir]

theorem join_eq_self_iff {dir path : String} (h : isAbsolute path = false) :
    join dir path = path ↔ dir = "" := by
  by_cases hdir : dir = ""
  · exact iff_of_true (by rw [join, if_pos (Or.inr hdir)]) hdir
  · refine iff_of_false (fun heq => ?_) hdir
    have hlength : 0 < dir.length := by
      rw [← String.length_toList, List.length_pos_iff]
      exact fun hnil => hdir (String.toList_inj.1 hnil)
    have hlonger : path.length < (join dir path).length := by
      rw [join, if_neg (not_or.2 ⟨Bool.eq_false_iff.1 h, hdir⟩)]
      split <;> simp only [String.length_append] <;> omega
    rw [heq] at hlonger
    exact Nat.lt_irrefl _ hlonger

theorem isAbsolute_join {dir : String} (h : isAbsolute dir = true) (path : String) :
    isAbsolute (join dir path) = true := by
  have hdir : dir ≠ "" := by
    rintro rfl
    exact Bool.false_ne_true h
  unfold join
  split
  · rename_i habs
    exact habs.resolve_right hdir
  · split
    · rw [isAbsolute_append hdir, h]
    · rw [String.append_assoc, isAbsolute_append hdir, h]

/-! ### Normal paths -/

/-- The trail that is left of a walk: two climbs cancel each other. -/
def Walk.trail (w : Walk) : Trail where
  rooted := w.rooted
  parts := w.names ++ if w.ups % 2 = 1 then [".."] else []

theorem Walk.trail_step (w : Walk) (c : Component) : (w.step c).trail = w.trail.step c := by
  cases c with
  | root => rfl
  | current => rfl
  | ordinary name => rfl
  | parent =>
    cases hw : w.names with
    | cons name names => simp [Walk.step, Walk.trail, Trail.step, hw]
    | nil =>
      rcases Nat.mod_two_eq_zero_or_one w.ups with h | h
      · have hnext : (w.ups + 1) % 2 = 1 := by omega
        simp [Walk.step, Walk.trail, Trail.step, hw, h, hnext]
      · have hnext : (w.ups + 1) % 2 = 0 := by omega
        simp [Walk.step, Walk.trail, Trail.step, hw, h, hnext]

theorem normalizeComponents_eq (path : String) :
    normalizeComponents (components path) = (walk path).trail := by
  have hfold : ∀ (cs : List Component) (w : Walk),
      cs.foldl Trail.step w.trail = (cs.foldl Walk.step w).trail := by
    intro cs
    induction cs with
    | nil => exact fun _ => rfl
    | cons c cs ih =>
      intro w
      rw [List.foldl_cons, List.foldl_cons, ← Walk.trail_step, ih]
  exact hfold _ {}

theorem normalize_eq (path : String) : normalize path = (walk path).trail.toText := by
  rw [normalize, normalizeComponents_eq]

/-- A walk goes by names. -/
def Walk.Named (w : Walk) : Prop := ∀ name ∈ w.names, Name name

theorem Walk.Named.pass {w : Walk} (hw : w.Named) {s : String} (h : '/' ∉ s.toList) :
    (w.pass s).Named := by
  rcases pass_cases h with heq | heq | hname
  · rw [heq]
    exact hw
  · rw [heq]
    intro name hmem
    cases hnames : w.names with
    | nil => simp [Walk.step, hnames] at hmem
    | cons first names =>
      simp only [Walk.step, hnames] at hmem
      exact hw name (hnames ▸ List.mem_cons_of_mem _ hmem)
  · rw [hname.pass]
    exact List.forall_mem_cons.2 ⟨hname, hw⟩

theorem walk_named (path : String) : (walk path).Named := by
  have hfold : ∀ (ss : List String) (w : Walk), (∀ s ∈ ss, '/' ∉ s.toList) → w.Named →
      (ss.foldl Walk.pass w).Named := by
    intro ss
    induction ss with
    | nil => exact fun _ _ hw => hw
    | cons s ss ih =>
      intro w h hw
      exact ih _ (fun r hr => h r (List.mem_cons_of_mem _ hr)) (hw.pass (h s List.mem_cons_self))
  rw [walk_eq]
  exact hfold _ _ (fun s hs => not_mem_segment hs) fun name hmem => by cases hmem

/-- The parts of a trail are its segments when it is read again. -/
theorem splitOn_intercalate_slash {parts : List String} (h : ∀ p ∈ parts, '/' ∉ p.toList)
    (w : Walk) :
    (splitOn "/" (String.intercalate "/" parts)).foldl Walk.pass w = parts.foldl Walk.pass w := by
  by_cases hne : parts = []
  · subst hne
    rw [String.intercalate_nil, splitOn_empty]
    rfl
  · rw [slash_eq, splitOn_intercalate hne h]

theorem isAbsolute_intercalate {parts : List String} (h : ∀ p ∈ parts, p ≠ "" ∧ '/' ∉ p.toList) :
    isAbsolute (String.intercalate "/" parts) = false := by
  cases parts with
  | nil => rfl
  | cons p parts =>
    obtain ⟨hne, hslash⟩ := h p List.mem_cons_self
    obtain ⟨more, hmore⟩ : ∃ more, String.intercalate "/" (p :: parts) = p ++ more := by
      cases parts with
      | nil => exact ⟨"", by rw [String.intercalate_singleton, String.append_empty]⟩
      | cons q parts => exact ⟨_, by rw [String.intercalate_cons_cons, String.append_assoc]⟩
    rw [hmore, isAbsolute_append hne]
    exact isAbsolute_eq_false fun hhead => hslash (List.mem_of_mem_head? hhead)

theorem Walk.foldl_names {names : List String} (h : ∀ name ∈ names, Name name) (w : Walk) :
    names.reverse.foldl Walk.pass w = { w with names := names ++ w.names } := by
  induction names with
  | nil => rfl
  | cons name names ih =>
    rw [List.reverse_cons, List.foldl_append, ih fun n hn => h n (List.mem_cons_of_mem _ hn)]
    exact (h name List.mem_cons_self).pass _

/-- The normal form of a path leads down by the names that the path leads down by. -/
theorem walk_normalize (path : String) :
    walk (normalize path) = { walk path with ups := (walk path).ups % 2 } := by
  have hnamed := walk_named path
  rw [normalize_eq]
  revert hnamed
  generalize walk path = w
  intro hnamed
  have hparts : ∀ p ∈ w.trail.parts.reverse, p ≠ "" ∧ '/' ∉ p.toList := by
    intro p hp
    rw [List.mem_reverse] at hp
    rcases List.mem_append.1 hp with hp | hp
    · exact ⟨(hnamed p hp).nonempty, (hnamed p hp).slash⟩
    · split at hp
      · rw [List.mem_singleton.1 hp]
        exact ⟨by decide, by decide⟩
      · cases hp
  have hfold : ∀ v : Walk, v.names = [] → v.ups = 0 →
      w.trail.parts.reverse.foldl Walk.pass v = { v with ups := w.ups % 2, names := w.names } := by
    intro v hnames hups
    simp only [Walk.trail, List.reverse_append, List.foldl_append]
    rw [Walk.foldl_names hnamed]
    rcases Nat.mod_two_eq_zero_or_one w.ups with h | h
    · simp [h, hnames, hups]
    · simp [h, hnames, hups, Walk.pass_parent, Walk.step]
  rw [walk_eq, Trail.toText]
  cases hrooted : w.rooted with
  | true =>
    have hroot : w.trail.rooted = true := hrooted
    have hsplit := splitOn_slash_append "" (String.intercalate "/" w.trail.parts.reverse)
    rw [String.empty_append, splitOn_empty] at hsplit
    rw [if_pos hroot, isAbsolute_slash, hsplit, List.foldl_append,
      splitOn_intercalate_slash fun p hp => (hparts p hp).2, hfold _ rfl rfl]
    simp [hrooted]
  | false =>
    have hroot : ¬ w.trail.rooted = true := by simpa [Walk.trail] using hrooted
    rw [if_neg hroot, String.empty_append, isAbsolute_intercalate hparts,
      splitOn_intercalate_slash fun p hp => (hparts p hp).2, hfold _ rfl rfl]
    simp [hrooted]

theorem normalize_eq_iff {p q : String} : normalize p = normalize q ↔
    isAbsolute p = isAbsolute q ∧ (walk p).names = (walk q).names ∧
      (walk p).ups % 2 = (walk q).ups % 2 := by
  rw [← walk_rooted, ← walk_rooted]
  constructor
  · intro h
    have hwalk := congrArg walk h
    rw [walk_normalize, walk_normalize, Walk.mk.injEq] at hwalk
    exact ⟨hwalk.1, hwalk.2.2, hwalk.2.1⟩
  · rintro ⟨hrooted, hnames, hups⟩
    rw [normalize_eq, normalize_eq]
    simp only [Walk.trail, hrooted, hnames, hups]

theorem normalize_normalize (path : String) : normalize (normalize path) = normalize path := by
  rw [normalize_eq_iff, ← walk_rooted, ← walk_rooted, walk_normalize]
  exact ⟨rfl, rfl, Nat.mod_mod _ 2⟩

theorem place_normalize (path : String) :
    place (normalize path) = { place path with ups := (place path).ups % 2 } := by
  rw [place, place, walk_normalize]
  cases h : (walk path).rooted <;> simp [h]

@[simp] theorem place_rooted (path : String) : (place path).rooted = isAbsolute path := by
  rw [place, ← walk_rooted]
  split <;> rfl

@[simp] theorem place_names (path : String) : (place path).names = (walk path).names := by
  rw [place]
  split <;> rfl

theorem place_of_relative {path : String} (h : isAbsolute path = false) : place path = walk path := by
  rw [place, if_neg]
  rw [walk_rooted, h]
  exact Bool.false_ne_true

/-- The normal form keeps the place of a path that climbs at most once. -/
theorem place_normalize_eq_iff (path : String) :
    place (normalize path) = place path ↔ (place path).ups ≤ 1 := by
  have hmod : place (normalize path) = place path ↔ (place path).ups % 2 = (place path).ups := by
    rw [place_normalize]
    exact ⟨fun h => congrArg Walk.ups h, fun h => by rw [h]⟩
  rw [hmod]
  omega

end Path

/-! ### References -/

namespace Location

open FeatureTables.Path

/-- A reference that is read as a path, wherever it stands. -/
def IsPath (reference : String) : Prop := (Url.read? reference).filter hasScheme = none

instance (reference : String) : Decidable (IsPath reference) :=
  inferInstanceAs (Decidable ((Url.read? reference).filter hasScheme = none))

theorem resolve_path {reference : String} (h : IsPath reference) (base : String) :
    (path base).resolve reference = .ok (path (normalize (join (directory base) reference))) := by
  rw [IsPath] at h
  rw [resolve, h]

theorem resolve_name {reference : String} (h : IsPath reference) (habs : isAbsolute reference = false)
    (base : String) : (name base).resolve reference =
      .ok (name (replace "\\" "/" (normalize (join (nameDirectory base) reference)))) := by
  rw [IsPath] at h
  rw [resolve, h]
  dsimp only
  rw [if_neg (by rw [habs]; exact Bool.false_ne_true)]

/-- An absolute reference is the same from everywhere. -/
theorem resolve_absolute {l : Location} (hl : l.isRemote = false) {reference : String}
    (h : IsPath reference) (habs : isAbsolute reference = true) :
    l.resolve reference = .ok (path (normalize reference)) := by
  cases l with
  | url u => cases hl
  | path base => rw [resolve_path h, join, if_pos (Or.inl habs)]
  | name base =>
    rw [IsPath] at h
    rw [resolve, h]
    dsimp only
    rw [if_pos habs]

/-- Relative references to one place are joined to one path. -/
theorem resolve_relative {l : Location} (hl : l.isRemote = false) {r r' : String} (hr : IsPath r)
    (hr' : IsPath r') (habs : isAbsolute r = false) (habs' : isAbsolute r' = false)
    (hplace : place r = place r') : ∃ m, l.resolve r = .ok m ∧ l.resolve r' = .ok m := by
  have hwalk : walk r = walk r' := by
    rw [← place_of_relative habs, hplace, place_of_relative habs']
  have hjoin : ∀ dir, normalize (join dir r) = normalize (join dir r') := by
    intro dir
    rw [normalize_eq, normalize_eq, walk_join dir habs, walk_join dir habs', hwalk]
  cases l with
  | url u => cases hl
  | path base => exact ⟨_, resolve_path hr base, by rw [resolve_path hr', hjoin]⟩
  | name base =>
    exact ⟨_, resolve_name hr habs base, by rw [resolve_name hr' habs', hjoin]⟩

theorem key_normalize_eq_iff (p q : String) : (path (normalize p)).key = (path (normalize q)).key ↔
    normalize p = normalize q := by
  simp only [key, normalize_normalize]
  refine ⟨fun h => ?_, fun h => by rw [h]⟩
  have hlist := congrArg String.toList h
  rw [String.toList_append, String.toList_append] at hlist
  exact String.toList_inj.1 (List.append_cancel_left hlist)

/-- The normal form of a path has the names of the path, and its climbs up to pairs of them; it is its own
normal form, and it denotes the place that the path denotes exactly if this climbs at most once. A reference
to the same place is resolved to a location of the same key, from each directory, unless both are absolute
and the numbers of their steps that are dropped at the root differ by an odd number. -/
theorem paths_read_as_text (p : String) :
    place (normalize p) = { place p with ups := (place p).ups % 2 } ∧
      (place (normalize p) = place p ↔ (place p).ups ≤ 1) ∧ normalize (normalize p) = normalize p ∧
      ∀ (l : Location) q, l.isRemote = false → IsPath p → IsPath q → place p = place q →
        ∃ m m', l.resolve p = .ok m ∧ l.resolve q = .ok m' ∧
          (m.key = m'.key ↔ (isAbsolute p = true → (walk p).ups % 2 = (walk q).ups % 2)) := by
  refine ⟨place_normalize p, place_normalize_eq_iff p, normalize_normalize p,
    fun l q hl hp hq hplace => ?_⟩
  have hrooted : isAbsolute p = isAbsolute q := by
    rw [← place_rooted, hplace, place_rooted]
  cases habs : isAbsolute p with
  | true =>
    have habs' : isAbsolute q = true := hrooted.symm.trans habs
    have hnames : (walk p).names = (walk q).names := by
      rw [← place_names, hplace, place_names]
    refine ⟨_, _, resolve_absolute hl hp habs, resolve_absolute hl hq habs', ?_⟩
    rw [key_normalize_eq_iff, normalize_eq_iff]
    exact ⟨fun h _ => h.2.2, fun h => ⟨hrooted, hnames, h rfl⟩⟩
  | false =>
    obtain ⟨m, hm, hm'⟩ := resolve_relative hl hp hq habs (hrooted.symm.trans habs) hplace
    exact ⟨m, m, hm, hm', fun _ h => absurd h Bool.false_ne_true, fun _ => rfl⟩

/-- The same file, by way of the directory it is in. -/
theorem sibling_resolved_alike : place "../common/./types.xsd" = place "../common/old/../types.xsd" ∧
    ∃ m m', (path "/data/app/app.xsd").resolve "../common/./types.xsd" = .ok m ∧
      (path "/data/app/app.xsd").resolve "../common/old/../types.xsd" = .ok m' ∧ m.key = m'.key := by
  have hpaths : IsPath "../common/./types.xsd" ∧ IsPath "../common/old/../types.xsd" ∧
      place "../common/./types.xsd" = place "../common/old/../types.xsd" ∧
      isAbsolute "../common/./types.xsd" = false := by
    decide +kernel
  obtain ⟨hr, hr', hplace, habs⟩ := hpaths
  obtain ⟨-, -, -, hresolved⟩ := paths_read_as_text "../common/./types.xsd"
  obtain ⟨m, m', hm, hm', hkey⟩ := hresolved (path "/data/app/app.xsd") _ rfl hr hr' hplace
  refine ⟨hplace, m, m', hm, hm', hkey.2 fun h => ?_⟩
  rw [habs] at h
  cases h

/-- The second step up takes back the first one, and a step dropped at the root stays in the key. -/
theorem climbs_cancelled : place (normalize "../../x.xsd") ≠ place "../../x.xsd" ∧
    (name "main.xsd").resolve "../../x.xsd" = .ok (name "x.xsd") ∧
    place "/../x.xsd" = place "/x.xsd" ∧
    (name "main.xsd").resolve "/../x.xsd" = .ok (path "/../x.xsd") ∧
    (path "/../x.xsd").key ≠ (path "/x.xsd").key := by
  have heval : place (normalize "../../x.xsd") ≠ place "../../x.xsd" ∧
      IsPath "../../x.xsd" ∧ isAbsolute "../../x.xsd" = false ∧
      replace "\\" "/" (normalize (join (nameDirectory "main.xsd") "../../x.xsd")) = "x.xsd" ∧
      place "/../x.xsd" = place "/x.xsd" ∧ IsPath "/../x.xsd" ∧ isAbsolute "/../x.xsd" = true ∧
      normalize "/../x.xsd" = "/../x.xsd" ∧ (path "/../x.xsd").key ≠ (path "/x.xsd").key := by
    decide +kernel
  obtain ⟨hplace, hpath, habs, hjoin, hplace', hpath', habs', hnormal, hkey⟩ := heval
  refine ⟨hplace, ?_, hplace', ?_, hkey⟩
  · rw [resolve_name hpath habs, hjoin]
  · rw [resolve_absolute rfl hpath' habs', hnormal]

end Location

end FeatureTables
