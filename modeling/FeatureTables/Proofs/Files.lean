import FeatureTables.Error
import FeatureTables.Files

/-!
What a tree of files keeps when directories are made and files are written: every path that led somewhere
leads there still, and a file that was written holds what was written.
-/

namespace FeatureTables.FileTree

open Text

deriving instance DecidableEq for FileTree

variable {t t' : FileTree} {path : String} {place : Trace} {bytes : Bytes}

/-! ### What stays -/

/-- Directories and files of the first tree are there in the second one, where files may hold something
else. -/
structure Extends (t t' : FileTree) : Prop where
  working : t'.working = t.working
  directories : ∀ p, t.isDirectory p = true → t'.isDirectory p = true
  files : ∀ p, (t.file? p).isSome = true → (t'.file? p).isSome = true

theorem Extends.refl (t : FileTree) : t.Extends t := ⟨rfl, fun _ h => h, fun _ h => h⟩

theorem Extends.trans {t₁ t₂ t₃ : FileTree} (h : t₁.Extends t₂) (h' : t₂.Extends t₃) :
    t₁.Extends t₃ where
  working := h'.working.trans h.working
  directories p hp := h'.directories p (h.directories p hp)
  files p hp := h'.files p (h.files p hp)

theorem file?_put (t : FileTree) (place : Trace) (bytes : Bytes) (p : Trace) :
    (t.put place bytes).file? p = if p = place then some bytes else t.file? p := by
  have hother : p ≠ place → (t.files.filter (·.1 != place)).lookup p = t.files.lookup p := fun hp => by
    induction t.files with
    | nil => rfl
    | cons f fs ih =>
      obtain ⟨q, held⟩ := f
      by_cases hq : q = place
      · have hpq : (p == q) = false := beq_false_of_ne (hq ▸ hp)
        rw [List.filter_cons_of_neg (by simp [hq]), ih, List.lookup_cons, hpq]
      · rw [List.filter_cons_of_pos (by simp [hq]), List.lookup_cons, List.lookup_cons, ih]
  rw [put, file?, List.lookup_cons]
  by_cases hp : p = place
  · simp [hp]
  · rw [beq_false_of_ne hp, if_neg hp]
    exact hother hp

theorem extends_put (t : FileTree) (place : Trace) (bytes : Bytes) : t.Extends (t.put place bytes) where
  working := rfl
  directories _ h := h
  files p h := by
    rw [file?_put]
    split
    · rfl
    · exact h

/-- What writes do: the path leads to a place that is no directory. -/
theorem write_cases (h : t.write path bytes = .ok t') :
    ∃ place, t.trace path = .ok place ∧ t.isDirectory place = false ∧ t' = t.put place bytes := by
  rw [write] at h
  cases hend : endsWith path "/" with
  | true =>
    rw [hend, if_pos rfl] at h
    cases hwalk : t.walkPath path fun ss => (dropEmptyEnd ss).dropLast ++ [""] with
    | error e =>
      rw [hwalk] at h
      cases h
    | ok place =>
      rw [hwalk] at h
      cases h
  | false =>
    rw [hend, if_neg (by decide)] at h
    cases htrace : t.trace path with
    | error e =>
      rw [htrace] at h
      cases h
    | ok place =>
      rw [htrace] at h
      cases hdirectory : t.isDirectory place with
      | true =>
        simp only [bind, Except.bind, hdirectory, if_true] at h
        cases h
      | false =>
        simp only [bind, Except.bind, hdirectory] at h
        exact ⟨place, rfl, hdirectory, (Except.ok.inj h).symm⟩

theorem extends_write (h : t.write path bytes = .ok t') : t.Extends t' := by
  obtain ⟨place, -, -, rfl⟩ := write_cases h
  exact extends_put t place bytes

theorem extends_makeDirectory (h : t.makeDirectory path = .ok t') : t.Extends t' := by
  rw [makeDirectory] at h
  cases hwalk : t.walkPath path dropEmptyEnd with
  | error e =>
    rw [hwalk] at h
    cases h
  | ok place =>
    rw [hwalk] at h
    cases hholds : t.holds place with
    | true =>
      simp only [bind, Except.bind, hholds, if_true] at h
      cases h
    | false =>
      simp only [bind, Except.bind, hholds] at h
      obtain rfl := Except.ok.inj h
      refine ⟨rfl, fun p hp => ?_, fun _ hp => hp⟩
      simp only [isDirectory, Bool.or_eq_true, List.contains_iff_mem] at hp ⊢
      exact hp.imp_right (List.mem_cons_of_mem _)

theorem extends_withDirectory (t : FileTree) (path : String) : t.Extends (t.withDirectory path).2 := by
  rw [withDirectory]
  split
  · exact extends_makeDirectory ‹_›
  · exact .refl t

theorem extends_makeEach (t : FileTree) (paths : List String) : t.Extends (t.makeEach paths).2 := by
  induction paths generalizing t with
  | nil => exact .refl t
  | cons path above ih =>
    rw [makeEach]
    split
    · exact .refl t
    · have hfirst := extends_withDirectory t path
      split
      · rename_i t₁ hmissing
        rw [hmissing] at hfirst
        have habove := ih t₁
        split
        · rename_i t₂ hmade
          rw [hmade] at habove
          exact (hfirst.trans habove).trans (extends_withDirectory t₂ path)
        · exact hfirst.trans habove
      · exact hfirst

theorem extends_makeDirectories (t : FileTree) (path : String) : t.Extends (t.makeDirectories path).2 :=
  extends_makeEach t _

/-! ### Where paths lead -/

theorem Extends.walk (h : t.Extends t') {ss : List String} {p : Trace} (hwalk : t.walk place ss = .ok p) :
    t'.walk place ss = .ok p := by
  induction ss generalizing place with
  | nil => exact hwalk
  | cons s ss ih =>
    rw [FileTree.walk] at hwalk ⊢
    cases hdirectory : t.isDirectory place with
    | true =>
      rw [hdirectory, if_pos rfl] at hwalk
      rw [h.directories _ hdirectory, if_pos rfl]
      split at hwalk
      · cases hwalk
      · rw [if_neg ‹_›]
        exact ih hwalk
    | false =>
      rw [hdirectory, if_neg (by decide)] at hwalk
      split at hwalk
      · cases hwalk
      · cases hwalk

theorem Extends.trace (h : t.Extends t') (htrace : t.trace path = .ok place) : t'.trace path = .ok place := by
  rw [FileTree.trace, walkPath] at htrace ⊢
  rw [h.working]
  split at htrace
  · cases htrace
  rw [if_neg ‹_›]
  split at htrace
  · cases htrace
  rw [if_neg ‹_›]
  split at htrace
  · cases htrace
  rw [if_neg ‹_›]
  exact h.walk htrace

theorem Extends.canonical? (h : t.Extends t') {s : String} (hpath : t.canonical? path = some s) :
    t'.canonical? path = some s := by
  rw [FileTree.canonical?] at hpath ⊢
  cases htrace : t.trace path with
  | error e =>
    rw [htrace] at hpath
    cases hpath
  | ok place =>
    rw [htrace] at hpath
    rw [h.trace htrace]
    cases hholds : t.holds place with
    | false =>
      simp [hholds] at hpath
    | true =>
      have hholds' : t'.holds place = true := by
        simp only [holds, Bool.or_eq_true] at hholds ⊢
        exact hholds.imp (h.directories place) (h.files place)
      simpa [hholds, hholds'] using hpath

/-! ### What files hold -/

theorem read_cases (h : t.read path = .ok bytes) :
    ∃ place, t.trace path = .ok place ∧ t.file? place = some bytes := by
  rw [read] at h
  cases htrace : t.trace path with
  | error e =>
    rw [htrace] at h
    cases h
  | ok place =>
    rw [htrace] at h
    cases hfile : t.file? place with
    | some held =>
      simp only [bind, Except.bind, hfile] at h
      exact ⟨place, rfl, hfile.trans (congrArg some (Except.ok.inj h))⟩
    | none =>
      simp only [bind, Except.bind, hfile] at h
      cases h

theorem canonical?_isSome_of_read (h : t.read path = .ok bytes) : (t.canonical? path).isSome = true := by
  obtain ⟨place, htrace, hfile⟩ := read_cases h
  simp [canonical?, htrace, holds, hfile]

theorem write_of_trace (hend : endsWith path "/" = false) (htrace : t.trace path = .ok place)
    (hplace : t.isDirectory place = false) (bytes : Bytes) :
    t.write path bytes = .ok (t.put place bytes) := by
  simp [write, hend, htrace, hplace, bind, Except.bind, pure, Except.pure]

/-- A file that was written holds what was written. -/
theorem read_write (h : t.write path bytes = .ok t') : t'.read path = .ok bytes := by
  obtain ⟨place, htrace, -, rfl⟩ := write_cases h
  have hfile : (t.put place bytes).file? place = some bytes := by rw [file?_put, if_pos rfl]
  simp [read, (extends_put t place bytes).trace htrace, hfile, bind, Except.bind, pure, Except.pure]

/-- Other files hold what they held. -/
theorem read_put {other : String} {p : Trace} (hother : t.trace other = .ok p) (hne : p ≠ place)
    (bytes : Bytes) : (t.put place bytes).read other = t.read other := by
  have hfile : (t.put place bytes).file? p = t.file? p := by rw [file?_put, if_neg hne]
  simp only [read, (extends_put t place bytes).trace hother, hother, bind, Except.bind, hfile]
  rfl

/-! ### Work on a tree -/

section

variable {α β : Type}

/-- What comes of work on a tree, and the tree that it leaves. -/
def run (t : FileTree) (x : ExceptT Error (StateM FileTree) α) : Except Error α × FileTree := x.run.run t

theorem run_pure (t : FileTree) (a : α) : t.run (pure a) = (.ok a, t) := rfl

theorem run_throw (t : FileTree) (e : Error) :
    t.run (throw e : ExceptT Error (StateM FileTree) α) = (.error e, t) :=
  rfl

theorem run_bind (t : FileTree) (x : ExceptT Error (StateM FileTree) α)
    (f : α → ExceptT Error (StateM FileTree) β) : t.run (x >>= f) =
      match t.run x with
      | (.ok a, t') => t'.run (f a)
      | (.error e, t') => (.error e, t') := by
  show (match x.run.run t with | (r, t') => (ExceptT.bindCont f r).run t') = _
  rw [run]
  obtain ⟨r | a, t'⟩ := x.run.run t
  · rfl
  · rfl

theorem run_map (t : FileTree) (f : α → β) (x : ExceptT Error (StateM FileTree) α) :
    t.run (f <$> x) = ((t.run x).1.map f, (t.run x).2) := by
  rw [map_eq_pure_bind, run_bind]
  obtain ⟨e | a, t'⟩ := t.run x
  · rfl
  · rfl

theorem run_discard (t : FileTree) (x : ExceptT Error (StateM FileTree) α) :
    t.run (discard x) = ((t.run x).1.map fun _ => (), (t.run x).2) :=
  run_map t (fun _ => ()) x

theorem run_tryCatch (t : FileTree) (x : ExceptT Error (StateM FileTree) α)
    (f : Error → ExceptT Error (StateM FileTree) α) : t.run (tryCatch x f) =
      match t.run x with
      | (.ok a, t') => (.ok a, t')
      | (.error e, t') => t'.run (f e) := by
  show (ExceptT.tryCatch x f).run.run t = _
  rw [run, ExceptT.tryCatch, ExceptT.run_mk, StateT.run_bind, ExceptT.run]
  obtain ⟨r | a, t'⟩ := StateT.run x t
  · rfl
  · rfl

theorem run_result (t : FileTree) (x : Except Error α) : t.run (liftM x) = (x, t) := by
  cases x with
  | ok a => rfl
  | error e => rfl

theorem run_state (t : FileTree) (x : StateM FileTree α) : t.run (liftM x) = (.ok (x.run t).1, (x.run t).2) :=
  rfl

theorem run_read (t : FileTree) (path : String) :
    t.run (liftM (FileAccess.read path : StateM FileTree (Except FileFault Bytes))) =
      (.ok (t.read path), t) :=
  rfl

theorem run_canonical? (t : FileTree) (path : String) :
    t.run (liftM (FileAccess.canonical? path : StateM FileTree (Option String))) =
      (.ok (t.canonical? path), t) :=
  rfl

theorem run_makeDirectories (t : FileTree) (path : String) :
    t.run (liftM (FileAccess.makeDirectories path : StateM FileTree (Except FileFault Unit))) =
      (.ok (t.makeDirectories path).1, (t.makeDirectories path).2) :=
  rfl

theorem run_write (t : FileTree) (path : String) (bytes : Bytes) :
    t.run (liftM (FileAccess.write path bytes : StateM FileTree (Except FileFault Unit))) =
      match t.write path bytes with
      | .ok t' => (.ok (.ok ()), t')
      | .error e => (.ok (.error e), t) := by
  rw [run_state]
  show (Except.ok
      (match t.write path bytes with | .ok t' => (Except.ok (), t') | .error e => (.error e, t)).1,
    (match t.write path bytes with | .ok t' => (Except.ok (), t') | .error e => (.error e, t)).2) = _
  cases t.write path bytes with
  | ok t' => rfl
  | error e => rfl

end

end FeatureTables.FileTree
