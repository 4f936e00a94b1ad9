import FeatureTables.Proofs.Conversion.History
import FeatureTables.Proofs.Files
import FeatureTables.Proofs.Model.File

/-!
Conversions that share a directory of model files. The model of a document is kept for its path alone, so
the next conversion of the file is given that model, whatever schemas and options it has itself.
-/

namespace FeatureTables

open FileTree Text Xml

/-! ### Model files in a tree -/

namespace ModelFile

variable {t t' : FileTree} {dir key : String} {m : Model}

theorem run_load? (t : FileTree) (dir key : String) :
    t.run (load? dir key) =
      (match t.read (pathFor dir key) with
        | .ok bytes => (read key bytes).map some
        | .error .missing => .ok none
        | .error e => .error (.files e.message), t) := by
  rw [load?, run_bind, run_read]
  cases t.read (pathFor dir key) with
  | ok bytes =>
    show t.run (some <$> (liftM (read key bytes))) = (Except.map some (read key bytes), t)
    rw [map_eq_pure_bind, run_bind, run_result]
    cases read key bytes with
    | ok m => rfl
    | error e => rfl
  | error e =>
    cases e with
    | _ => rfl

/-- Storing makes the directory and writes the file; the tree is left as far as that went. -/
theorem run_store (t : FileTree) (dir key : String) (m : Model) :
    t.run (store dir key m) =
      match t.makeDirectories dir with
      | (.error e, t₁) => (.error (.files e.message), t₁)
      | (.ok (), t₁) =>
        match t₁.write (pathFor dir key) (utf8 (write key m)) with
        | .error e => (.error (.files e.message), t₁)
        | .ok t₂ => (.ok (pathFor dir key), t₂) := by
  simp only [store, run_bind, run_makeDirectories]
  generalize utf8 (write key m) = bytes
  generalize pathFor dir key = file
  obtain ⟨e | _, t₁⟩ := t.makeDirectories dir
  · rfl
  · simp only [run_pure, run_write]
    cases t₁.write file bytes with
    | error e => simp only [run_throw]
    | ok t₂ => simp only [run_pure]

theorem extends_store (t : FileTree) (dir key : String) (m : Model) :
    t.Extends (t.run (store dir key m)).2 := by
  have hmade := t.extends_makeDirectories dir
  rw [run_store]
  generalize t.makeDirectories dir = made at hmade ⊢
  generalize utf8 (write key m) = bytes
  generalize pathFor dir key = file
  obtain ⟨e | _, t₁⟩ := made
  · exact hmade
  · cases hwrite : t₁.write file bytes with
    | error e => simpa only [hwrite] using hmade
    | ok t₂ => simpa only [hwrite] using hmade.trans (extends_write hwrite)

/-- A model that was stored is in the file of its key. -/
theorem read_store {file : String} (h : t.run (store dir key m) = (.ok file, t')) :
    t'.read (pathFor dir key) = .ok (utf8 (write key m)) := by
  rw [run_store] at h
  generalize utf8 (write key m) = bytes at h ⊢
  generalize pathFor dir key = file at h ⊢
  generalize t.makeDirectories dir = made at h
  obtain ⟨e | _, t₁⟩ := made
  · cases h
  · cases hwrite : t₁.write file bytes with
    | error e =>
      simp only [hwrite] at h
      cases h
    | ok t₂ =>
      simp only [hwrite] at h
      obtain rfl : t₂ = t' := congrArg Prod.snd h
      exact read_write hwrite

/-- The model that a conversion takes from what the file of a key holds, if any. -/
def offered? (key : String) : Except FileFault Bytes → Except Error (Option Model)
  | .ok bytes =>
    match read key bytes with
    | .ok m => .ok (some m)
    | .error (.modelFile _) => .ok none
    | .error e => .error e
  | .error .missing => .ok none
  | .error e => .error (.files e.message)

theorem offered?_write (key : String) (m : Model) :
    offered? key (.ok (utf8 (write key m))) = .ok (read key (utf8 (write key m))).toOption := by
  rw [offered?]
  obtain ⟨m', hread⟩ | ⟨cause, hread⟩ := read_write_cases key m
  · rw [hread]
    rfl
  · rw [hread]
    rfl

theorem run_cached? (t : FileTree) (dir key : String) :
    t.run (Conversion.cached? (some dir) key) = (offered? key (t.read (pathFor dir key)), t) := by
  rw [Conversion.cached?, run_tryCatch, run_load?]
  cases t.read (pathFor dir key) with
  | ok bytes =>
    simp only [offered?]
    cases read key bytes with
    | ok m => rfl
    | error e =>
      cases e with
      | _ => rfl
  | error e =>
    cases e with
    | _ => rfl

end ModelFile

/-! ### Files -/

/-- The key that a path has for model files. -/
def FileTree.keyOf (t : FileTree) (path : String) : String := (t.canonical? path).getD path

/-- The key of a file stays. -/
theorem FileTree.Extends.keyOf {t t' : FileTree} {path : String} {bytes : Bytes} (h : t.Extends t')
    (hheld : t.read path = .ok bytes) : t'.keyOf path = t.keyOf path := by
  obtain ⟨key, hkey⟩ := Option.isSome_iff_exists.1 (canonical?_isSome_of_read hheld)
  rw [FileTree.keyOf, h.canonical? hkey, FileTree.keyOf, hkey]

namespace Conversion

open ModelFile

variable {c : Conversion} {t t' : FileTree} {dir path : String} {m : Model} {n : Nat}

/-- The document in what a file holds. -/
def parsed (limits : Limits) (path : String) : Except FileFault Bytes → Except Error Document
  | .ok bytes => Document.parse limits bytes
  | .error e => .error (.resource ("Failed to read file '" ++ path ++ "': " ++ e.message))

theorem run_ofFile (limits : Limits) (t : FileTree) (path : String) :
    t.run (Document.ofFile limits path) = (parsed limits path (t.read path), t) := by
  simp only [Document.ofFile, readFile, run_bind, run_read]
  cases t.read path with
  | error e => rfl
  | ok bytes => simp only [run_pure, run_result, parsed]

/-- The model and the number of rows that a conversion makes itself of what a file holds. -/
def made (c : Conversion) (path : String) (held : Except FileFault Bytes) : Except Error (Model × Nat) :=
  (parsed c.limits path held).bind (c.document {})

theorem run_file (h : c.cacheDir? = some dir) (t : FileTree) (path : String) :
    t.run (c.file {} path) =
      match offered? (t.keyOf path) (t.read (pathFor dir (t.keyOf path))) with
      | .error e => (.error e, t)
      | .ok (some m) => (.ok (m, m.rowCount), t)
      | .ok none =>
        match c.made path (t.read path) with
        | .error e => (.error e, t)
        | .ok (m, n) => (.ok (m, n), (t.run (store dir (t.keyOf path) m)).2) := by
  have hdir : (if ({} : Model).tables.entries.isEmpty then c.cacheDir? else none) = some dir := h
  simp only [file, run_bind, run_canonical?, hdir, run_cached?, made]
  rw [← FileTree.keyOf]
  cases offered? (t.keyOf path) (t.read (pathFor dir (t.keyOf path))) with
  | error e => rfl
  | ok m? =>
    cases m? with
    | some m => rfl
    | none =>
      simp only [run_bind, run_ofFile]
      cases parsed c.limits path (t.read path) with
      | error e => rfl
      | ok d =>
        simp only [run_result, Except.bind]
        cases c.document {} d with
        | error e => rfl
        | ok made =>
          obtain ⟨m, n⟩ := made
          simp only [run_tryCatch, run_discard]
          obtain ⟨e | _, t'⟩ := t.run (store dir (t.keyOf path) m)
          · rfl
          · rfl

/-- A model that is made of a file and can be stored is kept for the key of the file. -/
theorem run_file_of_store (h : c.cacheDir? = some dir)
    (hnone : offered? (t.keyOf path) (t.read (pathFor dir (t.keyOf path))) = .ok none)
    (hmade : c.made path (t.read path) = .ok (m, n)) {file : String}
    (hstore : t.run (store dir (t.keyOf path) m) = (.ok file, t')) :
    t.run (c.file {} path) = (.ok (m, n), t') ∧
      t'.read (pathFor dir (t.keyOf path)) = .ok (utf8 (ModelFile.write (t.keyOf path) m)) := by
  refine ⟨?_, read_store hstore⟩
  rw [run_file h, hnone, hmade]
  simp only [hstore]

/-- What the conversion of a file comes to. -/
theorem result_file (h : c.cacheDir? = some dir) (t : FileTree) (path : String) :
    (t.run (c.file {} path)).1 =
      match offered? (t.keyOf path) (t.read (pathFor dir (t.keyOf path))) with
      | .error e => .error e
      | .ok (some m) => .ok (m, m.rowCount)
      | .ok none => c.made path (t.read path) := by
  rw [run_file h]
  cases offered? (t.keyOf path) (t.read (pathFor dir (t.keyOf path))) with
  | error e => rfl
  | ok m? =>
    cases m? with
    | some m => rfl
    | none =>
      cases hmade : c.made path (t.read path) with
      | error e => rfl
      | ok made => rfl

theorem extends_file (h : c.cacheDir? = some dir) (t : FileTree) (path : String) :
    t.Extends (t.run (c.file {} path)).2 := by
  rw [run_file h]
  cases offered? (t.keyOf path) (t.read (pathFor dir (t.keyOf path))) with
  | error e => exact .refl t
  | ok m? =>
    cases m? with
    | some m => exact .refl t
    | none =>
      cases c.made path (t.read path) with
      | error e => exact .refl t
      | ok made => exact extends_store t dir _ made.1

/-- The next conversion of a file is given what the file of its key gives back, and makes a model itself
where that is refused. -/
theorem run_file_after {A B : Conversion} (hA : A.cacheDir? = some dir) (hB : B.cacheDir? = some dir)
    (hconverted : t.run (A.file {} path) = (.ok (m, n), t'))
    (hcached : t'.read (pathFor dir (t.keyOf path)) = .ok (utf8 (ModelFile.write (t.keyOf path) m)))
    (hunchanged : t'.read path = t.read path) :
    (t'.run (B.file {} path)).1 =
      match ModelFile.read (t.keyOf path) (utf8 (ModelFile.write (t.keyOf path) m)) with
      | .ok kept => .ok (kept, kept.rowCount)
      | .error _ => (t.run (B.file {} path)).1 := by
  have hextends : t.Extends t' := by
    have h := extends_file hA t path
    rwa [hconverted] at h
  rw [run_file hA] at hconverted
  cases hoffered : offered? (t.keyOf path) (t.read (pathFor dir (t.keyOf path))) with
  | error e =>
    rw [hoffered] at hconverted
    cases hconverted
  | ok m? =>
    rw [hoffered] at hconverted
    cases m? with
    | some kept =>
      -- the first conversion was given a model as well, and left the tree as it was
      obtain rfl : t = t' := congrArg Prod.snd hconverted
      obtain rfl : kept = m := congrArg Prod.fst (Except.ok.inj (congrArg Prod.fst hconverted))
      have hread := hoffered
      rw [hcached, offered?_write] at hread
      rw [result_file hB, hoffered, toOption_eq_some_iff.1 (Except.ok.inj hread)]
    | none =>
      cases hmade : A.made path (t.read path) with
      | error e =>
        rw [hmade] at hconverted
        cases hconverted
      | ok made =>
        have hkey : t'.keyOf path = t.keyOf path := by
          cases hheld : t.read path with
          | error e =>
            rw [hheld] at hmade
            cases hmade
          | ok bytes => exact hextends.keyOf hheld
        rw [result_file hB t', hkey, hcached, offered?_write, hunchanged, result_file hB t, hoffered]
        cases ModelFile.read (t.keyOf path) (utf8 (ModelFile.write (t.keyOf path) m)) with
        | ok kept => rfl
        | error e => rfl

/-- After a conversion `A` made a model of a file and kept it, a conversion `B` that shares the directory
is given what the model file gives back, and makes a model itself only where that file is refused. If the
finite numbers of the model are read as they are written, `B` has the model that it has without `A` exactly
if it makes the model of `A` itself or the model file is refused; the same conversion again always has it. -/
theorem file_after_file {A B : Conversion} (hA : A.cacheDir? = some dir) (hB : B.cacheDir? = some dir)
    (hconverted : t.run (A.file {} path) = (.ok (m, n), t'))
    (hcached : t'.read (pathFor dir (t.keyOf path)) = .ok (utf8 (ModelFile.write (t.keyOf path) m)))
    (hunchanged : t'.read path = t.read path) :
    ((t'.run (B.file {} path)).1 =
      match ModelFile.read (t.keyOf path) (utf8 (ModelFile.write (t.keyOf path) m)) with
      | .ok kept => .ok (kept, kept.rowCount)
      | .error _ => (t.run (B.file {} path)).1) ∧
    (m.InRange → (∀ x, Value.real x ∈ m.cellValues → x.isFinite = true → x.ReadsBack) →
      ((t'.run (B.file {} path)).1.map Prod.fst = (t.run (B.file {} path)).1.map Prod.fst ↔
        (t.run (B.file {} path)).1.map Prod.fst = .ok m ∨
        (t.keyOf path).toList.getLast? = some '\r' ∨ ¬ m.Kept 122) ∧
      (A = B → (t'.run (B.file {} path)).1.map Prod.fst = (t.run (B.file {} path)).1.map Prod.fst)) := by
  have hafter := run_file_after hA hB hconverted hcached hunchanged
  refine ⟨hafter, fun hm hreals => ?_⟩
  have hiff : (t'.run (B.file {} path)).1.map Prod.fst = (t.run (B.file {} path)).1.map Prod.fst ↔
      (t.run (B.file {} path)).1.map Prod.fst = .ok m ∨
      (t.keyOf path).toList.getLast? = some '\r' ∨ ¬ m.Kept 122 := by
    by_cases hkey : (t.keyOf path).toList.getLast? = some '\r'
    · rw [hafter, read_of_return m hkey]
      exact iff_of_true rfl (.inr (.inl hkey))
    · by_cases hkept : m.Kept 122
      · rw [hafter, read_of_kept hm hreals hkey hkept]
        simp only [hkey, hkept, not_true_eq_false, or_false]
        exact eq_comm
      · rw [hafter, read_of_not_kept hm hreals hkey hkept]
        exact iff_of_true rfl (.inr (.inr hkept))
  refine ⟨hiff, fun hAB => hiff.2 (.inl ?_)⟩
  rw [← hAB, hconverted]
  rfl

/-! ### A conversion with other options -/

/-- A part with a part of its own. -/
def nestedSchema : String :=
  "<xs:schema xmlns:xs='http://www.w3.org/2001/XMLSchema'><xs:element name='a'><xs:complexType>" ++
  "<xs:sequence><xs:element name='b'><xs:complexType><xs:sequence>" ++
  "<xs:element name='c' type='xs:string'/></xs:sequence></xs:complexType></xs:element></xs:sequence>" ++
  "</xs:complexType></xs:element></xs:schema>"

/-- The conversion that lets parts nest so deep in rows, and keeps models. -/
def nesting (depth : Nat) : Conversion :=
  { ofText nestedSchema { mergeMaxDepth := depth } with cacheDir? := some "/m" }

def nestedTree : FileTree where
  files := [(["a.xml"], utf8 "<a><b><c>x</c></b></a>")]

/-- The tree with the directory of models. -/
def nestedTreeWithModels : FileTree := { nestedTree with directories := [["m"]] }

/-- The place of the model file. -/
def nestedPlace : Trace := ["8432bcccbf3bfb44bf6a6e37d9847cba4f8b058c63099dcb2f567b2d0af0e006.gmlas", "m"]

/-- The steps of storing a model, as far as the model does not matter. -/
theorem nested_steps :
    pathFor "/m" "/a.xml" = pathOf nestedPlace ∧
    nestedTree.keyOf "/a.xml" = "/a.xml" ∧
    nestedTree.read (pathOf nestedPlace) = .error .missing ∧
    nestedTree.makeDirectories "/m" = (.ok (), nestedTreeWithModels) ∧
    endsWith (pathOf nestedPlace) "/" = false ∧
    nestedTreeWithModels.trace (pathOf nestedPlace) = .ok nestedPlace ∧
    nestedTreeWithModels.isDirectory nestedPlace = false ∧
    nestedTreeWithModels.trace "/a.xml" = .ok ["a.xml"] ∧
    nestedTreeWithModels.read "/a.xml" = nestedTree.read "/a.xml" := by
  decide +kernel

/-- Any model of the file can be stored, and the document stays. -/
theorem run_store_nested (m : Model) :
    ∃ t', nestedTree.run (store "/m" "/a.xml" m) = (.ok (pathFor "/m" "/a.xml"), t') ∧
      t'.read "/a.xml" = nestedTree.read "/a.xml" := by
  obtain ⟨hfile, -, -, hmade, hend, htrace, hplace, hdocument, hheld⟩ := nested_steps
  have hwrite := write_of_trace hend htrace hplace (utf8 (ModelFile.write "/a.xml" m))
  have hother : ["a.xml"] ≠ nestedPlace := by decide
  refine ⟨nestedTreeWithModels.put nestedPlace (utf8 (ModelFile.write "/a.xml" m)), ?_,
    (read_put hdocument hother _).trans hheld⟩
  rw [run_store, hmade, hfile]
  simp only [hwrite]

/-- The conversion without nesting makes a model with two tables, which can be kept, and the one with
nesting makes another one. -/
theorem made_nested : ∃ m n, (nesting 0).made "/a.xml" (nestedTree.read "/a.xml") = .ok (m, n) ∧
    m.InRange ∧ m.Kept 122 ∧ m.cellValues = [.int 1, .int 1, .int 1, .text "x"] ∧
    ((nesting 6).made "/a.xml" (nestedTree.read "/a.xml")).map Prod.fst ≠ .ok m := by
  obtain ⟨heval, hother⟩ : (((nesting 0).made "/a.xml" (nestedTree.read "/a.xml")).toOption.map fun made =>
        decide (made.1.InRange ∧ made.1.Kept 122 ∧
          made.1.cellValues = [.int 1, .int 1, .int 1, .text "x"])) = some true ∧
      (((nesting 6).made "/a.xml" (nestedTree.read "/a.xml")).toOption.map fun made =>
        made.1.cellValues) = some [.int 1, .text "x"] := by
    decide +kernel
  obtain ⟨⟨m, n⟩, hmade, heval⟩ := Option.map_eq_some_iff.1 heval
  rw [toOption_eq_some_iff] at hmade
  obtain ⟨hrange, hkept, hvalues⟩ := of_decide_eq_true heval
  refine ⟨m, n, hmade, hrange, hkept, hvalues, fun heq => ?_⟩
  cases hsix : (nesting 6).made "/a.xml" (nestedTree.read "/a.xml") with
  | error e =>
    rw [hsix] at heq
    cases heq
  | ok made =>
    rw [hsix] at heq hother
    have hsame : made.1.cellValues = [.int 1, .text "x"] := Option.some.inj hother
    rw [show made.1 = m from Except.ok.inj heq, hvalues] at hsame
    cases hsame

/-- The conversion without nesting converts the file and keeps the model. -/
theorem run_file_nested : ∃ m n t', nestedTree.run ((nesting 0).file {} "/a.xml") = (.ok (m, n), t') ∧
    t'.read (pathFor "/m" (nestedTree.keyOf "/a.xml")) =
      .ok (utf8 (ModelFile.write (nestedTree.keyOf "/a.xml") m)) ∧
    t'.read "/a.xml" = nestedTree.read "/a.xml" ∧
    m.InRange ∧ m.Kept 122 ∧ m.cellValues = [.int 1, .int 1, .int 1, .text "x"] ∧
    (nestedTree.run ((nesting 6).file {} "/a.xml")).1.map Prod.fst ≠ .ok m := by
  obtain ⟨hfile, hkey, hmissing, -⟩ := nested_steps
  obtain ⟨m, n, hmade, hrange, hkept, hvalues, hother⟩ := made_nested
  obtain ⟨t', hstore, hunchanged⟩ := run_store_nested m
  have hnone : offered? (nestedTree.keyOf "/a.xml")
      (nestedTree.read (pathFor "/m" (nestedTree.keyOf "/a.xml"))) = .ok none := by
    rw [hkey, hfile, hmissing]
    rfl
  obtain ⟨hrun, hheld⟩ := run_file_of_store (show (nesting 0).cacheDir? = some "/m" from rfl) hnone hmade
    (hkey.symm ▸ hstore)
  refine ⟨m, n, t', hrun, hheld, hunchanged, hrange, hkept, hvalues, ?_⟩
  rw [result_file (show (nesting 6).cacheDir? = some "/m" from rfl), hnone]
  exact hother

/-- The same conversion again has the same model. -/
theorem same_conversion_again : ∃ m n t',
    ((nesting 0).cacheDir? = some "/m" ∧
      nestedTree.run ((nesting 0).file {} "/a.xml") = (.ok (m, n), t') ∧
      t'.read (pathFor "/m" (nestedTree.keyOf "/a.xml")) =
        .ok (utf8 (ModelFile.write (nestedTree.keyOf "/a.xml") m)) ∧
      t'.read "/a.xml" = nestedTree.read "/a.xml" ∧
      m.InRange ∧ ∀ x, Value.real x ∈ m.cellValues → x.isFinite = true → x.ReadsBack) ∧
    (t'.run ((nesting 0).file {} "/a.xml")).1.map Prod.fst =
      (nestedTree.run ((nesting 0).file {} "/a.xml")).1.map Prod.fst := by
  obtain ⟨m, n, t', hrun, hheld, hunchanged, hrange, -, hvalues, -⟩ := run_file_nested
  have hreals : ∀ x, Value.real x ∈ m.cellValues → x.isFinite = true → x.ReadsBack := by
    rw [hvalues]
    simp
  exact ⟨m, n, t', ⟨rfl, hrun, hheld, hunchanged, hrange, hreals⟩,
    ((file_after_file rfl rfl hrun hheld hunchanged).2 hrange hreals).2 rfl⟩

/-- A conversion that lets parts nest is given the model of one that does not. -/
theorem other_conversion_given : ∃ m n t',
    ((nesting 0).cacheDir? = some "/m" ∧ (nesting 6).cacheDir? = some "/m" ∧
      nestedTree.run ((nesting 0).file {} "/a.xml") = (.ok (m, n), t') ∧
      t'.read (pathFor "/m" (nestedTree.keyOf "/a.xml")) =
        .ok (utf8 (ModelFile.write (nestedTree.keyOf "/a.xml") m)) ∧
      t'.read "/a.xml" = nestedTree.read "/a.xml") ∧
    (t'.run ((nesting 6).file {} "/a.xml")).1.map Prod.fst = .ok m ∧
    (nestedTree.run ((nesting 6).file {} "/a.xml")).1.map Prod.fst ≠ .ok m := by
  obtain ⟨m, n, t', hrun, hheld, hunchanged, hrange, hkept, hvalues, hother⟩ := run_file_nested
  have hreals : ∀ x, Value.real x ∈ m.cellValues → x.isFinite = true → x.ReadsBack := by
    rw [hvalues]
    simp
  have hkey : (nestedTree.keyOf "/a.xml").toList.getLast? ≠ some '\r' := by
    rw [nested_steps.2.1]
    decide
  refine ⟨m, n, t', ⟨rfl, rfl, hrun, hheld, hunchanged⟩, ?_, hother⟩
  rw [run_file_after (show (nesting 0).cacheDir? = some "/m" from rfl)
    (show (nesting 6).cacheDir? = some "/m" from rfl) hrun hheld hunchanged,
    read_of_kept hrange hreals hkey hkept]
  rfl

end Conversion

end FeatureTables
