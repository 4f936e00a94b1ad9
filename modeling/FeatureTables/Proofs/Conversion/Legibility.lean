import FeatureTables.Proofs.Conversion.Caching

/-!
Model files of any content. A file whose header is text is read or refused as a model file, and a
conversion that finds it refused makes the model itself. A line of the header that is no text is a failure
of another kind, which ends the conversion.
-/

namespace FeatureTables

open FileTree Text Number

namespace ModelFile

variable {key : String} {bs rest : Bytes} {s : String}

/-! ### The header -/

/-- The bytes of a line, counted from zero, with its end. -/
def lineAt (bs : Bytes) : Nat → Bytes
  | 0 => (cutLine bs).1
  | i + 1 => lineAt (cutLine bs).2 i

/-- The lines of the header are text as far as they are looked at: the second one behind the magic word
and the third one behind a version that is known. -/
def Legible (bs : Bytes) : Prop :=
  ∃ first, fromUtf8? (lineAt bs 0) = some first ∧ (withoutEnd first = magic →
    ∃ second, fromUtf8? (lineAt bs 1) = some second ∧
      ∀ n, readNat? (Nat.pow 2 32 - 1) (trim second) = some n → n ≤ version →
        (fromUtf8? (lineAt bs 2)).isSome = true)

/-- The failure of a line that is no text. -/
def illegible : Error := .files "stream did not contain valid UTF-8"

theorem line_eq (bs : Bytes) :
    line bs = match fromUtf8? (lineAt bs 0) with
      | some text => .ok (text, (cutLine bs).2)
      | none => .error illegible := rfl

/-! ### Reading any bytes -/

/-- The bytes are read as a model file, or refused as one. -/
def Answered (key : String) (bs : Bytes) : Prop :=
  (∃ m, read key bs = .ok m) ∨ ∃ cause, read key bs = .error (.modelFile cause)

theorem not_answered_of_illegible (h : read key bs = .error illegible) : ¬ Answered key bs := by
  rintro (⟨m, hread⟩ | ⟨cause, hread⟩)
  · rw [h] at hread
    cases hread
  · rw [h] at hread
    cases hread

/-- Reading ends with an answer if the header is text, and with the failure of a line otherwise. -/
theorem read_cases (key : String) (bs : Bytes) :
    Legible bs ∧ Answered key bs ∨ ¬ Legible bs ∧ read key bs = .error illegible := by
  unfold Answered Legible read
  rw [line_eq]
  cases hfirst : fromUtf8? (lineAt bs 0) with
  | none => exact .inr ⟨by simp, rfl⟩
  | some first =>
  simp only [bind, Except.bind, Option.some.injEq, exists_eq_left']
  by_cases hmagic : withoutEnd first = magic
  · simp only [hmagic, ne_eq, not_true_eq_false, if_false, pure, Except.pure, true_implies, line_eq,
      show lineAt (cutLine bs).2 0 = lineAt bs 1 from rfl]
    cases hsecond : fromUtf8? (lineAt bs 1) with
    | none => exact .inr ⟨by simp, rfl⟩
    | some second =>
    simp only [Option.some.injEq, exists_eq_left']
    cases hversion : readNat? (Nat.pow 2 32 - 1) (trim second) with
    | none => exact .inl ⟨by simp, .inr ⟨_, rfl⟩⟩
    | some n =>
    by_cases hnewer : version < n
    · simp only [hnewer, if_true]
      exact .inl ⟨fun _ hn hle => absurd (Option.some.inj hn ▸ hnewer) (Nat.not_lt.2 hle), .inr ⟨_, rfl⟩⟩
    · simp only [hnewer, if_false, show lineAt (cutLine (cutLine bs).2).2 0 = lineAt bs 2 from rfl,
        Option.some.injEq, forall_eq', Nat.not_lt.1 hnewer, true_implies]
      cases hthird : fromUtf8? (lineAt bs 2) with
      | none => exact .inr ⟨by simp, rfl⟩
      | some third =>
        refine .inl ⟨rfl, ?_⟩
        by_cases hkey : content third = keyLine key
        · simp only [hkey, not_true_eq_false, if_false]
          split
          · exact .inl ⟨_, rfl⟩
          · exact .inr ⟨_, rfl⟩
        · simp only [hkey, not_false_eq_true, if_true]
          exact .inr ⟨_, rfl⟩
  · simp only [hmagic, ne_eq, not_false_eq_true, if_true, false_implies, throw, throwThe,
      MonadExceptOf.throw]
    exact .inl ⟨trivial, .inr ⟨_, rfl⟩⟩

theorem answered_iff (key : String) (bs : Bytes) : Answered key bs ↔ Legible bs := by
  rcases read_cases key bs with ⟨hlegible, hanswered⟩ | ⟨hillegible, hread⟩
  · exact iff_of_true hanswered hlegible
  · exact iff_of_false (not_answered_of_illegible hread) hillegible

/-! ### Files that are text -/

/-- The first line of a text is text, and so is the rest. -/
theorem cutLine_text (s : String) : ∃ line rest, cutLine (utf8 s) = (utf8 line, utf8 rest) := by
  have hsplit := List.takeWhile_append_dropWhile (p := (· != '\n')) (l := s.toList)
  have hline : '\n' ∉ s.toList.takeWhile (· != '\n') := fun hmem => by
    simpa using List.mem_takeWhile_imp hmem
  cases hrest : s.toList.dropWhile (· != '\n') with
  | nil =>
    rw [hrest, List.append_nil] at hsplit
    rw [hsplit] at hline
    have hbytes : ∀ b ∈ utf8 s, (b != 10) = true := fun b hb =>
      bne_iff_ne.2 fun hten => newline_not_mem_utf8 hline (hten ▸ hb)
    refine ⟨s, "", ?_⟩
    rw [cutLine, List.span_eq_takeWhile_dropWhile, List.takeWhile_eq_self_iff.2 hbytes,
      List.dropWhile_eq_nil_iff.2 hbytes]
    rfl
  | cons c cs =>
    obtain rfl : c = '\n' := by
      have := List.head?_dropWhile_not (· != '\n') s.toList
      simpa [hrest] using this
    have hs : s = String.ofList (s.toList.takeWhile (· != '\n')) ++ "\n" ++ String.ofList cs := by
      rw [hrest] at hsplit
      rw [← String.toList_inj, String.toList_append, String.toList_append, String.toList_ofList,
        String.toList_ofList]
      exact hsplit.symm.trans (by simp)
    refine ⟨String.ofList (s.toList.takeWhile (· != '\n')) ++ "\n", String.ofList cs, ?_⟩
    calc cutLine (utf8 s)
        = cutLine (utf8 (String.ofList (s.toList.takeWhile (· != '\n')) ++ "\n") ++
            utf8 (String.ofList cs)) := by rw [← utf8_append, ← hs]
      _ = _ := cutLine_utf8 (by rwa [String.toList_ofList]) _

theorem lineAt_text (s : String) (i : Nat) : ∃ line, lineAt (utf8 s) i = utf8 line := by
  induction i generalizing s with
  | zero =>
    obtain ⟨line, rest, hcut⟩ := cutLine_text s
    exact ⟨line, by rw [lineAt, hcut]⟩
  | succ i ih =>
    obtain ⟨line, rest, hcut⟩ := cutLine_text s
    rw [lineAt, hcut]
    exact ih rest

/-- A file that is text has a header that is. -/
theorem legible_text (s : String) : Legible (utf8 s) := by
  obtain ⟨first, hfirst⟩ := lineAt_text s 0
  obtain ⟨second, hsecond⟩ := lineAt_text s 1
  obtain ⟨third, hthird⟩ := lineAt_text s 2
  refine ⟨first, by rw [hfirst, fromUtf8?_utf8], fun _ =>
    ⟨second, by rw [hsecond, fromUtf8?_utf8], fun _ _ _ => ?_⟩⟩
  rw [hthird, fromUtf8?_utf8]
  rfl

end ModelFile

/-! ### Conversions -/

namespace Conversion

open ModelFile

variable {c : Conversion} {t : FileTree} {dir path : String} {bs : Bytes}

/-- The same conversion without model files. -/
def uncached (c : Conversion) : Conversion := { c with cacheDir? := none }

theorem result_uncached (c : Conversion) (t : FileTree) (path : String) :
    (t.run (c.uncached.file {} path)).1 = c.made path (t.read path) := by
  have hdir : (if ({} : Model).tables.entries.isEmpty then c.uncached.cacheDir? else none) = none := rfl
  have hlimits : c.uncached.limits = c.limits := rfl
  have hdocument : c.uncached.document {} = c.document {} := rfl
  simp only [file, run_bind, run_canonical?, hdir, cached?, run_pure, run_ofFile, made, hlimits, hdocument]
  cases parsed c.limits path (t.read path) with
  | error e => rfl
  | ok d =>
    simp only [run_result, Except.bind]
    cases c.document {} d with
    | error e => rfl
    | ok made => rfl

theorem read_of_illegible (h : ¬ Legible bs) (key : String) : ModelFile.read key bs = .error illegible :=
  (read_cases key bs).elim (fun hcase => absurd hcase.1 h) And.right

section

variable (hdir : c.cacheDir? = some dir) (hread : t.read (pathFor dir (t.keyOf path)) = .ok bs)
include hdir hread

theorem result_of_legible (h : Legible bs) : (t.run (c.file {} path)).1 =
    match ModelFile.read (t.keyOf path) bs with
    | .ok m => .ok (m, m.rowCount)
    | .error _ => (t.run (c.uncached.file {} path)).1 := by
  rw [result_file hdir, hread, offered?, result_uncached]
  rcases (answered_iff (t.keyOf path) bs).2 h with ⟨m, hm⟩ | ⟨cause, hcause⟩
  · rw [hm]
  · rw [hcause]

theorem result_of_illegible (h : ¬ Legible bs) : (t.run (c.file {} path)).1 = .error illegible := by
  rw [result_file hdir, hread, offered?, read_of_illegible h]
  rfl

end

/-- Bytes are read as a model file or refused as one exactly if their header is text. A conversion that
finds such a file has the model of the file, or what it has without model files where the file is refused;
any other header fails the conversion. -/
theorem model_file_answered (bs : Bytes) :
    (∀ key, ((∃ m, ModelFile.read key bs = .ok m) ∨
      ∃ cause, ModelFile.read key bs = .error (.modelFile cause)) ↔ Legible bs) ∧
    (¬ Legible bs → ∀ key, ModelFile.read key bs = .error illegible) ∧
    ∀ (c : Conversion) (t : FileTree) (dir path : String), c.cacheDir? = some dir →
      t.read (pathFor dir (t.keyOf path)) = .ok bs →
      (Legible bs → (t.run (c.file {} path)).1 =
        match ModelFile.read (t.keyOf path) bs with
        | .ok m => .ok (m, m.rowCount)
        | .error _ => (t.run (c.uncached.file {} path)).1) ∧
      (¬ Legible bs → (t.run (c.file {} path)).1 = .error illegible) :=
  ⟨fun key => answered_iff key bs, read_of_illegible, fun _ _ _ _ hdir hread =>
    ⟨result_of_legible hdir hread, result_of_illegible hdir hread⟩⟩

/-! ### A document with a model file -/

/-- The tree with a document and a model file for it, which holds these bytes. -/
def treeHolding (bs : Bytes) : FileTree := nestedTreeWithModels.put nestedPlace bs

/-- The model file is found under the key of the document, and the document stays. -/
theorem read_treeHolding (bs : Bytes) :
    (treeHolding bs).read (pathFor "/m" ((treeHolding bs).keyOf "/a.xml")) = .ok bs ∧
      (treeHolding bs).read "/a.xml" = nestedTree.read "/a.xml" := by
  obtain ⟨hfile, -, -, -, hend, htrace, hplace, hdocument, hheld⟩ := nested_steps
  have hwrite := write_of_trace hend htrace hplace bs
  obtain ⟨hkey, hbytes⟩ : nestedTreeWithModels.keyOf "/a.xml" = "/a.xml" ∧
      nestedTreeWithModels.read "/a.xml" = .ok (utf8 "<a><b><c>x</c></b></a>") := by
    decide +kernel
  refine ⟨?_, (read_put hdocument (by decide) bs).trans hheld⟩
  rw [treeHolding, (extends_write hwrite).keyOf hbytes, hkey, hfile]
  exact read_write hwrite

/-- A model file of an unknown kind is answered by a conversion of the document. -/
theorem foreign_file_answered :
    ((nesting 0).cacheDir? = some "/m" ∧
      (treeHolding (utf8 "NOTES\n")).read (pathFor "/m" ((treeHolding (utf8 "NOTES\n")).keyOf "/a.xml")) =
        .ok (utf8 "NOTES\n") ∧ Legible (utf8 "NOTES\n")) ∧
    ((treeHolding (utf8 "NOTES\n")).run ((nesting 0).file {} "/a.xml")).1 =
      ((treeHolding (utf8 "NOTES\n")).run ((nesting 0).uncached.file {} "/a.xml")).1 := by
  obtain ⟨hread, -⟩ := read_treeHolding (utf8 "NOTES\n")
  refine ⟨⟨rfl, hread, legible_text _⟩, ?_⟩
  rw [((model_file_answered _).2.2 (nesting 0) _ "/m" _ rfl hread).1 (legible_text _)]
  have hline : line (utf8 "NOTES\n") = .ok ("NOTES\n", []) := by
    simpa using line_utf8 (s := "NOTES") (by decide) []
  have hrefused : ∀ key, ModelFile.read key (utf8 "NOTES\n") = .error (.modelFile .badMagic) := fun key => by
    rw [ModelFile.read, hline]
    rfl
  rw [hrefused]

/-- A byte that starts no character, where the magic word should be. -/
def strayHeader : Bytes := [255, 10]

/-- The model file is not refused as one, and the conversion fails where it has a model without model
files. -/
theorem stray_header_not_refused :
    (treeHolding strayHeader).read (pathFor "/m" ((treeHolding strayHeader).keyOf "/a.xml")) =
      .ok strayHeader ∧
    (∀ key, ¬ ((∃ m, ModelFile.read key strayHeader = .ok m) ∨
      ∃ cause, ModelFile.read key strayHeader = .error (.modelFile cause))) ∧
    ((treeHolding strayHeader).run ((nesting 0).file {} "/a.xml")).1 = .error illegible ∧
    ((treeHolding strayHeader).run ((nesting 0).uncached.file {} "/a.xml")).1.toOption.isSome = true := by
  obtain ⟨hread, hheld⟩ := read_treeHolding strayHeader
  have hillegible : ¬ Legible strayHeader := by
    have hnone : fromUtf8? (lineAt strayHeader 0) = none := by
      decide +kernel
    rintro ⟨first, hfirst, -⟩
    rw [hnone] at hfirst
    cases hfirst
  refine ⟨hread, fun key => not_answered_of_illegible (read_of_illegible hillegible key),
    result_of_illegible rfl hread hillegible, ?_⟩
  obtain ⟨m, n, hmade, -⟩ := made_nested
  rw [result_uncached, hheld, hmade]
  rfl

end Conversion

end FeatureTables
