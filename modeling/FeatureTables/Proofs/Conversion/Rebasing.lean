import FeatureTables.Conversion
import FeatureTables.Proofs.Files
import FeatureTables.Proofs.Location.Url
import FeatureTables.Proofs.Text.Utf8
import Mathlib.Data.List.Forall2

/-!
Schema locations in configuration files. A URL is to stay, and a relative path is to start in the directory of
the file (`Rebased`), so that each one stands for the location that it means there (`meant`). The configuration
looks for `://` and does not read the location, so that it goes wrong in two ways: with URLs that do without
these marks, and with paths that have them (`rebased_iff`).
-/

namespace FeatureTables

open FeatureTables.Path Location Text

/-- The location that a text stands for among the files of a tree, where it is given by itself. -/
def FileTree.located (t : FileTree) (s : String) : Location :=
  ((Conversion.readLocation s : StateM FileTree Location).run t).1

theorem FileTree.located_eq (t : FileTree) (s : String) :
    t.located s = Location.read (fun _ => (t.canonical? s).isSome) s :=
  rfl

namespace Conversion

/-! ### What is to become of a location -/

/-- What is to become of a schema location in a file in `base`: a URL stays, and any other text is joined to
`base` exactly if it is a relative path. -/
structure Rebased (base s s' : String) : Prop where
  url : IsUrl s → s' = s
  absolute : isAbsolute s = true → s' = s
  relative : ¬ IsUrl s → isAbsolute s = false → s' = join base s

/-- The location that a text means in a file in `base`: a URL or an absolute path what it means by itself, and
a relative path what it leads to from `base`. -/
def meant (t : FileTree) (base s : String) : Location :=
  if IsUrl s ∨ isAbsolute s = true then t.located s else .path (normalize (join base s))

/-- The locations are those of one resource, and each catalog makes the same of both. -/
structure SameResource (l l' : Location) : Prop where
  key : l.key = l'.key
  redirected : ∀ r : Redirection, r.resolve? l.toText = r.resolve? l'.toText

variable {t : FileTree} {base s s' path text : String} {written : Config}

/-! ### What becomes of it -/

theorem rebaseSchema_of_isAbsolute (h : isAbsolute s = true) : Config.rebaseSchema base s = s := by
  rw [Config.rebaseSchema, Config.rebasePath, if_pos h, ite_self]

theorem rebaseSchema_eq (h : isAbsolute s = false) : Config.rebaseSchema base s =
    if containsText s "://" then s else join base s := by
  simp only [Config.rebaseSchema, Config.rebasePath, h, Bool.false_eq_true, if_false]

theorem rebaseSchema_cases (base s : String) :
    Config.rebaseSchema base s = s ∨ Config.rebaseSchema base s = join base s := by
  cases habs : isAbsolute s with
  | true => exact Or.inl (rebaseSchema_of_isAbsolute habs)
  | false =>
    rw [rebaseSchema_eq habs]
    split
    · exact Or.inl rfl
    · exact Or.inr rfl

/-- A relative text is rebased as it should be exactly if it is a URL with the marks or a path without them. -/
theorem rebased_iff : Rebased base s (Config.rebaseSchema base s) ↔
    base = "" ∨ isAbsolute s = true ∨ ("://".toList <:+: s.toList ↔ UrlForm s) := by
  rw [← isUrl_iff, ← containsText_iff]
  cases habs : isAbsolute s with
  | true =>
    have hstays : Config.rebaseSchema base s = s := rebaseSchema_of_isAbsolute habs
    refine iff_of_true ⟨fun _ => hstays, fun _ => hstays, fun _ hrelative => ?_⟩ (Or.inr (Or.inl rfl))
    exact absurd habs (Bool.eq_false_iff.1 hrelative)
  | false =>
    have hrelative : isAbsolute s ≠ true := Bool.eq_false_iff.1 habs
    rw [rebaseSchema_eq habs]
    by_cases hbase : base = ""
    · have hjoin : join base s = s := (join_eq_self_iff habs).2 hbase
      rw [hjoin, ite_self]
      exact iff_of_true ⟨fun _ => rfl, fun _ => rfl, fun _ _ => hjoin.symm⟩ (Or.inl hbase)
    · have hjoin : join base s ≠ s := mt (join_eq_self_iff habs).1 hbase
      simp only [hbase, Bool.false_eq_true, false_or]
      cases hmark : containsText s "://" with
      | true =>
        -- the text stays, which is right for URLs alone
        simp only [if_true, true_iff]
        refine ⟨fun h => by_contra fun hurl => hjoin (h.relative hurl habs).symm, fun hurl => ?_⟩
        exact ⟨fun _ => rfl, fun _ => rfl, fun hno => absurd hurl hno⟩
      | false =>
        -- it is joined, which is right for all others
        simp only [Bool.false_eq_true, if_false, false_iff]
        refine ⟨fun h hurl => hjoin (h.url hurl), fun hurl => ?_⟩
        exact ⟨fun hyes => absurd hyes hurl, fun hyes => absurd hyes hrelative, fun _ _ => rfl⟩

/-! ### What it stands for -/

/-- What is rebased as it should be stands for what it means: a path that stays relative does if it leads to what
is there, and does not look like a URL. -/
theorem Rebased.located_eq_meant (h : Rebased base s s') (hfound : isAbsolute base = true ∨ IsUrl s ∨
    isAbsolute s = true ∨ ¬ IsUrl s' ∧ (t.canonical? s').isSome = true) : t.located s' = meant t base s := by
  unfold meant
  split
  · rename_i hself
    rw [hself.elim h.url h.absolute]
  · rename_i hrelative
    obtain ⟨hurl, habs⟩ := not_or.1 hrelative
    obtain rfl : s' = join base s := h.relative hurl (Bool.eq_false_iff.2 habs)
    rw [FileTree.located_eq]
    rcases hfound with hbase | hurl' | habs' | ⟨hurl', hthere⟩
    · exact read_of_isAbsolute (isAbsolute_join hbase s)
    · exact absurd hurl' hurl
    · exact absurd habs' habs
    · rw [read_of_not_isUrl hurl', if_pos (Or.inl hthere)]

/-- In an absolute directory only what is rebased as it should be stands for the resource that it means. File
URLs are left out, since one may lead up out of the directory and down again to its own file. -/
theorem rebased_of_key (hbase : isAbsolute base = true) (hfile : ∀ rest, Url.scheme? s ≠ some ("file", rest))
    (h : (t.located (Config.rebaseSchema base s)).key = (meant t base s).key) :
    Rebased base s (Config.rebaseSchema base s) := by
  rw [rebased_iff]
  cases habs : isAbsolute s with
  | true => exact Or.inr (Or.inl rfl)
  | false =>
    rw [rebaseSchema_eq habs] at h
    refine Or.inr (Or.inr ⟨fun hmark => by_contra fun hform => ?_, fun hform => by_contra fun hmark => ?_⟩)
    · -- a path with the marks stays relative
      have hurl : ¬ IsUrl s := mt isUrl_iff.1 hform
      rw [if_pos (containsText_iff.2 hmark), meant, if_neg (by simp [hurl, habs]), FileTree.located_eq] at h
      exact key_read_ne hurl habs (isAbsolute_join hbase s) h
    · -- a URL without them becomes a path
      have hread : ∃ u, t.located s = .url u ∧ u.scheme ≠ "file" ∧ ':' ∉ u.scheme.toList := by
        rw [FileTree.located_eq]
        exact read_of_isUrl hform.isUrl hfile
      obtain ⟨u, hu, hscheme, hcolon⟩ := hread
      rw [if_neg (mt containsText_iff.1 hmark), meant, if_pos (Or.inl hform.isUrl), FileTree.located_eq,
        read_of_isAbsolute (isAbsolute_join hbase s), hu] at h
      exact key_url_ne hscheme hcolon _ h.symm

/-! ### Configuration files -/

theorem run_readText (hfile : t.read path = .ok (utf8 text)) :
    (FileAccess.readText path : StateM FileTree (Except FileFault String)).run t = (.ok text, t) := by
  have hread : (FileAccess.read path : StateM FileTree (Except FileFault Bytes)).run t =
      pure (.ok (utf8 text), t) :=
    congrArg (·, t) hfile
  rw [FileAccess.readText, StateT.run_bind, hread, pure_bind]
  simp only [fromUtf8?_utf8]
  rfl

theorem run_configOf (hfile : t.read path = .ok (utf8 text)) (hwritten : Config.read text = .ok written)
    (hbase : parent? path = some base) : t.run (configOf path) = (.ok (written.rebase base), t) := by
  rw [configOf, FileTree.run_bind, FileTree.run_state, run_readText hfile]
  dsimp only
  rw [hwritten, hbase]
  rfl

/-- The configuration of a file is read, and each of its schema locations stays or is joined to the directory of
the file. This is as it should be exactly if the directory is the empty path, the location is an absolute path,
or `://` stands in it exactly if it is a URL. Then the location stands for the resource that it means, and catalogs
redirect it as they should; only a relative path in a relative directory has to lead to what is there, and must
not look like a URL there. In an absolute directory a location that is not rebased as it should be, and is no file
URL, stands for another resource. -/
theorem schemas_rebased_iff (hfile : t.read path = .ok (utf8 text)) (hwritten : Config.read text = .ok written)
    (hbase : parent? path = some base) : ∃ config, t.run (configOf path) = (.ok config, t) ∧
      List.Forall₂ (fun s s' =>
        (s' = s ∨ s' = join base s) ∧
        (Rebased base s s' ↔
          base = "" ∨ isAbsolute s = true ∨ ("://".toList <:+: s.toList ↔ UrlForm s)) ∧
        (Rebased base s s' → isAbsolute base = true ∨ IsUrl s ∨ isAbsolute s = true ∨
            ¬ IsUrl s' ∧ (t.canonical? s').isSome = true →
          SameResource (t.located s') (meant t base s)) ∧
        (isAbsolute base = true → (∀ rest, Url.scheme? s ≠ some ("file", rest)) →
          (t.located s').key = (meant t base s).key → Rebased base s s'))
        written.schemas config.schemas := by
  refine ⟨written.rebase base, run_configOf hfile hwritten hbase, ?_⟩
  rw [Config.rebase, List.forall₂_map_right_iff, List.forall₂_same]
  intro s _
  refine ⟨rebaseSchema_cases base s, rebased_iff, fun h hfound => ?_, rebased_of_key⟩
  rw [h.located_eq_meant hfound]
  exact ⟨rfl, fun _ => rfl⟩

def plainSettings : String :=
  "\x7b\"schemas\": [\"http://example.com/gml.xsd\", \"file:///usr/gml.xsd\", \"../xsd/app.xsd\"]\x7d"

def plainTree : FileTree where
  files := [(["run.json", "conf", "data"], utf8 plainSettings)]
  directories := [["data"], ["conf", "data"]]

/-- URLs with the marks and a path without them. -/
theorem plainSettings_rebased : ∃ written config,
    plainTree.read "/data/conf/run.json" = .ok (utf8 plainSettings) ∧
    Config.read plainSettings = .ok written ∧ parent? "/data/conf/run.json" = some "/data/conf" ∧
    written.schemas = ["http://example.com/gml.xsd", "file:///usr/gml.xsd", "../xsd/app.xsd"] ∧
    plainTree.run (configOf "/data/conf/run.json") = (.ok config, plainTree) ∧
    List.Forall₂ (fun s s' => Rebased "/data/conf" s s' ∧
      SameResource (plainTree.located s') (meant plainTree "/data/conf" s)) written.schemas config.schemas := by
  have hfile : plainTree.read "/data/conf/run.json" = .ok (utf8 plainSettings) ∧
      (Json.read? plainSettings).bind Config.ofJson? = some
        { schemas := ["http://example.com/gml.xsd", "file:///usr/gml.xsd", "../xsd/app.xsd"] } ∧
      parent? "/data/conf/run.json" = some "/data/conf" := by
    decide +kernel
  obtain ⟨hread, hjson, hbase⟩ := hfile
  have hwritten : Config.read plainSettings = .ok
      { schemas := ["http://example.com/gml.xsd", "file:///usr/gml.xsd", "../xsd/app.xsd"] } := by
    rw [Config.read, hjson]
  have hmarks : ∀ s ∈ ["http://example.com/gml.xsd", "file:///usr/gml.xsd", "../xsd/app.xsd"],
      (containsText s "://" = true ↔ IsUrl s) := by
    decide +kernel
  obtain ⟨config, hrun, hall⟩ := schemas_rebased_iff hread hwritten hbase
  refine ⟨_, config, hread, hwritten, hbase, rfl, hrun, ?_⟩
  refine ((List.forall₂_and_left _ _).2 ⟨hmarks, hall⟩).imp ?_
  rintro s s' ⟨hmark, -, hiff, hsame, -⟩
  rw [containsText_iff, isUrl_iff] at hmark
  have hrebased : Rebased "/data/conf" s s' := hiff.2 (Or.inr (Or.inr hmark))
  exact ⟨hrebased, hsame hrebased (Or.inl (by decide))⟩

def slippedSettings : String := "\x7b\"schemas\": [\"urn:app\", \"v://app.xsd\"]\x7d"

def slippedTree : FileTree where
  files := [(["run.json", "conf"], utf8 slippedSettings)]
  directories := [["conf"]]

/-- A URL without the marks becomes a path, which catalogs do not know, and a path with them does not start in the
directory. -/
theorem slippedSettings_not_rebased : ∃ config,
    slippedTree.run (configOf "conf/run.json") = (.ok config, slippedTree) ∧
    config.schemas = ["conf/urn:app", "v://app.xsd"] ∧
    IsUrl "urn:app" ∧ ¬ Rebased "conf" "urn:app" "conf/urn:app" ∧
    ¬ SameResource (slippedTree.located "conf/urn:app") (slippedTree.located "urn:app") ∧
    ¬ IsUrl "v://app.xsd" ∧ isAbsolute "v://app.xsd" = false ∧
    ¬ Rebased "conf" "v://app.xsd" "v://app.xsd" := by
  have hfile : slippedTree.read "conf/run.json" = .ok (utf8 slippedSettings) ∧
      (Json.read? slippedSettings).bind Config.ofJson? = some { schemas := ["urn:app", "v://app.xsd"] } ∧
      parent? "conf/run.json" = some "conf" := by
    decide +kernel
  obtain ⟨hread, hjson, hbase⟩ := hfile
  have hwritten : Config.read slippedSettings = .ok { schemas := ["urn:app", "v://app.xsd"] } := by
    rw [Config.read, hjson]
  have heval : ["urn:app", "v://app.xsd"].map (Config.rebaseSchema "conf") = ["conf/urn:app", "v://app.xsd"] ∧
      IsUrl "urn:app" ∧
      (slippedTree.located "conf/urn:app").key ≠ (slippedTree.located "urn:app").key ∧
      ¬ IsUrl "v://app.xsd" ∧ isAbsolute "v://app.xsd" = false := by
    decide +kernel
  obtain ⟨hschemas, hurn, hkey, hpath, hrelative⟩ := heval
  refine ⟨_, run_configOf hread hwritten hbase, hschemas, hurn, fun h => ?_, fun h => hkey h.key, hpath,
    hrelative, fun h => ?_⟩
  · exact absurd (h.url hurn) (by decide)
  · exact absurd (h.relative hpath hrelative) (by decide)

end Conversion

end FeatureTables
