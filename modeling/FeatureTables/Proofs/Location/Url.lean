import FeatureTables.Proofs.Location.Path

/-!
Which texts are read as URLs. Only the scheme and the authority decide this (`isUrl_iff`): whatever follows
them is read. No absolute path is a URL, and a URL keeps its scheme, so that its key is not that of a path
(`key_url_ne`).
-/

namespace FeatureTables

open Text

namespace Url

variable {cs rest : List Char} {scheme s : String} {u : Url}

/-! ### Schemes -/

/-- The scheme of a text and what follows its colon. -/
def scheme? (s : String) : Option (String × List Char) := splitScheme? (clean s)

theorem isFile_iff : isFile scheme = true ↔ scheme = "file" := beq_iff_eq

theorem toLower_ne_colon {c : Char} (h : isSchemeChar c = true) : c.toLower ≠ ':' := by
  intro hcolon
  unfold Char.toLower at hcolon
  split at hcolon
  · rename_i hupper
    have hval := congrArg (·.val.toNat) hcolon
    simp [UInt32.le_iff_toNat_le] at hval hupper
    omega
  · subst hcolon
    revert h
    decide

theorem colon_not_mem_scheme (h : splitScheme? cs = some (scheme, rest)) : ':' ∉ scheme.toList := by
  unfold splitScheme? at h
  split at h
  · split at h
    · split at h
      · cases h
        intro hmem
        rw [String.toList_ofList] at hmem
        obtain ⟨c, hc, hcolon⟩ := List.mem_map.1 hmem
        exact toLower_ne_colon (List.all_eq_true.1 List.all_takeWhile c hc) hcolon
      · cases h
    · cases h
  · cases h

/-- A scheme with a port of its own is no drive, and not that of files. -/
theorem scheme_of_port (h : (defaultPort? scheme).isSome = true) :
    isFile scheme = false ∧ 1 < scheme.utf8ByteSize := by
  obtain ⟨n, hn⟩ := Option.isSome_iff_exists.1 h
  obtain ⟨before, after, hports, -⟩ := List.lookup_eq_some_iff.1 hn
  have hall : ∀ p ∈ [("http", 80), ("https", 443), ("ws", 80), ("wss", 443), ("ftp", 21)],
      isFile p.1 = false ∧ 1 < p.1.utf8ByteSize := by
    decide
  exact hall (scheme, n) (hports ▸ List.mem_append_right _ List.mem_cons_self)

/-! ### What is read behind a scheme -/

theorem withPath_scheme (u : Url) (done : List String) (cs : List Char) :
    (withPath u done cs).scheme = u.scheme := by
  simp only [withPath, withTail, withFilePath]
  split <;> rfl

theorem withPath_path (u : Url) (done : List String) (cs : List Char) :
    ∃ ss, (withPath u done cs).path = .segments ss := by
  simp only [withPath, withTail, withFilePath]
  split <;> exact ⟨_, rfl⟩

/-- What starts behind the host keeps the scheme, and its path is one of segments. -/
theorem withRootedPath_cases (u : Url) (cs : List Char) :
    (withRootedPath u cs).scheme = u.scheme ∧ ∃ ss, (withRootedPath u cs).path = .segments ss := by
  have hpath : ∀ cs, (withPath u [] cs).scheme = u.scheme ∧ ∃ ss, (withPath u [] cs).path = .segments ss :=
    fun cs => ⟨withPath_scheme u [] cs, withPath_path u [] cs⟩
  unfold withRootedPath
  repeat' split
  all_goals first | exact hpath _ | exact ⟨rfl, _, rfl⟩

theorem ofAuthority?_scheme (h : ofAuthority? scheme cs = some u) : u.scheme = scheme := by
  simp only [ofAuthority?, Option.bind_eq_bind] at h
  split at h
  · cases h
  · split at h
    all_goals
      obtain ⟨host, -, h⟩ := Option.bind_eq_some_iff.1 h
      obtain ⟨port?, -, h⟩ := Option.bind_eq_some_iff.1 h
      cases h
      exact (withRootedPath_cases _ _).1

theorem ofFile?_cases (h : ofFile? cs = some u) : u.scheme = "file" ∧ ∃ ss, u.path = .segments ss := by
  unfold ofFile? at h
  dsimp only at h
  split at h
  · split at h
    · split at h
      · cases h
        exact withRootedPath_cases _ _
      · split at h
        · cases h
          exact ⟨withPath_scheme _ _ _, withPath_path _ _ _⟩
        · obtain ⟨host, -, rfl⟩ := Option.map_eq_some_iff.1 h
          exact withRootedPath_cases _ _
    · cases h
      exact withRootedPath_cases _ _
  · cases h
    exact withRootedPath_cases _ _

theorem ofScheme?_scheme (h : ofScheme? scheme cs = some u) : u.scheme = scheme := by
  unfold ofScheme? at h
  split at h
  · rename_i hfile
    rw [(ofFile?_cases h).1, isFile_iff.1 hfile]
  · split at h
    · exact ofAuthority?_scheme h
    · split at h
      · exact ofAuthority?_scheme h
      · cases h
        exact withPath_scheme _ _ _
      · cases h
        rfl

theorem ofScheme?_file (cs : List Char) : ofScheme? "file" cs = ofFile? cs := by
  unfold ofScheme?
  exact if_pos (by decide)

theorem ofScheme?_of_port (h : (defaultPort? scheme).isSome = true) :
    ofScheme? scheme cs = ofAuthority? scheme (cs.dropWhile isSlash) := by
  have hfile := (scheme_of_port h).1
  unfold ofScheme?
  rw [if_neg (Bool.eq_false_iff.1 hfile), if_pos (by rw [isSpecial, h, Bool.true_or])]

/-- Behind a scheme without a port only an authority can be wrong, and only two slashes announce one. -/
theorem ofScheme?_isSome_iff (h : isSpecial scheme = false) : (ofScheme? scheme cs).isSome = true ↔
    ∀ r, cs = '/' :: '/' :: r → (ofAuthority? scheme r).isSome = true := by
  have hfile : isFile scheme = false := by
    rw [isSpecial, Bool.or_eq_false_iff] at h
    exact h.2
  unfold ofScheme?
  rw [if_neg (Bool.eq_false_iff.1 hfile), if_neg (Bool.eq_false_iff.1 h)]
  split
  · rename_i r
    exact ⟨fun hsome r' hr => by cases hr; exact hsome, fun hall => hall r rfl⟩
  · rename_i r hr
    exact iff_of_true rfl fun r' hr' => absurd (List.cons.inj hr').2 (hr r')
  · rename_i hno _
    exact iff_of_true rfl fun r' hr' => absurd hr' (hno r')

theorem filePath?_isSome_iff {ss : List String} (h : u.path = .segments ss) :
    u.filePath?.isSome = true ↔ u.host? = some "" := by
  unfold filePath?
  split
  · rename_i hhost _
    exact iff_of_true rfl hhost
  · rename_i hno
    exact iff_of_false Bool.false_ne_true fun hhost => hno ss hhost h

/-! ### Reading -/

theorem read?_eq_some_iff : read? s = some u ↔
    ∃ scheme rest, scheme? s = some (scheme, rest) ∧ ofScheme? scheme rest = some u := by
  rw [read?, Option.bind_eq_some_iff, Prod.exists]
  rfl

/-! ### Absolute paths -/

/-- A character that counts in a text stays its first one. -/
theorem exists_withoutEnds (cs : List Char) {c : Char} (h : 0x20 < c.toNat) :
    ∃ cs', withoutEnds (c :: cs) = c :: cs' := by
  have hfirst : ∀ cs, (c :: cs).dropWhile (fun d => decide (d.toNat ≤ 0x20)) = c :: cs := fun cs =>
    List.dropWhile_cons_of_neg (by simpa using h)
  simp only [withoutEnds, hfirst, List.reverse_cons, List.dropWhile_append]
  split
  · exact ⟨[], List.reverse_singleton⟩
  · exact ⟨_, List.reverse_append⟩

theorem scheme?_of_isAbsolute (h : Path.isAbsolute s = true) : scheme? s = none := by
  obtain ⟨rest, -, rfl⟩ := Path.eq_of_isAbsolute h
  obtain ⟨cs, hcs⟩ := exists_withoutEnds rest.toList (c := '/') (by decide)
  have hclean : clean ("/" ++ rest) = '/' :: withoutBreaks cs := by
    have hends : withoutEnds ("/" ++ rest).toList = '/' :: cs := by
      rw [String.toList_append]
      exact hcs
    have hbreaks : withoutBreaks ('/' :: cs) = '/' :: withoutBreaks cs := rfl
    simp only [clean, hends, hbreaks]
    rfl
  rw [scheme?, hclean]
  rfl

end Url

namespace Location

open Url

variable {s : String}

/-! ### Forms of URLs -/

/-- The text is read as a URL or as the path that a file URL stands for. -/
def IsUrl (s : String) : Prop := ((Url.read? s).bind ofUrl?).isSome = true

instance (s : String) : Decidable (IsUrl s) :=
  inferInstanceAs (Decidable (((Url.read? s).bind ofUrl?).isSome = true))

/-- The form of the texts that are URLs: a scheme, and behind it an authority where the scheme has one. -/
inductive UrlForm (s : String) : Prop
  /-- A scheme that has a port: slashes, as many as there are, and an authority. -/
  | web {scheme : String} {rest : List Char} (split : scheme? s = some (scheme, rest))
      (port : (defaultPort? scheme).isSome = true)
      (authority : (ofAuthority? scheme (rest.dropWhile isSlash)).isSome = true)
  /-- Any other scheme that is no drive: an authority or else whatever does not start with two slashes. -/
  | own {scheme : String} {rest : List Char} (split : scheme? s = some (scheme, rest))
      (special : isSpecial scheme = false) (long : 1 < scheme.utf8ByteSize)
      (authority : ∀ r, rest = '/' :: '/' :: r → (ofAuthority? scheme r).isSome = true)
  /-- A file that is on no other host. -/
  | file {rest : List Char} {u : Url} (split : scheme? s = some ("file", rest))
      (read : ofFile? rest = some u) (host : u.host? = some "")

theorem ofUrl?_isSome_iff {u : Url} : (ofUrl? u).isSome = true ↔
    if Url.isFile u.scheme then u.filePath?.isSome = true else 1 < u.scheme.utf8ByteSize := by
  unfold ofUrl?
  split
  · rw [Option.isSome_map]
  · simp [hasScheme]

theorem ofUrl?_isSome_of_scheme {scheme : String} {rest : List Char} {u : Url}
    (h : ofScheme? scheme rest = some u) (hfile : Url.isFile scheme = false)
    (hlong : 1 < scheme.utf8ByteSize) : (ofUrl? u).isSome = true := by
  rw [ofUrl?_isSome_iff, ofScheme?_scheme h, if_neg (Bool.eq_false_iff.1 hfile)]
  exact hlong

theorem isUrl_of_scheme {scheme : String} {rest : List Char} {u : Url}
    (h : scheme? s = some (scheme, rest)) (hread : ofScheme? scheme rest = some u)
    (hsome : (ofUrl? u).isSome = true) : IsUrl s := by
  rw [IsUrl, read?_eq_some_iff.2 ⟨scheme, rest, h, hread⟩]
  exact hsome

/-- How a URL is read. -/
theorem IsUrl.cases (h : IsUrl s) : ∃ u rest l, scheme? s = some (u.scheme, rest) ∧
    ofScheme? u.scheme rest = some u ∧ ofUrl? u = some l ∧ ∀ exists?, read exists? s = l := by
  obtain ⟨l, hl⟩ := Option.isSome_iff_exists.1 h
  obtain ⟨u, hu, hl'⟩ := Option.bind_eq_some_iff.1 hl
  obtain ⟨scheme, rest, hsplit, hread⟩ := read?_eq_some_iff.1 hu
  obtain rfl := ofScheme?_scheme hread
  exact ⟨u, rest, l, hsplit, hread, hl', fun exists? => by rw [read, hl]⟩

theorem IsUrl.form (h : IsUrl s) : UrlForm s := by
  obtain ⟨u, rest, l, hsplit, hread, hl, -⟩ := h.cases
  have hsome := ofUrl?_isSome_iff.1 (Option.isSome_of_eq_some hl)
  cases hfile : Url.isFile u.scheme with
  | true =>
    rw [if_pos hfile] at hsome
    rw [isFile_iff.1 hfile] at hsplit hread
    rw [ofScheme?_file] at hread
    obtain ⟨ss, hpath⟩ := (ofFile?_cases hread).2
    exact .file hsplit hread ((filePath?_isSome_iff hpath).1 hsome)
  | false =>
    rw [if_neg (Bool.eq_false_iff.1 hfile)] at hsome
    cases hport : (defaultPort? u.scheme).isSome with
    | true =>
      rw [ofScheme?_of_port hport] at hread
      exact .web hsplit hport (Option.isSome_of_eq_some hread)
    | false =>
      have hspecial : isSpecial u.scheme = false := by rw [isSpecial, hport, hfile, Bool.or_false]
      exact .own hsplit hspecial hsome ((ofScheme?_isSome_iff hspecial).1 (Option.isSome_of_eq_some hread))

theorem UrlForm.isUrl (h : UrlForm s) : IsUrl s := by
  cases h with
  | web hsplit hport hauthority =>
    obtain ⟨hfile, hlong⟩ := scheme_of_port hport
    obtain ⟨u, hu⟩ := Option.isSome_iff_exists.1 hauthority
    rw [← ofScheme?_of_port hport] at hu
    exact isUrl_of_scheme hsplit hu (ofUrl?_isSome_of_scheme hu hfile hlong)
  | own hsplit hspecial hlong hauthority =>
    obtain ⟨u, hu⟩ := Option.isSome_iff_exists.1 ((ofScheme?_isSome_iff hspecial).2 hauthority)
    exact isUrl_of_scheme hsplit hu
      (ofUrl?_isSome_of_scheme hu (Bool.or_eq_false_iff.1 hspecial).2 hlong)
  | file hsplit hread hhost =>
    obtain ⟨hscheme, ss, hpath⟩ := ofFile?_cases hread
    refine isUrl_of_scheme hsplit ((ofScheme?_file _).trans hread) (ofUrl?_isSome_iff.2 ?_)
    rw [hscheme, if_pos (by decide)]
    exact (filePath?_isSome_iff hpath).2 hhost

/-- The form of a text says whether it is a URL. -/
theorem isUrl_iff : IsUrl s ↔ UrlForm s := ⟨IsUrl.form, UrlForm.isUrl⟩

theorem not_isUrl_of_isAbsolute (h : Path.isAbsolute s = true) : ¬ IsUrl s := by
  rw [IsUrl, Url.read?, ← scheme?, scheme?_of_isAbsolute h]
  exact Bool.false_ne_true

/-! ### What a text is read as -/

section

variable {exists? : String → Bool}

theorem read_of_not_isUrl (h : ¬ IsUrl s) : read exists? s =
    if exists? s ∨ Path.isAbsolute s ∨ startsWith s "." then path (Path.normalize s) else name s := by
  rw [read, Option.not_isSome_iff_eq_none.1 h]

theorem read_of_isAbsolute (h : Path.isAbsolute s = true) : read exists? s = path (Path.normalize s) := by
  rw [read_of_not_isUrl (not_isUrl_of_isAbsolute h), if_pos (Or.inr (Or.inl h))]

/-- A relative path is read as no absolute one. -/
theorem key_read_ne {p : String} (hurl : ¬ IsUrl s) (habs : Path.isAbsolute s = false)
    (hp : Path.isAbsolute p = true) : (read exists? s).key ≠ (path (Path.normalize p)).key := by
  rw [read_of_not_isUrl hurl]
  split
  · rw [Ne, key_normalize_eq_iff, Path.normalize_eq_iff, habs, hp]
    exact fun h => Bool.false_ne_true h.1
  · intro h
    have hfirst := congrArg (·.toList.head?) h
    simp [key] at hfirst

/-- A URL that is no file URL is read as a URL of its scheme. -/
theorem read_of_isUrl (h : IsUrl s) (hfile : ∀ rest, scheme? s ≠ some ("file", rest)) :
    ∃ u, read exists? s = url u ∧ u.scheme ≠ "file" ∧ ':' ∉ u.scheme.toList := by
  obtain ⟨u, rest, l, hsplit, -, hl, hread⟩ := h.cases
  have hscheme : u.scheme ≠ "file" := fun heq => hfile rest (heq ▸ hsplit)
  refine ⟨u, ?_, hscheme, colon_not_mem_scheme hsplit⟩
  rw [ofUrl?, if_neg (mt isFile_iff.1 hscheme)] at hl
  split at hl
  · rw [hread, ← Option.some.inj hl]
  · cases hl

end

/-- The key of a URL is that of no file. -/
theorem key_url_ne {u : Url} (hfile : u.scheme ≠ "file") (hcolon : ':' ∉ u.scheme.toList) (p : String) :
    (url u).key ≠ (path p).key := by
  intro h
  have hurl : ∃ rest, (url u).key.toList = u.scheme.toList ++ ':' :: rest := by
    simp only [key, Url.toText, Url.withoutFragment, String.toList_append, List.append_assoc]
    exact ⟨_, rfl⟩
  have hpath : ∃ rest, (path p).key.toList = "file".toList ++ ':' :: rest := by
    simp only [key, String.toList_append]
    exact ⟨_, rfl⟩
  obtain ⟨rest, hurl⟩ := hurl
  obtain ⟨rest', hpath⟩ := hpath
  have hnot : ∀ {cs ds : List Char}, ':' ∉ ds → ¬ cs ++ [':'] <+: ds := fun hds hstart =>
    hds (hstart.subset (List.mem_append_right _ (List.mem_singleton.2 rfl)))
  refine hfile (String.toList_inj.1 (eq_of_append_eq (Or.inr ⟨rest, rfl⟩) (Or.inr ⟨rest', rfl⟩)
    (hnot (by decide)) (hnot hcolon) ?_))
  rw [← hurl, ← hpath, h]

end Location
end FeatureTables
