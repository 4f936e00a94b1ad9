import FeatureTables.Files
import FeatureTables.Location.Redirection
import FeatureTables.Proofs.OrderedMap
import FeatureTables.Proofs.Text.Pieces

/-!
What a catalog makes of a location. Its entries decide this by themselves (`Redirects`): one for the
location, else the one with the longest start, else none. A catalog that was read knows what its entries
say (`Knows`), whatever their order and the groups in which they stand. So catalogs with the same
entries redirect alike (`ofText_alike`).
-/

namespace FeatureTables

open Text Xml

theorem Location.resolve_error {base : Location} {reference : String} {e : Error}
    (h : base.resolve reference = .error e) : e = .url := by
  unfold resolve at h
  split at h
  · cases h
  · cases base with
    | path p => cases h
    | name s =>
      simp only at h
      split at h <;> cases h
    | url u =>
      simp only at h
      split at h
      · cases h
      · exact (Except.error.inj h).symm

namespace Redirection

/-! ### Entries in groups -/

theorem entriesAmong_append (es fs : List Element) :
    entriesAmong (es ++ fs) = entriesAmong es ++ entriesAmong fs := by
  induction es with
  | nil => rfl
  | cons e es ih => rw [List.cons_append, entriesAmong, entriesAmong, ih, List.append_assoc]

/-- A group stands for what is in it. -/
theorem entriesAmong_group {e : Element} (hgroup : e.localName = "group") (es : List Element) :
    entriesAmong (e :: es) = entriesAmong (e.children ++ es) := by
  rw [entriesAmong_append, entriesAmong]
  refine congrArg (· ++ entriesAmong es) ?_
  cases e
  rw [entries]
  exact if_pos hgroup

/-! ### What entries say -/

def Entry.reference : Entry → String
  | exact _ reference => reference
  | start _ reference => reference
  | next reference => reference

/-- What entries of a catalog at `base` make of a location. -/
inductive Redirects (base : Location) (es : List Entry) (location : String) : Option Location → Prop
  | exact {reference : String} {target : Location} (mem : .exact location reference ∈ es)
      (resolves : base.resolve reference = .ok target) : Redirects base es location (some target)
  | start {start rest reference : String} {dir : Location}
      (noExact : ∀ reference, .exact location reference ∉ es) (mem : .start start reference ∈ es)
      (split : location = start ++ rest)
      (longest : ∀ start' reference', .start start' reference' ∈ es →
        startsWith location start' = true → start'.length ≤ start.length)
      (resolves : base.resolve reference = .ok dir) :
      Redirects base es location (below? dir (String.ofList (rest.toList.dropWhile (· == '/'))))
  | none (noExact : ∀ reference, .exact location reference ∉ es)
      (noStart : ∀ start reference, .start start reference ∈ es → startsWith location start = false) :
      Redirects base es location .none

/-- No location and no start has two entries that differ, and no entry names another catalog. -/
structure Consistent (es : List Entry) : Prop where
  noNext : ∀ reference, .next reference ∉ es
  exact : ∀ {location reference reference'}, .exact location reference ∈ es →
    .exact location reference' ∈ es → reference = reference'
  start : ∀ {start reference reference'}, .start start reference ∈ es →
    .start start reference' ∈ es → reference = reference'

section Entries

variable {base : Location} {es fs : List Entry} {location : String}

theorem Consistent.of_subset (h : Consistent es) (hsub : fs ⊆ es) : Consistent fs :=
  ⟨fun reference hmem => h.noNext reference (hsub hmem),
    fun hmem hmem' => h.exact (hsub hmem) (hsub hmem'),
    fun hmem hmem' => h.start (hsub hmem) (hsub hmem')⟩

/-- Only which entries there are counts. -/
theorem Redirects.congr {result : Option Location} (h : Redirects base es location result)
    (hes : ∀ e, e ∈ es ↔ e ∈ fs) : Redirects base fs location result := by
  cases h with
  | exact mem resolves => exact .exact ((hes _).1 mem) resolves
  | start noExact mem split longest resolves =>
    exact .start (fun r hr => noExact r ((hes _).2 hr)) ((hes _).1 mem) split
      (fun s r hr => longest s r ((hes _).2 hr)) resolves
  | none noExact noStart =>
    exact .none (fun r hr => noExact r ((hes _).2 hr)) fun s r hr => noStart s r ((hes _).2 hr)

theorem startsWith_append (start rest : String) : startsWith (start ++ rest) start = true := by
  rw [startsWith_iff, String.toList_append]
  exact List.prefix_append _ _

/-- Consistent entries make one thing of a location. -/
theorem Redirects.unique {result result' : Option Location} (hes : Consistent es)
    (h : Redirects base es location result) (h' : Redirects base es location result') :
    result = result' := by
  cases h with
  | exact mem resolves =>
    cases h' with
    | exact mem' resolves' =>
      rw [hes.exact mem mem', resolves'] at resolves
      rw [Except.ok.inj resolves]
    | start noExact' => exact absurd mem (noExact' _)
    | none noExact' => exact absurd mem (noExact' _)
  | @start start rest _ _ noExact mem split longest resolves =>
    cases h' with
    | exact mem' => exact absurd mem' (noExact _)
    | @start start' rest' _ _ _ mem' split' longest' resolves' =>
      have hsplit : start.toList ++ rest.toList = start'.toList ++ rest'.toList := by
        rw [← String.toList_append, ← String.toList_append, ← split, ← split']
      have hlength : start.toList.length = start'.toList.length :=
        Nat.le_antisymm (longest' _ _ mem (split ▸ startsWith_append start rest))
          (longest _ _ mem' (split' ▸ startsWith_append start' rest'))
      obtain ⟨hstart, hrest⟩ := List.append_inj hsplit hlength
      obtain rfl := String.toList_inj.1 hstart
      obtain rfl := String.toList_inj.1 hrest
      rw [hes.start mem mem', resolves'] at resolves
      rw [Except.ok.inj resolves]
    | none _ noStart' =>
      have := noStart' _ _ mem
      rw [split, startsWith_append] at this
      cases this
  | none noExact noStart =>
    cases h' with
    | exact mem' => exact absurd mem' (noExact _)
    | start _ mem' split' =>
      have := noStart _ _ mem'
      rw [split', startsWith_append] at this
      cases this
    | none => rfl

end Entries

/-! ### The longest start -/

/-- A search that went through the starts in front knows the longest one of these. -/
def Longest (starts : List (String × Location)) : Option (String × Location) → Prop
  | some best => best ∈ starts ∧ ∀ p ∈ starts, p.1.length ≤ best.1.length
  | none => starts = []

theorem longest_foldl (pre starts : List (String × Location)) {best? : Option (String × Location)}
    (h : Longest pre best?) : Longest (pre ++ starts) (starts.foldl (fun best? p =>
      match best? with
      | some best => if best.1.length ≤ p.1.length then some p else some best
      | none => some p) best?) := by
  induction starts generalizing pre best? with
  | nil => simpa using h
  | cons p starts ih =>
    rw [List.foldl_cons, List.append_cons]
    refine ih (pre ++ [p]) ?_
    cases best? with
    | none => simp [Longest, show pre = [] from h]
    | some best =>
      obtain ⟨hmem, hmax⟩ := h
      simp only
      split
      · rename_i hle
        refine ⟨by simp, fun q hq => ?_⟩
        rcases List.mem_append.1 hq with hq | hq
        · exact Nat.le_trans (hmax q hq) hle
        · obtain rfl := List.mem_singleton.1 hq
          exact Nat.le_refl _
      · rename_i hlt
        refine ⟨List.mem_append_left _ hmem, fun q hq => ?_⟩
        rcases List.mem_append.1 hq with hq | hq
        · exact hmax q hq
        · rw [List.mem_singleton.1 hq]
          omega

theorem longest_longest? (s : String) (starts : List (String × Location)) :
    Longest (starts.filter fun p => startsWith s p.1) (longest? s starts) :=
  longest_foldl [] _ (show Longest [] none from rfl)

/-! ### What a catalog knows -/

/-- The catalog has taken the entries in: they all resolve, and it knows nothing else. -/
structure Knows (base : Location) (es : List Entry) (r : Redirection) : Prop where
  resolve : ∀ e ∈ es, ∃ target, base.resolve e.reference = .ok target
  exact : ∀ location target, r.exact.get? location = some target ↔
    ∃ reference, .exact location reference ∈ es ∧ base.resolve reference = .ok target
  start : ∀ start dir, (start, dir) ∈ r.starts ↔
    ∃ reference, .start start reference ∈ es ∧ base.resolve reference = .ok dir

section Knows

variable {base : Location} {es : List Entry} {r : Redirection}

theorem knows_nil (base : Location) : Knows base [] {} :=
  ⟨by simp, by simp, by simp⟩

theorem Knows.noExact (h : Knows base es r) {location : String} (hnone : r.exact.get? location = none)
    (reference : String) : .exact location reference ∉ es := by
  intro hmem
  obtain ⟨target, htarget⟩ := h.resolve _ hmem
  rw [(h.exact location target).2 ⟨reference, hmem, htarget⟩] at hnone
  cases hnone

/-- A catalog makes of a location what its entries make of it. -/
theorem Knows.redirects (h : Knows base es r) (location : String) :
    Redirects base es location (r.resolve? location) := by
  unfold resolve?
  cases hexact : r.exact.get? location with
  | some target =>
    obtain ⟨reference, hmem, htarget⟩ := (h.exact location target).1 hexact
    exact .exact hmem htarget
  | none =>
    have hnoExact := h.noExact hexact
    have hlongest := longest_longest? location r.starts
    have hknown : ∀ start reference, .start start reference ∈ es → startsWith location start = true →
        ∃ dir, (start, dir) ∈ r.starts.filter fun p => startsWith location p.1 := by
      intro start reference hmem hstart
      obtain ⟨dir, hdir⟩ := h.resolve _ hmem
      exact ⟨dir, List.mem_filter.2 ⟨(h.start start dir).2 ⟨reference, hmem, hdir⟩, hstart⟩⟩
    cases hbest : longest? location r.starts with
    | none =>
      rw [hbest] at hlongest
      refine .none hnoExact fun start reference hmem => Bool.eq_false_iff.2 fun hstart => ?_
      obtain ⟨dir, hdir⟩ := hknown start reference hmem hstart
      rw [show _ = _ from hlongest] at hdir
      cases hdir
    | some best =>
      obtain ⟨start, dir⟩ := best
      rw [hbest] at hlongest
      obtain ⟨hmem, hmax⟩ := hlongest
      obtain ⟨hmem, hstart⟩ := List.mem_filter.1 hmem
      obtain ⟨reference, hentry, hdir⟩ := (h.start start dir).1 hmem
      obtain ⟨rest, hrest⟩ := startsWith_iff.1 hstart
      have hdrop : location.toList.drop start.length = rest := by
        rw [← hrest, ← String.length_toList, List.drop_left]
      show Redirects base es location (below? dir (String.ofList
        ((location.toList.drop start.length).dropWhile (· == '/'))))
      rw [hdrop, ← String.toList_ofList (l := rest)]
      refine .start hnoExact hentry ?_ (fun start' reference' hmem' hstart' => ?_) hdir
      · rw [← String.toList_inj, String.toList_append, String.toList_ofList, hrest]
      · obtain ⟨dir', hdir'⟩ := hknown start' reference' hmem' hstart'
        exact hmax _ hdir'

/-! ### Reading catalogs -/

theorem Knows.put (h : Knows base es r) {location reference : String} {target : Location}
    (hes : Consistent (es ++ [.exact location reference])) (htarget : base.resolve reference = .ok target) :
    Knows base (es ++ [.exact location reference]) { r with exact := r.exact.put location target } where
  resolve e he := by
    rcases List.mem_append.1 he with he | he
    · exact h.resolve e he
    · exact ⟨target, List.mem_singleton.1 he ▸ htarget⟩
  exact location' target' := by
    rw [OrderedMap.get?_put]
    split
    · rename_i hlocation
      rw [hlocation]
      refine ⟨fun heq => ⟨reference, by simp, htarget.trans (congrArg _ (Option.some.inj heq))⟩, ?_⟩
      rintro ⟨reference', hmem, htarget'⟩
      rw [hes.exact hmem (List.mem_append_right _ (List.mem_singleton.2 rfl)), htarget] at htarget'
      rw [Except.ok.inj htarget']
    · rename_i hne
      simp [h.exact, hne]
  start start dir := by simp [h.start]

theorem Knows.push (h : Knows base es r) {start reference : String} {dir : Location}
    (hdir : base.resolve reference = .ok dir) :
    Knows base (es ++ [.start start reference]) { r with starts := r.starts ++ [(start, dir)] } where
  resolve e he := by
    rcases List.mem_append.1 he with he | he
    · exact h.resolve e he
    · exact ⟨dir, List.mem_singleton.1 he ▸ hdir⟩
  exact location target := by simp [h.exact]
  start start' dir' := by
    simp only [List.mem_append, h.start, List.mem_singleton, Prod.mk.injEq, Entry.start.injEq]
    constructor
    · rintro (⟨reference', hmem, hdir'⟩ | ⟨rfl, rfl⟩)
      · exact ⟨reference', Or.inl hmem, hdir'⟩
      · exact ⟨reference, Or.inr ⟨rfl, rfl⟩, hdir⟩
    · rintro ⟨reference', hmem | ⟨rfl, rfl⟩, hdir'⟩
      · exact Or.inl ⟨reference', hmem, hdir'⟩
      · exact Or.inr ⟨rfl, Except.ok.inj (hdir'.symm.trans hdir)⟩

end Knows

section Reading

variable {m : Type → Type} [Monad m] [LawfulMonad m]

theorem bind_resolved {α β : Type} {x : Except Error α} {a : α} (h : x = .ok a)
    (f : α → ExceptT Error m β) : (liftM x >>= f) = f a := by
  rw [h]
  exact pure_bind a f

theorem bind_unresolved {α β : Type} {x : Except Error α} {e : Error} (h : x = .error e)
    (f : α → ExceptT Error m β) : (liftM x >>= f) = throw e := by
  rw [h]
  exact ExceptT.bind_throw f

variable [FileAccess m] {base : Location} {es : List Entry} {r : Redirection}
  {follow : String → Redirection → ExceptT Error m Redirection}

/-- One more entry is taken in if it resolves; if it does not, the catalog cannot be read. -/
theorem add_cases (follow : String → Redirection → ExceptT Error m Redirection) (h : Knows base es r)
    {e : Entry} (hes : Consistent (es ++ [e])) :
    (∃ r', add follow base r e = pure r' ∧ Knows base (es ++ [e]) r') ∨
    base.resolve e.reference = .error .url ∧ add follow base r e = throw .url := by
  cases htarget : base.resolve e.reference with
  | error err =>
    obtain rfl := Location.resolve_error htarget
    refine Or.inr ⟨rfl, ?_⟩
    cases e with
    | exact location reference => exact bind_unresolved htarget _
    | start start reference => exact bind_unresolved htarget _
    | next reference => exact absurd (by simp) (hes.noNext reference)
  | ok target =>
    refine Or.inl ?_
    cases e with
    | exact location reference => exact ⟨_, bind_resolved htarget _, h.put hes htarget⟩
    | start start reference => exact ⟨_, bind_resolved htarget _, h.push htarget⟩
    | next reference => exact absurd (by simp) (hes.noNext reference)

/-- Entries are taken in if they all resolve, and the catalog cannot be read if one does not. -/
theorem adds_cases (pre : List Entry) (h : Knows base pre r) (hes : Consistent (pre ++ es)) :
    (∃ r', es.foldlM (add follow base) r = pure r' ∧ Knows base (pre ++ es) r') ∨
    (∃ e ∈ es, base.resolve e.reference = .error .url) ∧
      es.foldlM (add follow base) r = throw .url := by
  induction es generalizing pre r with
  | nil => exact Or.inl ⟨r, rfl, by simpa using h⟩
  | cons e es ih =>
    rw [List.append_cons] at hes ⊢
    rw [List.foldlM_cons]
    rcases add_cases follow h (hes.of_subset (List.subset_append_left _ _)) with
      ⟨r', hadd, hknows⟩ | ⟨hfails, hadd⟩ <;> rw [hadd]
    · rw [pure_bind]
      rcases ih (pre ++ [e]) hknows hes with hread | ⟨⟨f, hf, hfails⟩, hthrow⟩
      · exact Or.inl hread
      · exact Or.inr ⟨⟨f, List.mem_cons_of_mem _ hf, hfails⟩, hthrow⟩
    · exact Or.inr ⟨⟨e, List.mem_cons_self, hfails⟩, ExceptT.bind_throw _⟩

/-- A catalog of consistent entries is read if they all resolve, and then knows what they say. -/
theorem ofText_cases (base : Location) {text : String} {document : Document}
    (hdocument : Document.ofText text = .ok document)
    (hentries : catalogEntries document.root = .ok es) (hes : Consistent es) :
    (∃ r, (ofText base text : ExceptT Error m Redirection) = pure r ∧ Knows base es r) ∨
    (∃ e ∈ es, base.resolve e.reference = .error .url) ∧
      (ofText base text : ExceptT Error m Redirection) = throw .url := by
  have hread : (ofText base text : ExceptT Error m Redirection) =
      es.foldlM (add (addFile maxNesting) base) {} := by
    unfold ofText
    rw [bind_resolved hdocument, bind_resolved hentries]
  rw [hread]
  exact adds_cases [] (knows_nil base) hes

/-- Two catalogs with the same consistent entries, in whatever order and groups, redirect each location
alike, and as these entries say: or neither can be read. -/
theorem ofText_alike (base : Location) {text text' : String} {document document' : Document}
    {es' : List Entry}
    (hdocument : Document.ofText text = .ok document) (hdocument' : Document.ofText text' = .ok document')
    (hentries : catalogEntries document.root = .ok es)
    (hentries' : catalogEntries document'.root = .ok es')
    (hsame : ∀ e, e ∈ es ↔ e ∈ es') (hes : Consistent es) :
    (∃ r r', (ofText base text : ExceptT Error m Redirection) = pure r ∧
      (ofText base text' : ExceptT Error m Redirection) = pure r' ∧
      ∀ location, r'.resolve? location = r.resolve? location ∧
        Redirects base es location (r.resolve? location)) ∨
    (ofText base text : ExceptT Error m Redirection) = throw .url ∧
      (ofText base text' : ExceptT Error m Redirection) = throw .url := by
  have hes' : Consistent es' := hes.of_subset fun e he => (hsame e).2 he
  rcases ofText_cases (m := m) base hdocument hentries hes with
    ⟨r, hread, hknows⟩ | ⟨⟨e, he, hfails⟩, hthrow⟩ <;>
  rcases ofText_cases (m := m) base hdocument' hentries' hes' with
    ⟨r', hread', hknows'⟩ | ⟨⟨e', he', hfails'⟩, hthrow'⟩
  · refine Or.inl ⟨r, r', hread, hread', fun location => ⟨?_, hknows.redirects location⟩⟩
    exact ((hknows'.redirects location).congr fun e => (hsame e).symm).unique hes (hknows.redirects location)
  · obtain ⟨target, htarget⟩ := hknows.resolve e' ((hsame e').2 he')
    rw [htarget] at hfails'
    cases hfails'
  · obtain ⟨target, htarget⟩ := hknows'.resolve e ((hsame e).1 he)
    rw [htarget] at hfails
    cases hfails
  · exact Or.inr ⟨hthrow, hthrow'⟩

end Reading

/-- The entries of a text, if it is a catalog. -/
def entriesOf? (text : String) : Option (List Entry) :=
  (Document.ofText text).toOption.bind fun d => (catalogEntries d.root).toOption

theorem entriesOf?_eq_some {text : String} {es : List Entry} (h : entriesOf? text = some es) :
    ∃ d, Document.ofText text = .ok d ∧ catalogEntries d.root = .ok es := by
  obtain ⟨d, hd, hes⟩ := Option.bind_eq_some_iff.1 h
  exact ⟨d, toOption_eq_some_iff.1 hd, toOption_eq_some_iff.1 hes⟩

def flatCatalog : String :=
  "<catalog><rewriteURI uriStartString='a:' rewritePrefix='far'/>" ++
  "<rewriteURI uriStartString='a:b/' rewritePrefix='near'/><uri name='a:b/c' uri='own'/></catalog>"

/-- The entries of `flatCatalog`, last one first and in groups. -/
def groupedCatalog : String :=
  "<catalog><group><uri name='a:b/c' uri='own'/><group>" ++
  "<rewriteURI uriStartString='a:b/' rewritePrefix='near'/></group></group>" ++
  "<rewriteURI uriStartString='a:' rewritePrefix='far'/></catalog>"

/-- The longer of two starts wins in both orders. -/
theorem overlapping_starts_alike : ∃ r r' : Redirection,
    (ofText (.path "/maps/index") flatCatalog : ExceptT Error (StateM FileTree) Redirection) = pure r ∧
    (ofText (.path "/maps/index") groupedCatalog : ExceptT Error (StateM FileTree) Redirection) = pure r' ∧
    r.resolve? "a:b/d" = some (.path "/maps/near/d") ∧
    ∀ location, r'.resolve? location = r.resolve? location := by
  have hflat : entriesOf? flatCatalog =
      some [.start "a:" "far/", .start "a:b/" "near/", .exact "a:b/c" "own"] := by decide +kernel
  have hgrouped : entriesOf? groupedCatalog =
      some [.exact "a:b/c" "own", .start "a:b/" "near/", .start "a:" "far/"] := by decide +kernel
  obtain ⟨d, hd, hes⟩ := entriesOf?_eq_some hflat
  obtain ⟨d', hd', hes'⟩ := entriesOf?_eq_some hgrouped
  have heval : ((ofText (.path "/maps/index") flatCatalog :
      ExceptT Error (StateM FileTree) Redirection).run.run {}).1.toOption.bind (·.resolve? "a:b/d") =
        some (.path "/maps/near/d") := by decide +kernel
  have hsame : ∀ e, e ∈ [.start "a:" "far/", .start "a:b/" "near/", .exact "a:b/c" "own"] ↔
      e ∈ [.exact "a:b/c" "own", .start "a:b/" "near/", Entry.start "a:" "far/"] :=
    fun e => (List.reverse_perm _).symm.mem_iff
  rcases ofText_alike (m := StateM FileTree) (.path "/maps/index") hd hd' hes hes' hsame
    ⟨by simp, by grind, by grind⟩ with ⟨r, r', hr, hr', halike⟩ | ⟨hthrow, -⟩
  · rw [hr] at heval
    exact ⟨r, r', hr, hr', heval, fun location => (halike location).1⟩
  · rw [hthrow] at heval
    cases heval

end Redirection
end FeatureTables
