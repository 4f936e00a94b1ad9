import FeatureTables.Proofs.Schema.Closure
import FeatureTables.Proofs.Schema.Substitution

/-!
The documents that make a catalog. No document is taken in twice for one includer, but one that has a
namespace of its own is taken in for it once more with each other includer: the places of the documents
are distinct if and only if no such document was reached in two ways (`loaded_once_iff`). A substitution
group lists a declaration as often as its document was taken in.
-/

namespace FeatureTables.Schema

open Loading Xml

/-! ### Documents that were taken in -/

/-- A document that was taken into a catalog: what there was to load, the root that was fetched, and what
it declares. -/
structure Taken where
  pending : Pending
  root : Element
  declared : Declarations

namespace Taken

/-- The namespace that the document says it has. -/
def own? (t : Taken) : Option String := t.root.attribute? "targetNamespace"

/-- The key of the location, and the namespace of what is declared. -/
def place (t : Taken) : String × Option String := (t.pending.1.key, t.declared.target?)

/-- The declarations that substitute for a head, each with the place of the document and its number
there. -/
def members (t : Taken) : List (((String × Option String) × Nat) × ElementDecl) :=
  (t.declared.elements.filter (·.substitutes?.isSome)).zipIdx.map fun (m, i) => ((t.place, i), m)

end Taken

/-- The catalog has been made of these documents, in this order: each one was fetched and read, for an
includer for which no other one of its key was. -/
structure Registered {σ : Type} (fetch : Location → StateM σ (Except Error Bytes)) (limits : Limits)
    (c : Catalog) (ts : List Taken) : Prop where
  marks : (ts.map (·.pending.mark)).Nodup
  fetched : ∀ t ∈ ts, ∃ s s' bytes document, (fetch t.pending.1).run s = (.ok bytes, s') ∧
    Document.parse limits bytes = .ok document ∧ document.root = t.root
  read : ∀ i t, ts[i]? = some t →
    Declarations.read (i + 1) t.pending.1.toText t.pending.2 t.root = .ok t.declared
  catalog : c = (ts.map fun t => (t.pending, t.declared)).foldl Catalog.adding {}

/-! ### What a document declares -/

section Read

variable {c : Context} {n : ℕ} {d d' : Declarations} {e root : Element} {location : String}
  {includer? : Option String}

theorem add_target (h : d.add c n e = .ok d') : d'.target? = d.target? := by
  unfold Declarations.add at h
  split at h
  case h_8 | h_9 =>
    split at h
    · cases h
      rfl
    · cases h
  all_goals
    simp only [bind_eq_ok_iff, pure, Except.pure, Except.ok.injEq] at h
    grind

theorem foldlM_add_target {es : List Element} (h : es.foldlM (Declarations.add c n) d = .ok d') :
    d'.target? = d.target? := by
  induction es generalizing d with
  | nil =>
    cases h
    rfl
  | cons e es ih =>
    rw [List.foldlM_cons, bind_eq_ok_iff] at h
    obtain ⟨d₁, hd₁, h⟩ := h
    rw [ih h, add_target hd₁]

/-- The namespace of what a document declares is its own one, or that of the includer. -/
theorem read_target (h : Declarations.read n location includer? root = .ok d) :
    d.target? = (root.attribute? "targetNamespace").or includer? := by
  unfold Declarations.read at h
  split at h
  · cases h
  · exact foldlM_add_target h

end Read

/-! ### The run of a search -/

namespace Loading

section Run

variable {σ : Type} {fetch : Location → StateM σ (Except Error Bytes)} {limits : Limits} {l l' : Loading}
  {ts : List Taken} {c : Catalog}

/-- A search has taken in these documents, in this order. -/
structure Holds (fetch : Location → StateM σ (Except Error Bytes)) (limits : Limits) (l : Loading)
    (ts : List Taken) : Prop where
  seen : l.seen = (ts.map (·.pending.mark)).reverse
  registered : Registered fetch limits l.catalog ts

theorem holds_start (fetch : Location → StateM σ (Except Error Bytes)) (limits : Limits)
    (queue : List Pending) : Holds fetch limits { queue } [] where
  seen := rfl
  registered := ⟨List.nodup_nil, by simp, by simp, rfl⟩

/-- What there is to load next was not seen before. -/
theorem next?_eq_some {seen : List (String × Option String)} {queue : List Pending} {p : Pending}
    (h : next? limits seen c queue = .ok (some (p, l'))) :
    p.mark ∉ seen ∧ l'.seen = p.mark :: seen ∧ l'.catalog = c := by
  rcases next?_cases limits seen c queue with ⟨h', -⟩ | ⟨q, -, -, -, e, h'⟩ |
    ⟨q, before, after, -, -, hnew, -, h'⟩
  · rw [h] at h'
    cases h'
  · rw [h] at h'
    cases h'
  · rw [h] at h'
    cases h'
    exact ⟨hnew, rfl, rfl⟩

/-- A document that was fetched is the last one taken in. -/
theorem Holds.take {l'' : Loading} {p : Pending} {bytes : Bytes} {s s' : σ}
    (h : Holds fetch limits l ts)
    (hnext : next? limits l.seen l.catalog l.queue = .ok (some (p, l')))
    (hfetch : (fetch p.1).run s = (.ok bytes, s')) (htake : l'.take limits p bytes = .ok l'') :
    ∃ t, Holds fetch limits l'' (ts ++ [t]) := by
  obtain ⟨hnew, hseen, hcatalog⟩ := next?_eq_some hnext
  let answers (_ : Location) : Except Error Bytes := .ok bytes
  have hanswers : answers p.1 = .ok bytes := rfl
  obtain ⟨d, qs, hd, -, rfl⟩ := (take_eq_ok_iff hanswers).1 htake
  simp only [declarations, bind_eq_ok_iff] at hd
  obtain ⟨bytes', hbytes, document, hdocument, hread⟩ := hd
  obtain rfl := Except.ok.inj (hanswers.symm.trans hbytes)
  have hlength : l'.seen.length = ts.length + 1 := by
    rw [hseen, h.seen]
    simp
  have hmarks : (ts ++ [(⟨p, document.root, d⟩ : Taken)]).map (·.pending.mark) =
      ts.map (·.pending.mark) ++ [p.mark] := by simp
  refine ⟨⟨p, document.root, d⟩, ?_, ?_⟩
  · rw [hmarks, List.reverse_concat, ← h.seen]
    exact hseen
  constructor
  case marks =>
    rw [hmarks, List.nodup_append]
    refine ⟨h.registered.marks, List.nodup_singleton _, ?_⟩
    intro a ha b hb heq
    refine hnew ?_
    rw [h.seen, List.mem_reverse, ← List.mem_singleton.1 hb, ← heq]
    exact ha
  case fetched =>
    intro t ht
    rcases List.mem_append.1 ht with ht | ht
    · exact h.registered.fetched t ht
    · obtain rfl := List.mem_singleton.1 ht
      exact ⟨s, s', bytes, document, hfetch, hdocument, rfl⟩
  case read =>
    intro i t hi
    rw [List.getElem?_append] at hi
    split at hi
    · exact h.registered.read i t hi
    · obtain ⟨hi', ht⟩ := List.getElem?_eq_some_iff.1 hi
      rw [List.length_singleton] at hi'
      obtain rfl : i = ts.length := by omega
      rw [List.getElem_singleton] at ht
      subst ht
      rw [← hlength]
      exact hread
  case catalog =>
    show l'.catalog.adding (p, d) = _
    rw [List.map_append, List.foldl_append, ← h.registered.catalog, hcatalog]
    rfl

/-- A step of a search that ends well: there is nothing left to load, or a document is fetched and taken
in, and the search goes on. -/
theorem run_eq_ok {n : ℕ} {s s' : σ}
    (h : (Loading.run fetch limits (n + 1) l).run s = (.ok c, s')) :
    c = l.catalog ∨ ∃ p l' bytes s₁ l'', next? limits l.seen l.catalog l.queue = .ok (some (p, l')) ∧
      (fetch p.1).run s = (.ok bytes, s₁) ∧ l'.take limits p bytes = .ok l'' ∧
      (Loading.run fetch limits n l'').run s₁ = (.ok c, s') := by
  rw [Loading.run] at h
  cases hnext : next? limits l.seen l.catalog l.queue with
  | error e =>
    rw [hnext] at h
    cases h
  | ok next =>
    rw [hnext] at h
    cases next with
    | none =>
      cases h
      exact Or.inl rfl
    | some next =>
      obtain ⟨p, l'⟩ := next
      dsimp only at h
      rw [StateT.run_bind] at h
      cases hfetch : (fetch p.1).run s with
      | mk answer s₁ =>
        rw [hfetch] at h
        cases answer with
        | error e => cases h
        | ok bytes =>
          dsimp only [bind] at h
          cases htake : l'.take limits p bytes with
          | error e =>
            rw [htake] at h
            cases h
          | ok l'' =>
            rw [htake] at h
            exact Or.inr ⟨p, l', bytes, s₁, l'', rfl, hfetch, htake, h⟩

/-- A search that ends gives the catalog of the documents that it took in. -/
theorem Holds.run {n : ℕ} {s s' : σ} (h : Holds fetch limits l ts)
    (hrun : (Loading.run fetch limits n l).run s = (.ok c, s')) :
    ∃ ts', Registered fetch limits c ts' := by
  induction n generalizing l ts s with
  | zero =>
    cases hrun
    exact ⟨ts, h.registered⟩
  | succ n ih =>
    rcases run_eq_ok hrun with rfl | ⟨p, l', bytes, s₁, l'', hnext, hfetch, htake, hrun⟩
    · exact ⟨ts, h.registered⟩
    · obtain ⟨t, ht⟩ := h.take hnext hfetch htake
      exact ih ht hrun

end Run

end Loading

/-! ### Places and members -/

section Places

variable {σ : Type} {fetch : Location → StateM σ (Except Error Bytes)} {limits : Limits} {c : Catalog}
  {ts : List Taken} {t u : Taken}

theorem Registered.target (h : Registered fetch limits c ts) (ht : t ∈ ts) :
    t.declared.target? = t.own?.or t.pending.2 := by
  obtain ⟨i, hi⟩ := List.getElem?_of_mem ht
  exact read_target (h.read i t hi)

theorem Registered.eq_of_mark (h : Registered fetch limits c ts) (ht : t ∈ ts) (hu : u ∈ ts)
    (hkey : t.pending.1.key = u.pending.1.key) (hincluder : t.pending.2 = u.pending.2) : t = u :=
  List.inj_on_of_nodup_map h.marks ht hu (Prod.ext hkey hincluder)

/-- Two documents have one place only if one of them has a namespace of its own, which is that of the
other one too. -/
theorem Registered.nodup_places_iff (h : Registered fetch limits c ts) : (ts.map Taken.place).Nodup ↔
    ∀ t ∈ ts, ∀ u ∈ ts, t.pending.1.key = u.pending.1.key → t.pending.2 ≠ u.pending.2 →
      t.own?.isSome → t.own? ≠ u.declared.target? := by
  constructor
  · intro hnodup t ht u hu hkey hne hown htarget
    have hplace : t.place = u.place := by
      refine Prod.ext hkey ?_
      show t.declared.target? = u.declared.target?
      rw [h.target ht, Option.or_of_isSome hown, htarget]
    exact hne (congrArg (·.pending.2) (List.inj_on_of_nodup_map hnodup ht hu hplace))
  · intro hapart
    refine List.Nodup.map_on (fun t ht u hu hplace => ?_) (List.Nodup.of_map _ h.marks)
    obtain ⟨hkey, htarget⟩ := Prod.mk.inj hplace
    by_contra hne
    have hincluder : t.pending.2 ≠ u.pending.2 := fun heq => hne (h.eq_of_mark ht hu hkey heq)
    have htu := h.target ht
    have hut := h.target hu
    cases hownt : t.own? with
    | some ns =>
      refine hapart t ht u hu hkey hincluder (by rw [hownt]; rfl) ?_
      rw [← htarget, htu, hownt]
      rfl
    | none =>
      cases hownu : u.own? with
      | some ns =>
        refine hapart u hu t ht hkey.symm hincluder.symm (by rw [hownu]; rfl) ?_
        rw [htarget, hut, hownu]
        rfl
      | none =>
        rw [hownt, Option.none_or] at htu
        rw [hownu, Option.none_or] at hut
        exact hincluder (htu.symm.trans (htarget.trans hut))

/-- Where one key stands for one document, the places are distinct if each document that has a namespace
of its own was taken in for one includer. -/
theorem Registered.nodup_places_iff_of_own (h : Registered fetch limits c ts)
    (hown : ∀ t ∈ ts, ∀ u ∈ ts, t.pending.1.key = u.pending.1.key → t.own? = u.own?) :
    (ts.map Taken.place).Nodup ↔ ∀ t ∈ ts, t.own?.isSome →
      ∀ u ∈ ts, t.pending.1.key = u.pending.1.key → t.pending.2 = u.pending.2 := by
  rw [h.nodup_places_iff]
  constructor
  · intro hapart t ht hsome u hu hkey
    by_contra hne
    refine hapart t ht u hu hkey hne hsome ?_
    rw [h.target hu, ← hown t ht u hu hkey, Option.or_of_isSome hsome]
  · intro hone t ht u hu hkey hne hsome
    exact absurd (hone t ht hsome u hu hkey) hne

/-- In documents of distinct places no two members have one label. -/
theorem nodup_labels (h : (ts.map Taken.place).Nodup) :
    ((ts.flatMap Taken.members).map (·.1)).Nodup := by
  rw [List.map_flatMap, List.nodup_flatMap]
  constructor
  · intro t _
    have hlabels : t.members.map (·.1) = (List.range' 0
        (t.declared.elements.filter (·.substitutes?.isSome)).length).map (t.place, ·) := by
      rw [Taken.members, List.map_map, ← List.zipIdx_map_snd, List.map_map]
      rfl
    rw [hlabels]
    exact List.Nodup.map (fun _ _ heq => (Prod.mk.inj heq).2) List.nodup_range'
  · refine (List.pairwise_map.1 h).imp fun {t u} hne => ?_
    intro label ht hu
    obtain ⟨m, hm, rfl⟩ := List.mem_map.1 ht
    obtain ⟨m', hm', heq⟩ := List.mem_map.1 hu
    obtain ⟨e, -, rfl⟩ := List.mem_map.1 hm
    obtain ⟨e', -, rfl⟩ := List.mem_map.1 hm'
    exact hne (Prod.mk.inj heq).1.symm

theorem adding_substitutes (c : Catalog) (e : Pending × Declarations) : (c.adding e).substitutes =
    c.substitutes ++ e.2.elements.filter (·.substitutes?.isSome) := by
  unfold Catalog.adding
  dsimp only
  split <;> split <;> rfl

/-- The register of members has those of all documents, in the order of loading. -/
theorem Registered.substitutes (h : Registered fetch limits c ts) :
    c.substitutes = (ts.flatMap Taken.members).map (·.2) := by
  have hmembers : ∀ t : Taken, t.members.map (·.2) =
      t.declared.elements.filter (·.substitutes?.isSome) := by
    intro t
    rw [Taken.members, List.map_map]
    exact List.zipIdx_map_fst _ _
  have hfold : ∀ (ts : List Taken) (c : Catalog),
      ((ts.map fun t => (t.pending, t.declared)).foldl Catalog.adding c).substitutes =
        c.substitutes ++ (ts.flatMap Taken.members).map (·.2) := by
    intro ts
    induction ts with
    | nil => simp
    | cons t ts ih =>
      intro c
      rw [List.map_cons, List.foldl_cons, ih, adding_substitutes, List.flatMap_cons, List.map_append,
        hmembers, List.append_assoc]
  rw [h.catalog, hfold]
  rfl

/-- A group has the members that its heads have in all documents, each as often as it was taken in. -/
theorem Registered.substitutionGroup_perm (h : Registered fetch limits c ts) (head : QName) :
    ∃ heads : List QName, (∀ k, k ∈ heads ↔ Relation.ReflTransGen c.HeadOf head k) ∧
      (c.substitutionGroup head).Perm (((ts.flatMap Taken.members).filter fun m =>
        m.2.substitutes?.any (· ∈ heads)).map (·.2)) := by
  obtain ⟨heads, hheads, hperm⟩ := c.substitutionGroup_perm head
  refine ⟨heads, hheads, ?_⟩
  rw [Catalog.membersOf, h.substitutes, List.filter_map] at hperm
  exact hperm

end Places

/-! ### Closures -/

/-- Loading takes in no document twice for one includer, so that two documents with one key and one
namespace are one that has this namespace of its own, taken in for two includers. A substitution group
lists each member as often as its document was taken in. -/
theorem loaded_once_iff {σ : Type} {fetch : Location → StateM σ (Except Error Bytes)} {limits : Limits}
    {roots : List Location} {s s' : σ} {c : Catalog}
    (h : (Catalog.loadWith fetch limits roots).run s = (.ok c, s')) :
    ∃ ts, Registered fetch limits c ts ∧
      ((ts.map Taken.place).Nodup ↔
        ∀ t ∈ ts, ∀ u ∈ ts, t.pending.1.key = u.pending.1.key → t.pending.2 ≠ u.pending.2 →
          t.own?.isSome → t.own? ≠ u.declared.target?) ∧
      ((∀ t ∈ ts, ∀ u ∈ ts, t.pending.1.key = u.pending.1.key → t.own? = u.own?) →
        ((ts.map Taken.place).Nodup ↔ ∀ t ∈ ts, t.own?.isSome →
          ∀ u ∈ ts, t.pending.1.key = u.pending.1.key → t.pending.2 = u.pending.2)) ∧
      ((ts.map Taken.place).Nodup → ((ts.flatMap Taken.members).map (·.1)).Nodup) ∧
      ∀ head, ∃ heads : List QName, (∀ k, k ∈ heads ↔ Relation.ReflTransGen c.HeadOf head k) ∧
        (c.substitutionGroup head).Perm (((ts.flatMap Taken.members).filter fun m =>
          m.2.substitutes?.any (· ∈ heads)).map (·.2)) := by
  obtain ⟨ts, hts⟩ := (holds_start fetch limits _).run h
  exact ⟨ts, hts, hts.nodup_places_iff, hts.nodup_places_iff_of_own, nodup_labels,
    hts.substitutionGroup_perm⟩

/-- Documents in memory are fetched with a state that is always the same. -/
def Memory.serve (m : Memory) (location : Location) : StateM Unit (Except Error Bytes) :=
  pure (m.fetch location)

/-- A document without a namespace, included by two documents that have one each. -/
def sharedSchemas : List (String × String) := [
  ("a.xsd", "<xs:schema xmlns:xs='http://www.w3.org/2001/XMLSchema' targetNamespace='urn:a'>" ++
    "<xs:include schemaLocation='c.xsd'/><xs:import schemaLocation='b.xsd'/></xs:schema>"),
  ("b.xsd", "<xs:schema xmlns:xs='http://www.w3.org/2001/XMLSchema' targetNamespace='urn:b'>" ++
    "<xs:include schemaLocation='c.xsd'/></xs:schema>"),
  ("c.xsd", "<xs:schema xmlns:xs='http://www.w3.org/2001/XMLSchema'><xs:element name='h'/>" ++
    "<xs:element name='m' substitutionGroup='h'/></xs:schema>")]

/-- A document with a namespace of its own, imported by one document and included by another one. -/
def diamondSchemas : List (String × String) := [
  ("app.xsd", "<xs:schema xmlns:xs='http://www.w3.org/2001/XMLSchema' targetNamespace='urn:app'>" ++
    "<xs:import namespace='urn:g' schemaLocation='feature.xsd'/>" ++
    "<xs:import namespace='urn:g' schemaLocation='geometry.xsd'/></xs:schema>"),
  ("feature.xsd", "<xs:schema xmlns:xs='http://www.w3.org/2001/XMLSchema' targetNamespace='urn:g'>" ++
    "<xs:include schemaLocation='geometry.xsd'/></xs:schema>"),
  ("geometry.xsd", "<xs:schema xmlns:xs='http://www.w3.org/2001/XMLSchema' xmlns:g='urn:g' " ++
    "targetNamespace='urn:g'><xs:element name='h' abstract='true'/>" ++
    "<xs:element name='m' substitutionGroup='g:h'/></xs:schema>")]

/-- A document that was taken in for two namespaces has two places, and one member in each. -/
theorem shared_loaded_apart : ∃ c ts,
    (Catalog.loadWith (Memory.ofDocuments sharedSchemas).serve {} [memoryLocation "a.xsd"]).run () =
      (.ok c, ()) ∧
    (c.substitutionGroup ⟨some "urn:a", "h"⟩).map (·.name) = [⟨some "urn:a", "m"⟩] ∧
    (c.substitutionGroup ⟨some "urn:b", "h"⟩).map (·.name) = [⟨some "urn:b", "m"⟩] ∧
    Registered (Memory.ofDocuments sharedSchemas).serve {} c ts ∧
    ((ts.map Taken.place).Nodup ↔
      ∀ t ∈ ts, ∀ u ∈ ts, t.pending.1.key = u.pending.1.key → t.pending.2 ≠ u.pending.2 →
        t.own?.isSome → t.own? ≠ u.declared.target?) := by
  have heval : ((Catalog.loadWith (Memory.ofDocuments sharedSchemas).serve {}
      [memoryLocation "a.xsd"]).run ()).1.toOption.map (fun c =>
        decide ((c.substitutionGroup ⟨some "urn:a", "h"⟩).map (·.name) = [⟨some "urn:a", "m"⟩] ∧
          (c.substitutionGroup ⟨some "urn:b", "h"⟩).map (·.name) = [⟨some "urn:b", "m"⟩])) =
      some true := by
    decide +kernel
  obtain ⟨c, hc, heval⟩ := Option.map_eq_some_iff.1 heval
  rw [toOption_eq_some_iff] at hc
  obtain ⟨ha, hb⟩ := of_decide_eq_true heval
  have hload : (Catalog.loadWith (Memory.ofDocuments sharedSchemas).serve {}
      [memoryLocation "a.xsd"]).run () = (.ok c, ()) := Prod.ext hc (Subsingleton.elim _ _)
  obtain ⟨ts, hts, hiff, -⟩ := loaded_once_iff hload
  exact ⟨c, ts, hload, ha, hb, hts, hiff⟩

/-- The documents declare one member of a group, and the group lists it twice. -/
theorem diamond_loaded_twice :
    (diamondSchemas.flatMap fun (location, text) =>
      (((Document.ofText text).bind fun d => Declarations.read 0 location none d.root).map fun d =>
        (d.elements.filter (·.substitutes?.isSome)).map (·.name)).toOption.getD []) =
      [⟨some "urn:g", "m"⟩] ∧
    ∃ c, Catalog.ofDocuments diamondSchemas = .ok c ∧
      (c.substitutionGroup ⟨some "urn:g", "h"⟩).map (·.name) =
        [⟨some "urn:g", "m"⟩, ⟨some "urn:g", "m"⟩] := by
  constructor
  · decide +kernel
  · have heval : (Catalog.ofDocuments diamondSchemas).toOption.map (fun c =>
        (c.substitutionGroup ⟨some "urn:g", "h"⟩).map (·.name)) =
          some [⟨some "urn:g", "m"⟩, ⟨some "urn:g", "m"⟩] := by
      decide +kernel
    obtain ⟨c, hc, hgroup⟩ := Option.map_eq_some_iff.1 heval
    exact ⟨c, toOption_eq_some_iff.1 hc, hgroup⟩

end FeatureTables.Schema
