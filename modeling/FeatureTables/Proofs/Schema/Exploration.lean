import FeatureTables.Proofs.Schema.Search
import Mathlib.Data.Set.Card

/-!
What a search for the documents of a closure has explored. Each step takes in one more member and keeps
what is known of those before it (`Explored.step`). So a search that ends has been to all members, and
one that fails has come to a member that cannot be loaded, or to one too many (`Loads.explored`).
-/

namespace FeatureTables.Schema

namespace Loading

/-- A document of this mark was taken in, or is still to come. -/
def Covers (l : Loading) (m : String × Option String) : Prop :=
  m ∈ l.seen ∨ ∃ q ∈ l.queue, q.mark = m

/-- The search has taken in these documents, in this order. -/
structure Explored (fetch : Location → Except Error Bytes) (limits : Limits) (roots : List Location)
    (l : Loading) (ds : List (Pending × Declarations)) : Prop where
  seen : l.seen = (ds.map (·.1.mark)).reverse
  nodup : l.seen.Nodup
  size : l.seen.length ≤ limits.schemaDocuments
  members : ∀ e ∈ ds, Member fetch limits roots e.1
  queue : ∀ q ∈ l.queue, Member fetch limits roots q
  read : ∀ i p d, ds[i]? = some (p, d) → declarations fetch limits (i + 1) p = .ok d
  roots : ∀ r ∈ roots, l.Covers (r.key, none)
  followed : ∀ e ∈ ds, ∃ qs, references e.1 e.2 = .ok qs ∧ ∀ q ∈ qs, l.Covers q.mark
  catalog : l.catalog = ds.foldl Catalog.adding {}

/-- There are members that cannot be loaded, or more members than the limit allows. -/
def Unloadable (fetch : Location → Except Error Bytes) (limits : Limits) (roots : List Location) :
    Prop :=
  (∃ p, Member fetch limits roots p ∧ ¬ Loadable fetch limits p) ∨
    ∃ marks : List (String × Option String), marks.Nodup ∧
      (∀ m ∈ marks, ∃ p, Member fetch limits roots p ∧ p.mark = m) ∧
        limits.schemaDocuments < marks.length

section Explored

variable {fetch : Location → Except Error Bytes} {limits : Limits} {roots : List Location}
  {l : Loading} {ds : List (Pending × Declarations)} {p : Pending} {d : Declarations}

/-- One document reads as any number of it. -/
theorem declarations_renumber {n : Nat} (h : declarations fetch limits n p = .ok d) (n' : Nat) :
    ∃ d', declarations fetch limits n' p = .ok d' ∧ d.Like (n = n') d' := by
  have halike := declarations_alike limits (alike_eq (fetch p.1)) (q := p) rfl n n'
  rw [h] at halike
  cases h' : declarations fetch limits n' p with
  | error e =>
    rw [h'] at halike
    exact halike.elim
  | ok d' =>
    rw [h'] at halike
    exact ⟨d', rfl, halike⟩

theorem member_of_reference {n : Nat} (hp : Member fetch limits roots p)
    (hd : declarations fetch limits n p = .ok d) {qs : List Pending} (hqs : references p d = .ok qs) :
    ∀ q ∈ qs, Member fetch limits roots q := by
  intro q hq
  obtain ⟨d', hd', hlike⟩ := declarations_renumber hd 0
  rcases (mem_references hqs).1 hq with ⟨ns, r, location, hr, hl, rfl⟩ | ⟨r, hr, location, hl, rfl⟩
  · exact hp.imported hd' (hlike.imports ▸ hr) hl
  · rw [hlike.target]
    exact hp.included hd' (hlike.includes ▸ hr) hl

theorem explored_start (fetch : Location → Except Error Bytes) (limits : Limits)
    (roots : List Location) :
    Explored fetch limits roots { queue := roots.map fun r => (r, none) } [] where
  seen := rfl
  nodup := List.nodup_nil
  size := Nat.zero_le _
  members e he := by cases he
  queue q hq := by
    obtain ⟨r, hr, rfl⟩ := List.mem_map.1 hq
    exact .root hr
  read i p d h := by simp at h
  roots r hr := Or.inr ⟨(r, none), List.mem_map_of_mem hr, rfl⟩
  followed e he := by cases he
  catalog := rfl

/-- The marks that were seen are those of members. -/
theorem Explored.of_seen (h : Explored fetch limits roots l ds) {m : String × Option String}
    (hm : m ∈ l.seen) : ∃ e ∈ ds, e.1.mark = m := by
  rw [h.seen, List.mem_reverse] at hm
  exact List.mem_map.1 hm

/-- A document is taken in. -/
theorem Explored.step (h : Explored fetch limits roots l ds) {before after qs : List Pending}
    (hqueue : l.queue = before ++ p :: after) (hbefore : ∀ q ∈ before, q.mark ∈ l.seen)
    (hnew : p.mark ∉ l.seen) (hsize : l.seen.length + 1 ≤ limits.schemaDocuments)
    (hd : declarations fetch limits (l.seen.length + 1) p = .ok d) (hqs : references p d = .ok qs) :
    Explored fetch limits roots
      { queue := after ++ qs, seen := p.mark :: l.seen, catalog := l.catalog.adding (p, d) }
      (ds ++ [(p, d)]) := by
  have hp : Member fetch limits roots p := h.queue p (by rw [hqueue]; simp)
  have hlength : l.seen.length = ds.length := by rw [h.seen]; simp
  have hcovers : ∀ m, l.Covers m → Covers
      { queue := after ++ qs, seen := p.mark :: l.seen, catalog := l.catalog.adding (p, d) } m := by
    rintro m (hm | ⟨q, hq, rfl⟩)
    · exact Or.inl (List.mem_cons_of_mem _ hm)
    · rw [hqueue] at hq
      rcases List.mem_append.1 hq with hq | hq
      · exact Or.inl (List.mem_cons_of_mem _ (hbefore q hq))
      · rcases List.mem_cons.1 hq with rfl | hq
        · exact Or.inl List.mem_cons_self
        · exact Or.inr ⟨q, List.mem_append_left _ hq, rfl⟩
  constructor
  case seen => simp [h.seen]
  case nodup => exact List.nodup_cons.2 ⟨hnew, h.nodup⟩
  case size => exact hsize
  case members =>
    intro e he
    rcases List.mem_append.1 he with he | he
    · exact h.members e he
    · exact List.mem_singleton.1 he ▸ hp
  case queue =>
    intro q hq
    rcases List.mem_append.1 hq with hq | hq
    · exact h.queue q (by rw [hqueue]; simp [hq])
    · exact member_of_reference hp hd hqs q hq
  case read =>
    intro i p' d' hi
    rw [List.getElem?_append] at hi
    split at hi
    · exact h.read i p' d' hi
    · obtain ⟨hi', he⟩ := List.getElem?_eq_some_iff.1 hi
      rw [List.length_singleton] at hi'
      obtain rfl : i = ds.length := by omega
      rw [List.getElem_singleton] at he
      cases he
      rwa [← hlength]
  case roots => exact fun r hr => hcovers _ (h.roots r hr)
  case followed =>
    intro e he
    rcases List.mem_append.1 he with he | he
    · obtain ⟨qs', hqs', hall⟩ := h.followed e he
      exact ⟨qs', hqs', fun q hq => hcovers _ (hall q hq)⟩
    · obtain rfl := List.mem_singleton.1 he
      exact ⟨qs, hqs, fun q hq => Or.inr ⟨q, List.mem_append_right _ hq, rfl⟩⟩
  case catalog => rw [List.foldl_append, h.catalog]; rfl

/-- A member that was fetched and is not taken in cannot be loaded. -/
theorem not_loadable_of_untaken {bytes : Bytes} {e : Error} (hfetch : fetch p.1 = .ok bytes)
    (h : l.take limits p bytes = .error e) : ¬ Loadable fetch limits p := by
  rintro ⟨d, qs, hd, hqs⟩
  obtain ⟨d', hd', hlike⟩ := declarations_renumber hd l.seen.length
  have halike := references_alike (p := p) (q := p)
    (fun r => by cases p.1.resolve r <;> trivial) hlike
  rw [hqs] at halike
  cases hqs' : references p d' with
  | error e' =>
    rw [hqs'] at halike
    exact halike
  | ok qs' =>
    rw [(take_eq_ok_iff hfetch).2 ⟨d', qs', hd', hqs', rfl⟩] at h
    cases h

/-- A search ends with everything explored, or something cannot be loaded. -/
theorem Loads.explored {ps : List Pending} {r : Except Error Catalog} (h : Loads fetch limits l ps r)
    (hl : Explored fetch limits roots l ds) :
    (∃ l' ds', r = .ok l'.catalog ∧ Explored fetch limits roots l' ds' ∧
      ∀ q ∈ l'.queue, q.mark ∈ l'.seen) ∨
    (∃ e, r = .error e) ∧ Unloadable fetch limits roots := by
  induction h generalizing ds with
  | @done l h =>
    refine Or.inl ⟨l, ds, rfl, hl, ?_⟩
    rcases next?_cases limits l.seen l.catalog l.queue with ⟨-, hall⟩ | ⟨p, -, -, -, e, h'⟩ |
      ⟨p, before, after, -, -, -, -, h'⟩
    · exact hall
    · rw [h] at h'
      cases h'
    · rw [h] at h'
      cases h'
  | @excess l e h =>
    refine Or.inr ⟨⟨e, rfl⟩, Or.inr ?_⟩
    rcases next?_cases limits l.seen l.catalog l.queue with ⟨h', -⟩ | ⟨p, hp, hnew, hlimit, -⟩ |
      ⟨p, before, after, -, -, -, -, h'⟩
    · rw [h] at h'
      cases h'
    · refine ⟨p.mark :: l.seen, List.nodup_cons.2 ⟨hnew, hl.nodup⟩, List.forall_mem_cons.2
        ⟨⟨p, hl.queue p hp, rfl⟩, fun m hm => ?_⟩, by simpa using hlimit⟩
      obtain ⟨e, he, hmark⟩ := hl.of_seen hm
      exact ⟨e.1, hl.members e he, hmark⟩
    · rw [h] at h'
      cases h'
  | @unfetched l l' p e h hfetch =>
    refine Or.inr ⟨⟨_, rfl⟩, Or.inl ⟨p, ?_, ?_⟩⟩
    · exact hl.queue p (mem_queue_of_next? h)
    · rintro ⟨d, qs, hd, -⟩
      unfold declarations at hd
      rw [hfetch] at hd
      cases hd
  | @untaken l l' p bytes e h hfetch htake =>
    exact Or.inr ⟨⟨e, rfl⟩, Or.inl ⟨p, hl.queue p (mem_queue_of_next? h),
      not_loadable_of_untaken hfetch htake⟩⟩
  | @taken l l' l'' p bytes ps r h hfetch htake _ ih =>
    rcases next?_cases limits l.seen l.catalog l.queue with ⟨h', -⟩ | ⟨p, -, -, -, e, h'⟩ |
      ⟨p', before, after, hqueue, hbefore, hnew, hsize, h'⟩
    · rw [h] at h'
      cases h'
    · rw [h] at h'
      cases h'
    · rw [h] at h'
      cases h'
      obtain ⟨d, qs, hd, hqs, rfl⟩ := (take_eq_ok_iff hfetch).1 htake
      exact ih (hl.step hqueue hbefore hnew hsize hd hqs)

/-! ### Ends of searches -/

/-- Where nothing is left to take in, all members were taken in, up to their marks. -/
theorem Explored.taken (h : Explored fetch limits roots l ds)
    (hend : ∀ q ∈ l.queue, q.mark ∈ l.seen) (hkey : KeyDetermined fetch)
    (hcoherent : Coherent fetch limits roots) (hp : Member fetch limits roots p) :
    ∃ e ∈ ds, e.1.mark = p.mark := by
  have hcovers : ∀ m, l.Covers m → ∃ e ∈ ds, e.1.mark = m := by
    rintro m (hm | ⟨q, hq, rfl⟩)
    · exact h.of_seen hm
    · exact h.of_seen (hend q hq)
  -- a reference of a member is one of the document that was taken in for the member
  have hnext : ∀ {p : Pending} {d : Declarations}, Member fetch limits roots p →
      declarations fetch limits 0 p = .ok d → (∃ e ∈ ds, e.1.mark = p.mark) →
      ∃ e ∈ ds, e.2.Like False d ∧ ∃ qs, references e.1 e.2 = .ok qs ∧
        (∀ q ∈ qs, ∃ e ∈ ds, e.1.mark = q.mark) ∧
        ∀ r l, p.1.resolve r = .ok l → ∃ l', e.1.1.resolve r = .ok l' ∧ l'.key = l.key := by
    rintro p d hp hd ⟨e, he, hmark⟩
    obtain ⟨hkeys, hincluder⟩ := Prod.mk.inj hmark
    obtain ⟨i, hi⟩ := List.getElem?_of_mem he
    obtain ⟨qs, hqs, hall⟩ := h.followed e he
    refine ⟨e, he, ?_, qs, hqs, fun q hq => hcovers _ (hall q hq), fun r location hl => ?_⟩
    · have halike := declarations_alike limits (hkey _ _ hkeys) hincluder (i + 1) 0
      rw [h.read i e.1 e.2 hi, hd] at halike
      exact ⟨halike.target, halike.imports, halike.includes, fun hfalse => hfalse.elim⟩
    · have halike := hcoherent e.1 p (h.members e he) hp hkeys r
      rw [hl] at halike
      cases hl' : e.1.1.resolve r with
      | error err =>
        rw [hl'] at halike
        exact halike.elim
      | ok l' =>
        rw [hl'] at halike
        exact ⟨l', rfl, halike⟩
  induction hp with
  | root hr => exact hcovers _ (h.roots _ hr)
  | imported hp hd hr hl ih =>
    obtain ⟨e, -, hlike, qs, hqs, hall, hresolve⟩ := hnext hp hd ih
    obtain ⟨l', hl', hkeys⟩ := hresolve _ _ hl
    obtain ⟨e', he', hmark⟩ := hall (l', none)
      ((mem_references hqs).2 (Or.inl ⟨_, _, l', hlike.imports ▸ hr, hl', rfl⟩))
    exact ⟨e', he', hmark.trans (Prod.ext hkeys rfl)⟩
  | included hp hd hr hl ih =>
    obtain ⟨e, -, hlike, qs, hqs, hall, hresolve⟩ := hnext hp hd ih
    obtain ⟨l', hl', hkeys⟩ := hresolve _ _ hl
    obtain ⟨e', he', hmark⟩ := hall (l', e.2.target?)
      ((mem_references hqs).2 (Or.inr ⟨_, hlike.includes ▸ hr, l', hl', rfl⟩))
    exact ⟨e', he', hmark.trans (Prod.ext hkeys hlike.target)⟩

/-- A document of which another one with its mark was taken in reads as that one, and can be loaded. -/
theorem Explored.reads (h : Explored fetch limits roots l ds) (hkey : KeyDetermined fetch)
    (hcoherent : Coherent fetch limits roots) (hp : Member fetch limits roots p)
    {e : Pending × Declarations} (he : e ∈ ds) (hmark : e.1.mark = p.mark) :
    (∃ i, ds[i]? = some e ∧ declarations fetch limits (i + 1) p = .ok e.2) ∧
      Loadable fetch limits p := by
  obtain ⟨hkeys, hincluder⟩ := Prod.mk.inj hmark
  obtain ⟨i, hi⟩ := List.getElem?_of_mem he
  have hread := h.read i e.1 e.2 hi
  have hsame := declarations_alike limits (hkey _ _ hkeys) hincluder (i + 1) (i + 1)
  rw [hread] at hsame
  cases hd : declarations fetch limits (i + 1) p with
  | error err =>
    rw [hd] at hsame
    exact hsame.elim
  | ok d =>
    rw [hd] at hsame
    refine ⟨⟨i, hi, hd.trans (congrArg Except.ok (hsame.eq rfl).symm)⟩, ?_⟩
    obtain ⟨d', hd', hlike⟩ := declarations_renumber hd 0
    obtain ⟨qs, hqs, -⟩ := h.followed e he
    have hreferences := references_alike (p := e.1) (q := p) (d := e.2)
      (hcoherent e.1 p (h.members e he) hp hkeys)
      ⟨hsame.target.trans hlike.target, hsame.imports.trans hlike.imports,
        hsame.includes.trans hlike.includes, (·.elim : False → _)⟩
    rw [hqs] at hreferences
    cases hqs' : references p d' with
    | error err =>
      rw [hqs'] at hreferences
      exact hreferences.elim
    | ok qs' => exact ⟨d', qs', hd', hqs'⟩

/-- The marks of the members of a closure. -/
def marks (fetch : Location → Except Error Bytes) (limits : Limits) (roots : List Location) :
    Set (String × Option String) :=
  {m | ∃ p, Member fetch limits roots p ∧ p.mark = m}

theorem encard_of_nodup {α : Type} [DecidableEq α] {xs : List α} (h : xs.Nodup) :
    {x | x ∈ xs}.encard = xs.length := by
  have hset : {x | x ∈ xs} = (↑xs.toFinset : Set α) := by
    ext x
    simp
  rw [hset, Set.encard_coe_eq_coe_finsetCard, List.toFinset_card_of_nodup h]

/-- The number of members is that of the documents taken in. -/
theorem Explored.encard_marks (h : Explored fetch limits roots l ds)
    (hend : ∀ q ∈ l.queue, q.mark ∈ l.seen) (hkey : KeyDetermined fetch)
    (hcoherent : Coherent fetch limits roots) :
    (marks fetch limits roots).encard ≤ limits.schemaDocuments := by
  have hmarks : marks fetch limits roots = {m | m ∈ l.seen} := by
    ext m
    constructor
    · rintro ⟨p, hp, rfl⟩
      obtain ⟨e, he, hmark⟩ := h.taken hend hkey hcoherent hp
      show p.mark ∈ l.seen
      rw [h.seen, List.mem_reverse, ← hmark]
      exact List.mem_map_of_mem he
    · intro hm
      obtain ⟨e, he, hmark⟩ := h.of_seen hm
      exact ⟨e.1, h.members e he, hmark⟩
  rw [hmarks, encard_of_nodup h.nodup]
  exact_mod_cast h.size

/-- Where all members can be loaded, and are not too many, no search fails. -/
theorem not_unloadable (hloadable : ∀ p, Member fetch limits roots p → Loadable fetch limits p)
    (hsize : (marks fetch limits roots).encard ≤ limits.schemaDocuments) :
    ¬ Unloadable fetch limits roots := by
  rintro (⟨p, hp, hno⟩ | ⟨ms, hnodup, hmembers, hlong⟩)
  · exact hno (hloadable p hp)
  · have hsub : {m | m ∈ ms} ⊆ marks fetch limits roots := hmembers
    have hle := (encard_of_nodup hnodup).symm.le.trans ((Set.encard_le_encard hsub).trans hsize)
    have : ms.length ≤ limits.schemaDocuments := by exact_mod_cast hle
    omega

end Explored

end Loading

end FeatureTables.Schema
