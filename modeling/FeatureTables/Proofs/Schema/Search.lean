import FeatureTables.Proofs.Schema.Reading
import FeatureTables.Schema.Closure
import Mathlib.Data.List.Nodup

/-!
The search for the documents of a closure. Which documents there are is said without the search
(`Member`). The search takes in one document after the other until there is none left, one fails, or
there are too many (`Loads`), and its bound on steps is never reached (`exists_loads`).
-/

namespace FeatureTables.Schema

open Xml

/-! ### The members of a closure -/

/-- What a document to load is told from others by: its key and the namespace of its includer. -/
def Pending.mark (p : Pending) : String × Option String := (p.1.key, p.2)

section Members

variable (fetch : Location → Except Error Bytes) (limits : Limits) (roots : List Location)

/-- What a document declares, as the one of number `n`. -/
def declarations (n : Nat) (p : Pending) : Except Error Declarations := do
  let bytes ← fetch p.1
  let document ← Document.parse limits bytes
  Declarations.read n p.1.toText p.2 document.root

/-- The documents that a document refers to: imported ones stand by themselves, and included ones get
its namespace. -/
def references (p : Pending) (d : Declarations) : Except Error (List Pending) := do
  let imports ← (d.imports.filterMap (·.2)).mapM fun r => do return (← p.1.resolve r, none)
  let includes ← d.includes.mapM fun r => do return (← p.1.resolve r, d.target?)
  return imports ++ includes

/-- The documents of the closure of `roots`. -/
inductive Member : Pending → Prop
  | root {l : Location} : l ∈ roots → Member (l, none)
  | imported {p : Pending} {d : Declarations} {namespace? : Option String} {r : String} {l : Location} :
    Member p → declarations fetch limits 0 p = .ok d → (namespace?, some r) ∈ d.imports →
      p.1.resolve r = .ok l → Member (l, none)
  | included {p : Pending} {d : Declarations} {r : String} {l : Location} :
    Member p → declarations fetch limits 0 p = .ok d → r ∈ d.includes →
      p.1.resolve r = .ok l → Member (l, d.target?)

/-- The document can be fetched and read, and its references stand for locations. -/
def Loadable (p : Pending) : Prop :=
  ∃ d qs, declarations fetch limits 0 p = .ok d ∧ references p d = .ok qs

/-- What a fetcher answers depends on the key of the location, but for the text of an error. -/
def KeyDetermined : Prop := ∀ a b : Location, a.key = b.key → Alike Eq (fetch a) (fetch b)

/-- Documents of the closure with one key resolve references alike. -/
def Coherent : Prop := ∀ p q, Member fetch limits roots p → Member fetch limits roots q →
  p.1.key = q.1.key → ∀ r, Alike (fun a b => a.key = b.key) (p.1.resolve r) (q.1.resolve r)

end Members

section References

variable {fetch : Location → Except Error Bytes} {limits : Limits} {p q : Pending}
  {d d' : Declarations} {qs : List Pending}

theorem mapM_eq_ok_iff {α β : Type} {f : α → Except Error β} {xs : List α} {ys : List β} :
    xs.mapM f = .ok ys ↔ List.Forall₂ (fun x y => f x = .ok y) xs ys := by
  induction xs generalizing ys with
  | nil =>
    rw [List.mapM_nil, List.forall₂_nil_left_iff]
    exact ⟨fun h => (Except.ok.inj h).symm, fun h => by rw [h]; rfl⟩
  | cons x xs ih =>
    rw [List.mapM_cons, bind_eq_ok_iff]
    constructor
    · rintro ⟨y, hy, h⟩
      obtain ⟨zs, hzs, h⟩ := bind_eq_ok_iff.1 h
      obtain rfl := Except.ok.inj h
      exact .cons hy (ih.1 hzs)
    · intro h
      cases h with
      | cons hy hys => exact ⟨_, hy, bind_eq_ok_iff.2 ⟨_, ih.2 hys, rfl⟩⟩

theorem mem_mapM {α β : Type} {f : α → Except Error β} {xs : List α} {ys : List β}
    (h : xs.mapM f = .ok ys) {y : β} : y ∈ ys ↔ ∃ x ∈ xs, f x = .ok y := by
  rw [mapM_eq_ok_iff] at h
  induction h with
  | nil => simp
  | @cons x z xs ys hz _ ih =>
    rw [List.mem_cons, List.exists_mem_cons_iff, ih, hz, Except.ok.injEq, eq_comm]

theorem mem_references (h : references p d = .ok qs) : q ∈ qs ↔
    (∃ ns r l, (ns, some r) ∈ d.imports ∧ p.1.resolve r = .ok l ∧ q = (l, none)) ∨
      ∃ r ∈ d.includes, ∃ l, p.1.resolve r = .ok l ∧ q = (l, d.target?) := by
  simp only [references, bind_eq_ok_iff] at h
  obtain ⟨imports, himports, includes, hincludes, h⟩ := h
  obtain rfl := Except.ok.inj h
  have hone : ∀ (r : String) (namespace? : Option String),
      (do return (← p.1.resolve r, namespace?) : Except Error Pending) = .ok q ↔
        ∃ l, p.1.resolve r = .ok l ∧ q = (l, namespace?) := by
    intro r namespace?
    rw [bind_eq_ok_iff]
    exact exists_congr fun l => and_congr_right fun _ =>
      ⟨fun h => (Except.ok.inj h).symm, fun h => h ▸ rfl⟩
  rw [List.mem_append, mem_mapM himports, mem_mapM hincludes]
  simp only [hone, List.mem_filterMap]
  refine or_congr ⟨?_, ?_⟩ Iff.rfl
  · rintro ⟨r, ⟨⟨ns, r?⟩, hmem, rfl⟩, l, hl, hq⟩
    exact ⟨ns, r, l, hmem, hl, hq⟩
  · rintro ⟨ns, r, l, hmem, hl, hq⟩
    exact ⟨r, ⟨(ns, some r), hmem, rfl⟩, l, hl, hq⟩

theorem alike_mapM {α β γ : Type} {f g : α → Except Error β} (key : β → γ) {xs : List α}
    (h : ∀ x ∈ xs, Alike (fun a b => key a = key b) (f x) (g x)) :
    Alike (fun as bs => as.map key = bs.map key) (xs.mapM f) (xs.mapM g) := by
  induction xs with
  | nil => exact rfl
  | cons x xs ih =>
    rw [List.mapM_cons, List.mapM_cons]
    refine (h x List.mem_cons_self).bind fun a b hab => ?_
    refine (ih fun y hy => h y (List.mem_cons_of_mem _ hy)).bind fun as bs has => ?_
    show List.map key (a :: as) = List.map key (b :: bs)
    rw [List.map_cons, List.map_cons, hab, has]

/-- Documents with the same bytes and the same includer declare alike. -/
theorem declarations_alike (limits : Limits) (hfetch : Alike Eq (fetch p.1) (fetch q.1)) (hincluder : p.2 = q.2)
    (n n' : Nat) : Alike (Declarations.Like (n = n')) (declarations fetch limits n p)
      (declarations fetch limits n' q) := by
  unfold declarations
  refine hfetch.bind ?_
  rintro bytes _ rfl
  refine (alike_eq _).bind ?_
  rintro document _ rfl
  rw [hincluder]
  exact read_alike n n' _ _ _ _

/-- Documents that declare and resolve alike refer to documents of the same marks. -/
theorem references_alike
    (h : ∀ r, Alike (fun a b => a.key = b.key) (p.1.resolve r) (q.1.resolve r)) {same : Prop}
    (hd : d.Like same d') : Alike (fun qs qs' => qs.map Pending.mark = qs'.map Pending.mark)
      (references p d) (references q d') := by
  have hone : ∀ (r : String) (namespace? : Option String),
      Alike (fun a b => Pending.mark a = Pending.mark b)
        (do return (← p.1.resolve r, namespace?)) (do return (← q.1.resolve r, namespace?)) :=
    fun r namespace? => (h r).bind fun a b hab => Prod.ext hab rfl
  unfold references
  rw [hd.imports, hd.includes, hd.target]
  refine (alike_mapM Pending.mark fun r _ => hone r none).bind fun as bs has => ?_
  refine (alike_mapM Pending.mark fun r _ => hone r d'.target?).bind fun as' bs' has' => ?_
  show List.map _ _ = List.map _ _
  rw [List.map_append, List.map_append, has, has']

end References

/-- The catalog with what a document declares, and where. -/
def Catalog.adding (c : Catalog) (e : Pending × Declarations) : Catalog :=
  let c := if c.namespaces.contains e.2.target? then c
    else { c with namespaces := c.namespaces ++ [e.2.target?] }
  let c := if c.locations.any (·.same e.1.1) then c
    else { c with locations := c.locations ++ [e.1.1] }
  c.register e.2

namespace Loading

/-! ### One step -/

section Step

variable {fetch : Location → Except Error Bytes} {limits : Limits} {seen : List (String × Option String)}
  {catalog : Catalog} {queue : List Pending} {l l' : Loading} {p : Pending} {bytes : Bytes}

theorem next?_cons (q : Pending) : next? limits seen catalog (q :: queue) =
    if q.mark ∈ seen then next? limits seen catalog queue
    else do
      limits.checkSchemaDocuments (seen.length + 1)
      return some (q, { queue, seen := q.mark :: seen, catalog }) := by
  by_cases h : q.mark ∈ seen
  · have hmark : seen.contains (q.1.key, q.2) = true := List.contains_iff_mem.2 h
    simp only [next?, hmark, h, if_true]
  · have hmark : ¬ seen.contains (q.1.key, q.2) = true := fun hmem => h (List.contains_iff_mem.1 hmem)
    simp only [next?, hmark, h, if_false]
    rfl

/-- The next document is the first one in the queue that was not seen before. -/
theorem next?_cases (limits : Limits) (seen : List (String × Option String)) (catalog : Catalog)
    (queue : List Pending) :
    (next? limits seen catalog queue = .ok none ∧ ∀ q ∈ queue, q.mark ∈ seen) ∨
    (∃ p ∈ queue, p.mark ∉ seen ∧ limits.schemaDocuments < seen.length + 1 ∧
      ∃ e, next? limits seen catalog queue = .error e) ∨
    ∃ p before after, queue = before ++ p :: after ∧ (∀ q ∈ before, q.mark ∈ seen) ∧
      p.mark ∉ seen ∧ seen.length + 1 ≤ limits.schemaDocuments ∧
      next? limits seen catalog queue =
        .ok (some (p, { queue := after, seen := p.mark :: seen, catalog })) := by
  induction queue with
  | nil => exact Or.inl ⟨rfl, fun q hq => by cases hq⟩
  | cons q queue ih =>
    rw [next?_cons]
    by_cases hseen : q.mark ∈ seen
    · rw [if_pos hseen]
      rcases ih with ⟨h, hall⟩ | ⟨p, hp, h⟩ | ⟨p, before, after, rfl, hbefore, h⟩
      · exact Or.inl ⟨h, List.forall_mem_cons.2 ⟨hseen, hall⟩⟩
      · exact Or.inr (Or.inl ⟨p, List.mem_cons_of_mem _ hp, h⟩)
      · exact Or.inr (Or.inr ⟨p, q :: before, after, rfl,
          List.forall_mem_cons.2 ⟨hseen, hbefore⟩, h⟩)
    · rw [if_neg hseen]
      by_cases hlimit : seen.length + 1 ≤ limits.schemaDocuments
      · have hcheck : limits.checkSchemaDocuments (seen.length + 1) = .ok () :=
          Limits.guardAtMost_eq_ok_iff.2 hlimit
        refine Or.inr (Or.inr ⟨q, [], queue, rfl, by simp, hseen, hlimit, ?_⟩)
        rw [hcheck]
        rfl
      · refine Or.inr (Or.inl ⟨q, List.mem_cons_self, hseen, by omega, ?_⟩)
        unfold Limits.checkSchemaDocuments Limits.guardAtMost
        rw [if_pos (by omega)]
        exact ⟨_, rfl⟩

theorem mem_queue_of_next? (h : next? limits seen catalog queue = .ok (some (p, l))) : p ∈ queue := by
  rcases next?_cases limits seen catalog queue with ⟨h', -⟩ | ⟨q, -, -, -, e, h'⟩ |
    ⟨q, before, after, rfl, -, -, -, h'⟩
  · rw [h] at h'
    cases h'
  · rw [h] at h'
    cases h'
  · rw [h] at h'
    cases h'
    simp

/-- A document that was fetched is taken in if it can be read, and its references stand for
locations. -/
theorem take_eq_ok_iff (hbytes : fetch p.1 = .ok bytes) : l.take limits p bytes = .ok l' ↔
    ∃ d qs, declarations fetch limits l.seen.length p = .ok d ∧ references p d = .ok qs ∧
      l' = { l with queue := l.queue ++ qs, catalog := l.catalog.adding (p, d) } := by
  simp only [take, declarations, references, hbytes, bind_eq_ok_iff]
  constructor
  · rintro ⟨document, hdocument, d, hd, imports, himports, includes, hincludes, h⟩
    refine ⟨d, imports ++ includes, ⟨bytes, rfl, document, hdocument, hd⟩,
      ⟨imports, himports, includes, hincludes, rfl⟩, ?_⟩
    rw [← List.append_assoc]
    exact (Except.ok.inj h).symm
  · rintro ⟨d, qs, ⟨_, hb, document, hdocument, hd⟩, ⟨imports, himports, includes, hincludes, h⟩, rfl⟩
    obtain rfl := Except.ok.inj hb
    obtain rfl := Except.ok.inj h
    refine ⟨document, hdocument, d, hd, imports, himports, includes, hincludes, ?_⟩
    rw [← List.append_assoc]
    rfl

end Step

/-! ### Runs -/

/-- A fetcher that notes what it fetches. -/
def logged (fetch : Location → Except Error Bytes) (l : Location) :
    StateM (List Location) (Except Error Bytes) := fun log => (fetch l, log ++ [l])

/-- The search fetches these documents and ends so. -/
inductive Loads (fetch : Location → Except Error Bytes) (limits : Limits) :
    Loading → List Pending → Except Error Catalog → Prop
  | done {l : Loading} : next? limits l.seen l.catalog l.queue = .ok none →
    Loads fetch limits l [] (.ok l.catalog)
  | excess {l : Loading} {e : Error} : next? limits l.seen l.catalog l.queue = .error e →
    Loads fetch limits l [] (.error e)
  | unfetched {l l' : Loading} {p : Pending} {e : Error} :
    next? limits l.seen l.catalog l.queue = .ok (some (p, l')) → fetch p.1 = .error e →
      Loads fetch limits l [p] (.error (fetchError p.1 e))
  | untaken {l l' : Loading} {p : Pending} {bytes : Bytes} {e : Error} :
    next? limits l.seen l.catalog l.queue = .ok (some (p, l')) → fetch p.1 = .ok bytes →
      l'.take limits p bytes = .error e → Loads fetch limits l [p] (.error e)
  | taken {l l' l'' : Loading} {p : Pending} {bytes : Bytes} {ps : List Pending}
      {r : Except Error Catalog} :
    next? limits l.seen l.catalog l.queue = .ok (some (p, l')) → fetch p.1 = .ok bytes →
      l'.take limits p bytes = .ok l'' → Loads fetch limits l'' ps r →
        Loads fetch limits l (p :: ps) r

section Runs

variable {fetch : Location → Except Error Bytes} {limits : Limits}

theorem run_logged (k : Nat) (l : Loading) (log : List Location) :
    (run (logged fetch) limits (k + 1) l).run log =
      match next? limits l.seen l.catalog l.queue with
      | .error e => (.error e, log)
      | .ok none => (.ok l.catalog, log)
      | .ok (some (p, l')) =>
        match fetch p.1 with
        | .error e => (.error (fetchError p.1 e), log ++ [p.1])
        | .ok bytes =>
          match l'.take limits p bytes with
          | .error e => (.error e, log ++ [p.1])
          | .ok l'' => (run (logged fetch) limits k l'').run (log ++ [p.1]) := by
  rw [run]
  cases next? limits l.seen l.catalog l.queue with
  | error e => rfl
  | ok next =>
    cases next with
    | none => rfl
    | some next =>
      obtain ⟨p, l'⟩ := next
      dsimp only
      rw [StateT.run_bind]
      show (StateT.run (match fetch p.1 with | .error e => _ | .ok bytes => _) (log ++ [p.1])) = _
      cases fetch p.1 with
      | error e => rfl
      | ok bytes =>
        dsimp only
        cases l'.take limits p bytes <;> rfl

/-- To note what is fetched changes nothing. -/
theorem run_eq_logged (k : Nat) (l : Loading) (log : List Location) :
    run (m := Id) fetch limits k l = ((run (logged fetch) limits k l).run log).1 := by
  induction k generalizing l log with
  | zero => rfl
  | succ k ih =>
    rw [run_logged, run]
    cases next? limits l.seen l.catalog l.queue with
    | error e => rfl
    | ok next =>
      cases next with
      | none => rfl
      | some next =>
        obtain ⟨p, l'⟩ := next
        dsimp only
        show (match fetch p.1 with | .error e => _ | .ok bytes => _) = _
        cases fetch p.1 with
        | error e => rfl
        | ok bytes =>
          dsimp only
          cases l'.take limits p bytes with
          | error e => rfl
          | ok l'' => exact ih l'' _

/-- The search ends before its steps are used up, and fetches no more documents than the limit
allows. -/
theorem exists_loads (fetch : Location → Except Error Bytes) (limits : Limits) (n : Nat) (l : Loading)
    (hseen : l.seen.length ≤ limits.schemaDocuments)
    (hn : limits.schemaDocuments + 1 ≤ n + l.seen.length) :
    ∃ ps r, Loads fetch limits l ps r ∧ ps.length + l.seen.length ≤ limits.schemaDocuments ∧
      ∀ k, n ≤ k → ∀ log, (run (logged fetch) limits k l).run log = (r, log ++ ps.map (·.1)) := by
  induction n generalizing l with
  | zero => omega
  | succ n ih =>
    have hstep : ∀ {P : Nat → Prop}, (∀ k, n ≤ k → P (k + 1)) → ∀ k, n + 1 ≤ k → P k := by
      intro P h k hk
      obtain ⟨k, rfl⟩ := Nat.exists_eq_succ_of_ne_zero (by omega : k ≠ 0)
      exact h k (by omega)
    rcases next?_cases limits l.seen l.catalog l.queue with ⟨h, -⟩ | ⟨p, -, -, -, e, h⟩ |
      ⟨p, before, after, -, -, -, hlimit, h⟩
    · refine ⟨[], _, .done h, by simpa using hseen, hstep fun k _ log => ?_⟩
      rw [run_logged, h, List.map_nil, List.append_nil]
    · refine ⟨[], _, .excess h, by simpa using hseen, hstep fun k _ log => ?_⟩
      rw [run_logged, h, List.map_nil, List.append_nil]
    · have hone : [p].length + l.seen.length ≤ limits.schemaDocuments := by
        rw [List.length_singleton]
        omega
      cases hfetch : fetch p.1 with
      | error e =>
        refine ⟨[p], _, .unfetched h hfetch, hone, hstep fun k _ log => ?_⟩
        rw [run_logged, h]
        simp only [hfetch, List.map_singleton]
      | ok bytes =>
        cases htake : take limits ⟨after, p.mark :: l.seen, l.catalog⟩ p bytes with
        | error e =>
          refine ⟨[p], _, .untaken h hfetch htake, hone, hstep fun k _ log => ?_⟩
          rw [run_logged, h]
          simp only [hfetch, htake, List.map_singleton]
        | ok l' =>
          have hseen' : l'.seen = p.mark :: l.seen := by
            obtain ⟨d, qs, -, -, rfl⟩ := (take_eq_ok_iff hfetch).1 htake
            rfl
          obtain ⟨ps, r, hloads, hlength, hrun⟩ := ih l' (by simpa [hseen'] using hlimit)
            (by rw [hseen', List.length_cons]; omega)
          rw [hseen', List.length_cons] at hlength
          refine ⟨p :: ps, r, .taken h hfetch htake hloads, by rw [List.length_cons]; omega,
            hstep fun k hk log => ?_⟩
          rw [run_logged, h]
          simp only [hfetch, htake, hrun k hk, List.map_cons, List.append_assoc, List.singleton_append]

end Runs

end Loading

end FeatureTables.Schema
