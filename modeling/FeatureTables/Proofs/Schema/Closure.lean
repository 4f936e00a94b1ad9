import FeatureTables.Proofs.OrderedMap
import FeatureTables.Proofs.Schema.Exploration

/-!
Loading a closure. It fetches no more documents than the limit allows, and it succeeds if and only if
all members of the closure can be loaded and are not too many; then each component of each member is
found by its name, unless one that comes later has the name (`load_closure`). Of components with one
name the last one counts also in a document, and the XSD namespace has the builtin types only.
-/

namespace FeatureTables

/-- Each entry is found by its key, unless one behind it has the same key. -/
def Finds {κ α : Type} (find : κ → Option α) (es : List (κ × α)) : Prop :=
  ∀ before k v after, es = before ++ (k, v) :: after → (∀ e ∈ after, e.1 ≠ k) → find k = some v

section Finds

variable {κ α : Type}

/-- Keys that are told by their looks can be found in another way, or left out. -/
theorem Finds.filter {find find' : κ → Option α} {es : List (κ × α)} (h : Finds find es)
    {p : κ → Bool} (hp : ∀ k, p k = true → find' k = find k) :
    Finds find' (es.filter fun e => p e.1) := by
  intro before k v after hes hafter
  obtain ⟨before', rest, rfl, -, hrest⟩ := List.filter_eq_append_iff.1 hes
  obtain ⟨skipped, after', rfl, -, hk, rfl⟩ := List.filter_eq_cons_iff.1 hrest
  rw [hp k hk]
  refine h (before' ++ skipped) k v after' (by simp) fun e he hek => ?_
  exact hafter e (List.mem_filter.2 ⟨he, hek ▸ hk⟩) hek

variable [DecidableEq κ]

theorem get?_putAll_of_not_mem {m : OrderedMap κ α} {es : List (κ × α)} {k : κ}
    (h : ∀ e ∈ es, e.1 ≠ k) : (m.putAll es).get? k = m.get? k := by
  induction es generalizing m with
  | nil => rfl
  | cons e es ih =>
    show ((m.put e.1 e.2).putAll es).get? k = _
    rw [ih fun x hx => h x (List.mem_cons_of_mem _ hx), OrderedMap.get?_put,
      if_neg (h e List.mem_cons_self).symm]

theorem putAll_append (m : OrderedMap κ α) (es es' : List (κ × α)) :
    m.putAll (es ++ es') = (m.putAll es).putAll es' := List.foldl_append

theorem finds_putAll (m : OrderedMap κ α) (es : List (κ × α)) : Finds (m.putAll es).get? es := by
  rintro before k v after rfl hafter
  rw [putAll_append]
  show (((m.putAll before).put k v).putAll after).get? k = some v
  rw [get?_putAll_of_not_mem hafter, OrderedMap.get?_put, if_pos rfl]

end Finds

namespace Schema

open Loading Xml

/-! ### Components -/

namespace Declarations

/-- The global elements by their names. -/
def namedElements (d : Declarations) : List (QName × ElementDecl) := d.elements.map fun e => (e.name, e)

def namedTypes (d : Declarations) : List (QName × TypeDef) :=
  d.types.filterMap fun t => t.name?.map fun n => (n, t)

def namedAttributes (d : Declarations) : List (QName × AttributeDecl) :=
  d.attributes.map fun a => (a.name, a)

end Declarations

/-- The components of documents, in the order of loading, are found by their names; types of the XSD
namespace are left out. -/
structure Catalog.Holds (c : Catalog) (ds : List Declarations) : Prop where
  elements : Finds c.elements.get? (ds.flatMap (·.namedElements))
  types : Finds c.type? ((ds.flatMap (·.namedTypes)).filter fun e => e.1.ns? ≠ some xsdNamespace)
  attributes : Finds c.attributes.get? (ds.flatMap (·.namedAttributes))
  attributeGroups : Finds c.attributeGroups.get? (ds.flatMap (·.attributeGroups))
  groups : Finds c.groups.get? (ds.flatMap (·.groups))

section Components

/-- A map into which each document puts its entries has those of all documents. -/
theorem foldl_adding {κ α : Type} [DecidableEq κ] {part : Catalog → OrderedMap κ α}
    {entries : Declarations → List (κ × α)}
    (h : ∀ c e, part (Catalog.adding c e) = (part c).putAll (entries e.2)) (c : Catalog)
    (ds : List (Pending × Declarations)) : part (ds.foldl Catalog.adding c) =
      (part c).putAll ((ds.map (·.2)).flatMap entries) := by
  induction ds generalizing c with
  | nil => rfl
  | cons e ds ih =>
    rw [List.foldl_cons, ih, h, List.map_cons, List.flatMap_cons, putAll_append]

/-- Each kind of component of a document is put into the map of its kind. -/
theorem adding_parts (c : Catalog) (e : Pending × Declarations) :
    (c.adding e).elements = c.elements.putAll e.2.namedElements ∧
    (c.adding e).types = c.types.putAll e.2.namedTypes ∧
    (c.adding e).attributes = c.attributes.putAll e.2.namedAttributes ∧
    (c.adding e).attributeGroups = c.attributeGroups.putAll e.2.attributeGroups ∧
    (c.adding e).groups = c.groups.putAll e.2.groups := by
  unfold Catalog.adding
  dsimp only
  split <;> split <;> exact ⟨rfl, rfl, rfl, rfl, rfl⟩

theorem finds_adding {κ α : Type} [DecidableEq κ] {part : Catalog → OrderedMap κ α}
    {entries : Declarations → List (κ × α)}
    (h : ∀ c e, part (Catalog.adding c e) = (part c).putAll (entries e.2))
    (ds : List (Pending × Declarations)) :
    Finds (part (ds.foldl Catalog.adding {})).get? ((ds.map (·.2)).flatMap entries) := by
  rw [foldl_adding h]
  exact finds_putAll _ _

theorem holds_adding (ds : List (Pending × Declarations)) :
    (ds.foldl Catalog.adding {}).Holds (ds.map (·.2)) where
  elements := finds_adding (fun c e => (adding_parts c e).1) ds
  types := by
    refine (finds_adding (fun c e => (adding_parts c e).2.1) ds).filter
      (p := fun n => decide (n.ns? ≠ some xsdNamespace)) fun n hn => ?_
    unfold Catalog.type?
    rw [if_neg (by simpa using hn)]
  attributes := finds_adding (fun c e => (adding_parts c e).2.2.1) ds
  attributeGroups := finds_adding (fun c e => (adding_parts c e).2.2.2.1) ds
  groups := finds_adding (fun c e => (adding_parts c e).2.2.2.2) ds

end Components

/-! ### Closures -/

/-- The catalog has been made of these documents, one for each mark of a member of the closure. -/
structure Made (fetch : Location → Except Error Bytes) (limits : Limits) (roots : List Location)
    (c : Catalog) (ds : List (Pending × Declarations)) : Prop where
  nodup : (ds.map (·.1.mark)).Nodup
  members : ∀ e ∈ ds, Member fetch limits roots e.1
  reads : ∀ p, Member fetch limits roots p → ∃ i e, ds[i]? = some e ∧ e.1.mark = p.mark ∧
    declarations fetch limits (i + 1) p = .ok e.2
  holds : c.Holds (ds.map (·.2))

/-- Loading a closure ends with at most as many fetches as the limit allows, whatever the fetcher
answers. It succeeds if and only if the members can be loaded and are not too many, and then all their
components are found. -/
theorem load_closure (fetch : Location → Except Error Bytes) (limits : Limits)
    (roots : List Location) :
    (∃ fetched : List Location, fetched.length ≤ limits.schemaDocuments ∧
      (Catalog.loadWith (logged fetch) limits roots).run [] =
        (Catalog.load fetch limits roots, fetched) ∧
      ∀ more, (Loading.run (logged fetch) limits (limits.schemaDocuments + 1 + more)
        { queue := roots.map fun r => (r, none) }).run [] =
          (Catalog.load fetch limits roots, fetched)) ∧
    (KeyDetermined fetch → Coherent fetch limits roots →
      ((∃ c, Catalog.load fetch limits roots = .ok c) ↔
        (∀ p, Member fetch limits roots p → Loadable fetch limits p) ∧
          (marks fetch limits roots).encard ≤ limits.schemaDocuments) ∧
      ∀ c, Catalog.load fetch limits roots = .ok c → ∃ ds, Made fetch limits roots c ds) := by
  obtain ⟨ps, r, hloads, hlength, hrun⟩ := exists_loads fetch limits
    (limits.schemaDocuments + 1) { queue := roots.map fun r => (r, none) } (Nat.zero_le _) (by simp)
  have hresult : Catalog.load fetch limits roots = r := by
    show Loading.run (m := Id) fetch limits (limits.schemaDocuments + 1) _ = r
    rw [run_eq_logged _ _ [], hrun _ (Nat.le_refl _)]
  refine ⟨⟨ps.map (·.1), by simpa using hlength, ?_, fun more => ?_⟩, fun hkey hcoherent => ?_⟩
  · rw [hresult]
    exact hrun _ (Nat.le_refl _) []
  · rw [hresult]
    exact hrun _ (Nat.le_add_right _ _) []
  · rcases hloads.explored (explored_start fetch limits roots) with
      ⟨l, ds, rfl, hexplored, hend⟩ | ⟨⟨e, rfl⟩, hunloadable⟩
    · refine ⟨⟨fun _ => ⟨fun p hp => ?_, hexplored.encard_marks hend hkey hcoherent⟩,
        fun _ => ⟨_, hresult⟩⟩, fun c hc => ⟨ds, ?_⟩⟩
      · obtain ⟨e, he, hmark⟩ := hexplored.taken hend hkey hcoherent hp
        exact (hexplored.reads hkey hcoherent hp he hmark).2
      · rw [hresult] at hc
        obtain rfl := Except.ok.inj hc
        constructor
        case nodup =>
          have := hexplored.nodup
          rwa [hexplored.seen, List.nodup_reverse] at this
        case members => exact hexplored.members
        case reads =>
          intro p hp
          obtain ⟨e, he, hmark⟩ := hexplored.taken hend hkey hcoherent hp
          obtain ⟨⟨i, hi, hread⟩, -⟩ := hexplored.reads hkey hcoherent hp he hmark
          exact ⟨i, e, hi, hmark, hread⟩
        case holds =>
          rw [hexplored.catalog]
          exact holds_adding ds
    · refine ⟨⟨?_, fun ⟨hloadable, hsize⟩ => ?_⟩, fun c hc => ?_⟩
      · rintro ⟨c, hc⟩
        rw [hresult] at hc
        cases hc
      · exact absurd hunloadable (not_unloadable hloadable hsize)
      · rw [hresult] at hc
        cases hc

/-! ### Closures in memory -/

/-- Names are told apart by their keys. -/
theorem coherent_of_names {fetch : Location → Except Error Bytes} {limits : Limits}
    {roots : List Location} (h : ∀ p, Member fetch limits roots p → ∃ s, p.1 = .name s) :
    Coherent fetch limits roots := by
  intro p q hp hq hkeys r
  obtain ⟨s, hs⟩ := h p hp
  obtain ⟨t, ht⟩ := h q hq
  rw [hs, ht] at hkeys
  have hst : s = t := by
    simpa [Location.key, ← String.toList_inj] using hkeys
  rw [hs, ht, hst]
  cases (Location.name t).resolve r <;> trivial

/-- What has the roots and all references of its members has all members. -/
theorem member_of_closed {fetch : Location → Except Error Bytes} {limits : Limits}
    {roots : List Location} (ps : List Pending) (hroots : ∀ r ∈ roots, (r, none) ∈ ps)
    (h : ∀ p ∈ ps, ∀ d, declarations fetch limits 0 p = .ok d →
      (∀ r ∈ d.imports.filterMap (·.2), ∀ l, p.1.resolve r = .ok l → (l, none) ∈ ps) ∧
        ∀ r ∈ d.includes, ∀ l, p.1.resolve r = .ok l → (l, d.target?) ∈ ps) {p : Pending}
    (hp : Member fetch limits roots p) : p ∈ ps := by
  induction hp with
  | root hr => exact hroots _ hr
  | imported _ hd hr hl ih =>
    exact (h _ ih _ hd).1 _ (List.mem_filterMap.2 ⟨_, hr, rfl⟩) _ hl
  | included _ hd hr hl ih => exact (h _ ih _ hd).2 _ hr _ hl

theorem keyDetermined_memory (m : Memory) : KeyDetermined m.fetch := by
  intro a b hab
  unfold Memory.fetch
  rw [hab]
  cases m.lookup b.key with
  | none => exact trivial
  | some bytes => exact rfl

/-- Two documents that refer to each other: one includes the other, which imports it. -/
def mutualSchemas : Memory := Memory.ofDocuments [
  ("a.xsd", "<xs:schema xmlns:xs='http://www.w3.org/2001/XMLSchema' targetNamespace='urn:x'>" ++
    "<xs:include schemaLocation='b.xsd'/></xs:schema>"),
  ("b.xsd", "<xs:schema xmlns:xs='http://www.w3.org/2001/XMLSchema'>" ++
    "<xs:import schemaLocation='a.xsd'/><xs:element name='e'/></xs:schema>")]

/-- The closure of two documents that refer to each other has two members. -/
theorem load_mutual : KeyDetermined mutualSchemas.fetch ∧
    Coherent mutualSchemas.fetch { schemaDocuments := 2 } [.name "a.xsd"] ∧
    ∃ c, Catalog.load mutualSchemas.fetch { schemaDocuments := 2 } [.name "a.xsd"] = .ok c ∧
      (∀ p, Member mutualSchemas.fetch { schemaDocuments := 2 } [.name "a.xsd"] p →
        Loadable mutualSchemas.fetch { schemaDocuments := 2 } p) ∧
      (marks mutualSchemas.fetch { schemaDocuments := 2 } [.name "a.xsd"]).encard ≤ 2 ∧
      ∃ ds, Made mutualSchemas.fetch { schemaDocuments := 2 } [.name "a.xsd"] c ds := by
  have hclosed : [(Location.name "a.xsd", none), (.name "b.xsd", some "urn:x")].all (fun p =>
      (declarations mutualSchemas.fetch { schemaDocuments := 2 } 0 p).toOption.all fun d =>
        (d.imports.filterMap (·.2)).all (fun r => (p.1.resolve r).toOption.all fun l =>
          decide ((l, none) ∈ [(Location.name "a.xsd", none), (.name "b.xsd", some "urn:x")])) &&
        d.includes.all fun r => (p.1.resolve r).toOption.all fun l =>
          decide ((l, d.target?) ∈ [(Location.name "a.xsd", none), (.name "b.xsd", some "urn:x")])) =
      true := by
    decide +kernel
  have hload : (Catalog.load mutualSchemas.fetch { schemaDocuments := 2 } [.name "a.xsd"]).toOption.isSome =
      true := by
    decide +kernel
  obtain ⟨c, hc⟩ := Option.isSome_iff_exists.1 hload
  rw [toOption_eq_some_iff] at hc
  have hnames : ∀ p, Member mutualSchemas.fetch { schemaDocuments := 2 } [.name "a.xsd"] p →
      ∃ s, p.1 = .name s := by
    intro p hp
    have hmem := member_of_closed [(Location.name "a.xsd", none), (.name "b.xsd", some "urn:x")]
      (by simp) (by
        intro p hp d hd
        have hall := List.all_eq_true.1 hclosed p hp
        rw [toOption_eq_some_iff.2 hd, Option.all_some, Bool.and_eq_true, List.all_eq_true,
          List.all_eq_true] at hall
        refine ⟨fun r hr l hl => ?_, fun r hr l hl => ?_⟩
        · simpa [toOption_eq_some_iff.2 hl] using hall.1 r hr
        · simpa [toOption_eq_some_iff.2 hl] using hall.2 r hr) hp
    simp only [List.mem_cons, List.not_mem_nil, or_false] at hmem
    rcases hmem with rfl | rfl
    · exact ⟨_, rfl⟩
    · exact ⟨_, rfl⟩
  have hkey := keyDetermined_memory mutualSchemas
  have hcoherent := coherent_of_names hnames
  obtain ⟨-, hclosure⟩ := load_closure mutualSchemas.fetch { schemaDocuments := 2 } [.name "a.xsd"]
  obtain ⟨hiff, hmade⟩ := hclosure hkey hcoherent
  obtain ⟨hloadable, hsize⟩ := hiff.1 ⟨c, hc⟩
  exact ⟨hkey, hcoherent, c, hc, hloadable, hsize, hmade c hc⟩

/-- A type in the XSD namespace, with the name of no builtin type. -/
def foreignTypeSchema : String :=
  "<xs:schema xmlns:xs='http://www.w3.org/2001/XMLSchema' " ++
  "targetNamespace='http://www.w3.org/2001/XMLSchema'>" ++
  "<xs:simpleType name='T'><xs:restriction base='xs:string'/></xs:simpleType></xs:schema>"

/-- Two elements of one name, of which the first one is nillable. -/
def doubledSchema : String :=
  "<xs:schema xmlns:xs='http://www.w3.org/2001/XMLSchema'><xs:element name='a' nillable='true'/>" ++
  "<xs:element name='a'/></xs:schema>"

/-- A document that includes another one by a relative reference. -/
def includingSchemas : Memory := Memory.ofDocuments [
  ("a", "<xs:schema xmlns:xs='http://www.w3.org/2001/XMLSchema'>" ++
    "<xs:include schemaLocation='b.xsd'/></xs:schema>"),
  ("b.xsd", "<xs:schema xmlns:xs='http://www.w3.org/2001/XMLSchema'/>")]

/-- A type of the only document is not found by its name, as it is in the XSD namespace; an element is
not found by its name, which only another one of its document has; and whether a closure can be loaded
depends on the order of roots, where a name and a URL that resolves no references have one key. -/
theorem components_missed :
    (∃ c d t n, Catalog.ofText foreignTypeSchema = .ok c ∧
      declarations (Memory.ofDocuments [("memory/schema.xsd", foreignTypeSchema)]).fetch {} 0
        (memoryLocation "memory/schema.xsd", none) = .ok d ∧
      t ∈ d.types ∧ t.name? = some n ∧ c.type? n = none) ∧
    (∃ c d e, Catalog.ofText doubledSchema = .ok c ∧
      declarations (Memory.ofDocuments [("memory/schema.xsd", doubledSchema)]).fetch {} 0
        (memoryLocation "memory/schema.xsd", none) = .ok d ∧
      e ∈ d.elements ∧ c.elements.get? e.name ≠ some e) ∧
    (∃ c, Catalog.load includingSchemas.fetch {} [memoryLocation "a", memoryLocation "mem:a"] = .ok c) ∧
    ∃ err, Catalog.load includingSchemas.fetch {} [memoryLocation "mem:a", memoryLocation "a"] =
      .error err := by
  refine ⟨?_, ?_, ?_, ?_⟩
  · have heval : ((Catalog.ofText foreignTypeSchema).toOption.bind fun c =>
        (declarations (Memory.ofDocuments [("memory/schema.xsd", foreignTypeSchema)]).fetch {} 0
          (memoryLocation "memory/schema.xsd", none)).toOption.map fun d =>
            d.types.any fun t => t.name?.any fun n => (c.type? n).isNone) = some true := by
      decide +kernel
    obtain ⟨c, hc, heval⟩ := Option.bind_eq_some_iff.1 heval
    obtain ⟨d, hd, heval⟩ := Option.map_eq_some_iff.1 heval
    rw [toOption_eq_some_iff] at hc hd
    obtain ⟨t, ht, heval⟩ := List.any_eq_true.1 heval
    cases hn : t.name? with
    | none => simp [hn] at heval
    | some n => exact ⟨c, d, t, n, hc, hd, ht, hn, by simpa [hn] using heval⟩
  · have heval : ((Catalog.ofText doubledSchema).toOption.bind fun c =>
        (declarations (Memory.ofDocuments [("memory/schema.xsd", doubledSchema)]).fetch {} 0
          (memoryLocation "memory/schema.xsd", none)).toOption.map fun d =>
            d.elements.any fun e => e.nillable && (c.elements.get? e.name).all (!·.nillable)) =
        some true := by
      decide +kernel
    obtain ⟨c, hc, heval⟩ := Option.bind_eq_some_iff.1 heval
    obtain ⟨d, hd, heval⟩ := Option.map_eq_some_iff.1 heval
    rw [toOption_eq_some_iff] at hc hd
    obtain ⟨e, he, heval⟩ := List.any_eq_true.1 heval
    refine ⟨c, d, e, hc, hd, he, fun hfound => ?_⟩
    rw [hfound] at heval
    simp at heval
  · have heval : (Catalog.load includingSchemas.fetch {}
        [memoryLocation "a", memoryLocation "mem:a"]).toOption.isSome = true := by
      decide +kernel
    obtain ⟨c, hc⟩ := Option.isSome_iff_exists.1 heval
    exact ⟨c, toOption_eq_some_iff.1 hc⟩
  · have heval : (Catalog.load includingSchemas.fetch {}
        [memoryLocation "mem:a", memoryLocation "a"]).toOption.isSome = false := by
      decide +kernel
    cases h : Catalog.load includingSchemas.fetch {} [memoryLocation "mem:a", memoryLocation "a"] with
    | error err => exact ⟨err, rfl⟩
    | ok c =>
      rw [h] at heval
      cases heval

end Schema

end FeatureTables
