import FeatureTables.Schema.Catalog
import FeatureTables.Xml.Document

/-!
The closure of root schema documents under imports and includes. Each document is fetched once for
each namespace that it takes from an includer; the limit on documents ends the search.
-/

namespace FeatureTables.Schema

open Xml

/-! ### The search -/

/-- A document to load, with the namespace of its includer. -/
abbrev Pending := Location × Option String

/-- A closure under construction: documents to load, those that were loaded, by key and includer,
and their components. -/
structure Loading where
  queue : List Pending
  seen : List (String × Option String) := []
  catalog : Catalog := {}

namespace Loading

/-- The next document to fetch, and the search once it is fetched; `none` at the end. -/
def next? (limits : Limits) (seen : List (String × Option String)) (catalog : Catalog) :
    List Pending → Except Error (Option (Pending × Loading))
  | [] => .ok none
  | p :: queue =>
    let mark := (p.1.key, p.2)
    if seen.contains mark then next? limits seen catalog queue
    else do
      limits.checkSchemaDocuments (seen.length + 1)
      return some (p, { queue, seen := mark :: seen, catalog })

/-- Takes in a document that was fetched. -/
def take (limits : Limits) (l : Loading) (p : Pending) (bytes : Bytes) : Except Error Loading := do
  let (location, includer?) := p
  let document ← Document.parse limits bytes
  let d ← Declarations.read l.seen.length location.toText includer? document.root
  let imports ← (d.imports.filterMap (·.2)).mapM fun r => do return (← location.resolve r, none)
  let includes ← d.includes.mapM fun r => do return (← location.resolve r, d.target?)
  let c := l.catalog
  let c := if c.namespaces.contains d.target? then c
    else { c with namespaces := c.namespaces ++ [d.target?] }
  let c := if c.locations.any (·.same location) then c
    else { c with locations := c.locations ++ [location] }
  return { l with queue := l.queue ++ imports ++ includes, catalog := c.register d }

/-- What a document that cannot be fetched means for the closure. -/
def fetchError (location : Location) : Error → Error
  | .cancelled => .cancelled
  | e => .schemaResolution (.unloadable e.message) { location? := some location.toText }

/-- Loads up to `n` documents. -/
def run {m : Type → Type} [Monad m] (fetch : Location → m (Except Error Bytes)) (limits : Limits) :
    Nat → Loading → m (Except Error Catalog)
  | 0, l => pure (.ok l.catalog)
  | n + 1, l =>
    match next? limits l.seen l.catalog l.queue with
    | .error e => pure (.error e)
    | .ok none => pure (.ok l.catalog)
    | .ok (some (p, l)) => do
      match ← fetch p.1 with
      | .error e => pure (.error (fetchError p.1 e))
      | .ok bytes =>
        match l.take limits p bytes with
        | .error e => pure (.error e)
        | .ok l => run fetch limits n l

end Loading

/-- The components of the closure of `roots`. The limit on documents bounds the steps: the one after
the last is the failed check. -/
def Catalog.loadWith {m : Type → Type} [Monad m] (fetch : Location → m (Except Error Bytes))
    (limits : Limits) (roots : List Location) : m (Except Error Catalog) :=
  Loading.run fetch limits (limits.schemaDocuments + 1) { queue := roots.map fun l => (l, none) }

/-- The components of the closure of `roots`, for documents that need no effect to fetch. -/
def Catalog.load (fetch : Location → Except Error Bytes) (limits : Limits)
    (roots : List Location) : Except Error Catalog :=
  Id.run (Catalog.loadWith fetch limits roots)

/-! ### Documents in memory -/

/-- Documents by the keys of their locations; of two with one key the later counts. -/
abbrev Memory := List (String × Bytes)

/-- The location of a document that is only in memory. -/
def memoryLocation (s : String) : Location := Location.read (fun _ => false) s

def Memory.ofDocuments (documents : List (String × String)) : Memory :=
  (documents.map fun (location, text) => ((memoryLocation location).key, Text.utf8 text)).reverse

def Memory.fetch (m : Memory) (location : Location) : Except Error Bytes :=
  match m.lookup location.key with
  | some bytes => .ok bytes
  | none => .error (.resource ("No in-memory resource for '" ++ location.toText ++ "'"))

/-- The closure of the first document; the others are there for its references. -/
def Catalog.ofDocuments (documents : List (String × String)) : Except Error Catalog :=
  Catalog.load (Memory.ofDocuments documents).fetch {}
    ((documents.take 1).map fun (location, _) => memoryLocation location)

/-- The components of one document. -/
def Catalog.ofText (text : String) : Except Error Catalog :=
  Catalog.ofDocuments [("memory/schema.xsd", text)]

end FeatureTables.Schema
