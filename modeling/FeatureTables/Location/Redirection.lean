import FeatureTables.Location
import FeatureTables.OrderedMap
import FeatureTables.Xml.Source

/-!
Catalogs that say which location stands for another: one for one, or all that start alike. A catalog
may name further catalogs; references in it start from its own location.
-/

namespace FeatureTables

open Text Xml

structure Redirection where
  exact : OrderedMap String Location := {}
  /-- Starts of locations, each with the directory that stands for it. -/
  starts : List (String × Location) := []
deriving Inhabited

namespace Redirection

/-! ### Looking up -/

/-- Of the starts of a text the longest, and of these the last. -/
def longest? (s : String) (starts : List (String × Location)) : Option (String × Location) :=
  (starts.filter fun p => startsWith s p.1).foldl (fun best? p =>
    match best? with
    | some best => if best.1.length ≤ p.1.length then some p else some best
    | none => some p) none

/-- A location below a directory. -/
def below? (dir : Location) (rest : String) : Option Location :=
  match dir with
  | .path p => some (.path (Path.join p rest))
  | .url u => (u.join? rest).map .url
  | .name s =>
    let stem := String.ofList (s.toList.reverse.dropWhile (· == '/')).reverse
    some (.name (stem ++ "/" ++ rest))

/-- The location that stands for another, if the catalog knows it. -/
def resolve? (r : Redirection) (location : String) : Option Location :=
  match r.exact.get? location with
  | some l => some l
  | none => do
    let (start, dir) ← longest? location r.starts
    let rest := (location.toList.drop start.length).dropWhile (· == '/')
    below? dir (String.ofList rest)

/-- The number of mappings. -/
def size (r : Redirection) : Nat := r.exact.size + r.starts.length

/-! ### Entries of catalogs -/

inductive Entry where
  | exact (location reference : String)
  | start (start reference : String)
  /-- Another catalog. -/
  | next (reference : String)
deriving DecidableEq

/-- The entry that an element makes; one that lacks an attribute makes none. -/
def entryOf? (e : Element) : Option Entry :=
  match e.localName with
  | "system" => do return .exact (← e.attribute? "systemId") (← e.attribute? "uri")
  | "uri" => do return .exact (← e.attribute? "name") (← e.attribute? "uri")
  | "rewriteSystem" | "rewriteURI" => do
    let start ← (e.attribute? "systemIdStartString").or (e.attribute? "uriStartString")
    let reference ← e.attribute? "rewritePrefix"
    return .start start (if endsWith reference "/" then reference else reference ++ "/")
  | "nextCatalog" => (e.attribute? "catalog").map .next
  | _ => none

mutual
/-- The entries of an element, those inside of groups too. -/
def entries : Element → List Entry
  | ⟨id, name, attributes, text?, children, scope⟩ =>
    if name.localName = "group" then entriesAmong children
    else (entryOf? ⟨id, name, attributes, text?, children, scope⟩).toList
def entriesAmong : List Element → List Entry
  | [] => []
  | e :: es => entries e ++ entriesAmong es
end

/-- The entries of a whole catalog. -/
def catalogEntries (root : Element) : Except Error (List Entry) :=
  if root.localName = "catalog" then .ok (entriesAmong root.children)
  else .error (.parse ("Expected catalog root element, got " ++ root.localName) none)

/-! ### Reading catalogs -/

variable {m : Type → Type} [Monad m] [FileAccess m]

/-- Adds an entry of a catalog at `base`; `follow` adds another catalog. A catalog that is no file
that is there is passed over. -/
def add (follow : String → Redirection → ExceptT Error m Redirection) (base : Location) (r : Redirection) :
    Entry → ExceptT Error m Redirection
  | .exact location reference => do
    return { r with exact := r.exact.put location (← base.resolve reference) }
  | .start start reference => do
    return { r with starts := r.starts ++ [(start, ← base.resolve reference)] }
  | .next reference => do
    match ← base.resolve reference with
    | .path path =>
      if ← (FileAccess.exists? path : m Bool) then follow path r else return r
    | _ => return r

/-- How many catalogs may lie between the first and another. -/
def maxNesting : Nat := 16

/-- Adds the entries of a file; `n` is how many levels are left, this one included. -/
def addFile : Nat → String → Redirection → ExceptT Error m Redirection
  | 0, path, _ => throw (.limitExceeded (.catalogNesting maxNesting path))
  | n + 1, path, r => do
    let document ← (Document.ofFile {} path).adapt fun e =>
      .resource ("Failed to read catalog '" ++ path ++ "': " ++ e.message)
    (← catalogEntries document.root).foldlM (add (addFile n) (.path path)) r

/-- The catalog of a file and of the catalogs that it names. -/
def ofFile (path : String) : ExceptT Error m Redirection := addFile (maxNesting + 1) path {}

/-- The catalog of a text at a location. -/
def ofText (base : Location) (text : String) : ExceptT Error m Redirection := do
  let document ← Document.ofText text
  (← catalogEntries document.root).foldlM (add (addFile maxNesting) base) {}

end Redirection
end FeatureTables
