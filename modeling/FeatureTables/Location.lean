import FeatureTables.Error
import FeatureTables.Location.Path
import FeatureTables.Location.Url

/-!
Locations of resources: files, URLs, and names that mean something only to whoever hands out the
resources. A reference in a document is resolved against the location of the document, and two
locations with one key are one resource.
-/

namespace FeatureTables

open Text

inductive Location where
  | path (path : String)
  | url (url : Url)
  | name (name : String)
deriving DecidableEq, Inhabited

namespace Location

def toText : Location → String
  | path p => p
  | url u => u.toText
  | name s => s

/-- The text that is the same for all spellings of a resource. -/
def key : Location → String
  | path p => "file:" ++ Path.normalize p
  | url u => u.withoutFragment.toText
  | name s => "mem:" ++ s

def isRemote : Location → Bool
  | url _ => true
  | _ => false

def isFile : Location → Bool
  | path _ => true
  | _ => false

/-- The same location; paths are compared by their components. -/
def same : Location → Location → Bool
  | path p, path q => Path.same p q
  | a, b => a == b

/-- A scheme of one letter is a drive. -/
def hasScheme (u : Url) : Bool := 1 < u.scheme.utf8ByteSize

/-- The location that a URL stands for; a file URL without a usable path is none. -/
def ofUrl? (u : Url) : Option Location :=
  if Url.isFile u.scheme then u.filePath?.map fun p => path (Path.normalize p)
  else if hasScheme u then some (url u)
  else none

/-- Reads a location: a URL, a path that exists, is absolute or starts with a dot, or a name. -/
def read (exists? : String → Bool) (s : String) : Location :=
  match (Url.read? s).bind ofUrl? with
  | some l => l
  | none =>
    if exists? s ∨ Path.isAbsolute s ∨ startsWith s "." then path (Path.normalize s) else name s

/-- The part of a name up to its last slash. -/
def nameDirectory (s : String) : String :=
  String.ofList (s.toList.reverse.dropWhile (· != '/')).reverse

/-- The location that `reference` stands for in the document at this location. -/
def resolve (l : Location) (reference : String) : Except Error Location :=
  match (Url.read? reference).filter hasScheme with
  | some _ => .ok (read (fun _ => false) reference)
  | none =>
    match l with
    | url base =>
      match base.join? reference with
      | some u => .ok (url u)
      | none => .error .url
    | path base => .ok (path (Path.normalize (Path.join (Path.directory base) reference)))
    | name base =>
      if Path.isAbsolute reference then .ok (path (Path.normalize reference))
      else
        let joined := Path.normalize (Path.join (nameDirectory base) reference)
        .ok (name (replace "\\" "/" joined))

end Location
end FeatureTables
