import FeatureTables.Location.Path
import FeatureTables.Text.Utf8

/-!
Access to files, as far as conversions need it, in any monad that offers it, and a tree of files in
memory that does.
-/

namespace FeatureTables

open Text

/-! ### Access -/

/-- What keeps a file from being read or written. -/
inductive FileFault where
  | missing
  | notDirectory
  | isDirectory
  | occupied
  /-- A name, or a whole path, has more bytes than the system takes. -/
  | tooLong
  /-- The path has a byte that ends paths for the system. -/
  | zeroByte
  | notText
  | other (text : String)
deriving DecidableEq, Inhabited

def FileFault.message : FileFault → String
  | missing => "No such file or directory (os error 2)"
  | notDirectory => "Not a directory (os error 20)"
  | isDirectory => "Is a directory (os error 21)"
  | occupied => "File exists (os error 17)"
  | tooLong => "File name too long (os error 36)"
  | zeroByte => "file name contained an unexpected NUL byte"
  | notText => "stream did not contain valid UTF-8"
  | other text => text

class FileAccess (m : Type → Type) where
  read (path : String) : m (Except FileFault Bytes)
  /-- Makes a file, or replaces what it holds. -/
  write (path : String) (bytes : Bytes) : m (Except FileFault Unit)
  /-- Makes a directory and those that it is in, as far as they are not there. -/
  makeDirectories (path : String) : m (Except FileFault Unit)
  exists? (path : String) : m Bool
  /-- The one absolute path of what is there. -/
  canonical? (path : String) : m (Option String)

/-- A file that has to be UTF-8. -/
def FileAccess.readText {m : Type → Type} [Monad m] [FileAccess m] (path : String) :
    m (Except FileFault String) := do
  match ← FileAccess.read path with
  | .error e => return .error e
  | .ok bytes =>
    match fromUtf8? bytes with
    | some text => return .ok text
    | none => return .error .notText

/-! ### Trees in memory -/

/-- Names on the way from the root to a file or directory, last one first. -/
abbrev Trace := List String

structure FileTree where
  files : List (Trace × Bytes) := []
  /-- The directories but for the root. -/
  directories : List Trace := []
  /-- The directory that relative paths start from. -/
  working : Trace := []
deriving Inhabited

namespace FileTree

def isDirectory (t : FileTree) (place : Trace) : Bool := place.isEmpty || t.directories.contains place

def file? (t : FileTree) (place : Trace) : Option Bytes := t.files.lookup place

/-- Where one segment of a path leads. -/
def step (place : Trace) (segment : String) : Trace :=
  if segment = "" ∨ segment = "." then place
  else if segment = ".." then place.drop 1
  else segment :: place

/-- Bytes of the longest name and of the longest path. -/
def maxName : Nat := 255
def maxPath : Nat := 4095

/-- Follows segments; each one starts from a directory. -/
def walk (t : FileTree) (place : Trace) : List String → Except FileFault Trace
  | [] => .ok place
  | s :: ss =>
    if t.isDirectory place then
      if maxName < s.utf8ByteSize then .error .tooLong else t.walk (step place s) ss
    else if (t.file? place).isSome then .error .notDirectory
    else .error .missing

/-- Follows the segments that `choose` takes from those of a path. -/
def walkPath (t : FileTree) (path : String) (choose : List String → List String) :
    Except FileFault Trace :=
  if path.toList.contains '\x00' then .error .zeroByte
  else if path = "" then .error .missing
  else if maxPath < path.utf8ByteSize then .error .tooLong
  else t.walk (if Path.isAbsolute path then [] else t.working) (choose (Path.segments path))

/-- What a path leads to; it need not be there. -/
def trace (t : FileTree) (path : String) : Except FileFault Trace := t.walkPath path id

/-- Without the empty segments that slashes at the end make. -/
def dropEmptyEnd (ss : List String) : List String := (ss.reverse.dropWhile (· == "")).reverse

def holds (t : FileTree) (place : Trace) : Bool := t.isDirectory place || (t.file? place).isSome

def read (t : FileTree) (path : String) : Except FileFault Bytes := do
  let place ← t.trace path
  match t.file? place with
  | some bytes => return bytes
  | none => throw (if t.isDirectory place then .isDirectory else .missing)

def put (t : FileTree) (place : Trace) (bytes : Bytes) : FileTree :=
  { t with files := (place, bytes) :: t.files.filter (·.1 != place) }

/-- A path with a slash at its end can only mean a directory, which must be in one itself. -/
def write (t : FileTree) (path : String) (bytes : Bytes) : Except FileFault FileTree := do
  if endsWith path "/" then
    let _ ← t.walkPath path fun ss => (dropEmptyEnd ss).dropLast ++ [""]
    throw .isDirectory
  let place ← t.trace path
  if t.isDirectory place then throw .isDirectory
  return t.put place bytes

/-- Makes a directory in one that is there. -/
def makeDirectory (t : FileTree) (path : String) : Except FileFault FileTree := do
  let place ← t.walkPath path dropEmptyEnd
  if t.holds place then throw .occupied
  return { t with directories := place :: t.directories }

/-- The path leads to a directory. -/
def hasDirectory (t : FileTree) (path : String) : Bool :=
  match t.trace path with
  | .ok place => t.isDirectory place
  | .error _ => false

/-- The tree with a directory, which may be there already; on a fault the tree stays. -/
def withDirectory (t : FileTree) (path : String) : Except FileFault Unit × FileTree :=
  match t.makeDirectory path with
  | .ok t => (.ok (), t)
  | .error e => (if t.hasDirectory path then .ok () else .error e, t)

/-- Makes the first of the paths, and before it the others, each one the directory of the one before,
as far as they are missing. What was made stays when a later step fails. -/
def makeEach (t : FileTree) : List String → Except FileFault Unit × FileTree
  | [] => (.ok (), t)
  | path :: above =>
    if path = "" then (.ok (), t)
    else match t.withDirectory path with
      | (.error .missing, t) =>
        match t.makeEach above with
        | (.ok (), t) => t.withDirectory path
        | r => r
      | r => r

def makeDirectories (t : FileTree) (path : String) : Except FileFault Unit × FileTree :=
  t.makeEach (path :: Path.ancestors path)

def pathOf (place : Trace) : String := "/" ++ String.intercalate "/" place.reverse

def canonical? (t : FileTree) (path : String) : Option String :=
  match t.trace path with
  | .ok place => if t.holds place then some (pathOf place) else none
  | .error _ => none

/-- The names and contents of the files in a directory, in the order of their names. -/
def filesIn (t : FileTree) (path : String) : List (Trace × Bytes) :=
  match t.trace path with
  | .ok place =>
    (t.files.filter fun f => f.1.drop 1 == place).mergeSort fun a b => pathOf a.1 ≤ pathOf b.1
  | .error _ => []

instance : FileAccess (StateM FileTree) where
  read path := fun t => (t.read path, t)
  write path bytes := fun t => match t.write path bytes with
    | .ok t => (.ok (), t)
    | .error e => (.error e, t)
  makeDirectories path := fun t => t.makeDirectories path
  exists? path := fun t => ((t.canonical? path).isSome, t)
  canonical? path := fun t => (t.canonical? path, t)

end FileTree
end FeatureTables
