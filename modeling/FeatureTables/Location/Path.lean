import FeatureTables.Text.Pieces

/-!
File paths as text: their components, the directory of a path, and paths without `.` and `..` where
these can be resolved on the text alone.
-/

namespace FeatureTables.Path

open Text

/-! ### Components -/

inductive Component where
  | root
  /-- The component `.`, which counts at the start of a relative path only. -/
  | current
  /-- The component `..`. -/
  | parent
  | ordinary (name : String)
deriving DecidableEq

def Component.toText : Component → String
  | root => "/"
  | current => "."
  | parent => ".."
  | ordinary name => name

def isAbsolute (path : String) : Bool := startsWith path "/"

/-- The text between slashes after the first one of an absolute path. -/
def segments (path : String) : List String :=
  splitOn "/" ((dropStart? path "/").getD path)

/-- The component of a segment, if the segment is one. -/
def Component.ofSegment? (first : Bool) (s : String) : Option Component :=
  if s = "" then none
  else if s = "." then if first then some .current else none
  else if s = ".." then some .parent
  else some (.ordinary s)

def components (path : String) : List Component :=
  match isAbsolute path, segments path with
  | true, ss => .root :: ss.filterMap (Component.ofSegment? false)
  | false, [] => []
  | false, s :: ss =>
    (Component.ofSegment? true s).toList ++ ss.filterMap (Component.ofSegment? false)

/-- Two paths with the same components are one path. -/
def same (a b : String) : Bool := components a == components b

/-! ### Joining and the directory -/

def join (dir path : String) : String :=
  if isAbsolute path ∨ dir = "" then path
  else if endsWith dir "/" then dir ++ path
  else dir ++ "/" ++ path

/-- The segments, last one first, from the last one on that is a component. -/
def dropBlankSegments (rooted : Bool) : List String → List String
  | [] => []
  | s :: rest =>
    if (Component.ofSegment? (!rooted && rest.isEmpty) s).isSome then s :: rest
    else dropBlankSegments rooted rest

/-- The paths without the last component, without the last two, and so on, for segments that come
last one first. -/
def ancestorsOf (rooted : Bool) : List String → List String
  | [] => []
  | s :: rest =>
    if (Component.ofSegment? (!rooted && rest.isEmpty) s).isSome then
      let kept := (dropBlankSegments rooted rest).reverse
      ((if rooted then "/" else "") ++ String.intercalate "/" kept) :: ancestorsOf rooted rest
    else ancestorsOf rooted rest

/-- The directory of a path, the directory of that one, and so on, up to the root or the empty
path. -/
def ancestors (path : String) : List String :=
  ancestorsOf (isAbsolute path) (segments path).reverse

/-- The path without its last component; a path of a root only and the empty path have none. -/
def parent? (path : String) : Option String := (ancestors path).head?

/-- The directory that relative references in the file `path` start from. -/
def directory (path : String) : String := (parent? path).getD ""

/-! ### Normal paths -/

/-- A path under construction: whether it starts at the root, and its parts, last one first. -/
structure Trail where
  rooted : Bool := false
  parts : List String := []
deriving DecidableEq

/-- One step along the path: `..` takes away the part before it, whatever it is, and stays when
there is none. -/
def Trail.step (t : Trail) : Component → Trail
  | .root => { rooted := true }
  | .current => t
  | .parent =>
    match t.parts with
    | [] => { t with parts := [".."] }
    | _ :: parts => { t with parts }
  | .ordinary name => { t with parts := name :: t.parts }

def Trail.toText (t : Trail) : String :=
  (if t.rooted then "/" else "") ++ String.intercalate "/" t.parts.reverse

def normalizeComponents (cs : List Component) : Trail := cs.foldl Trail.step {}

def normalize (path : String) : String := (normalizeComponents (components path)).toText

end FeatureTables.Path
