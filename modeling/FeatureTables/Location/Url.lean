import FeatureTables.Location.Host

/-!
URLs: reading an absolute one, joining a reference to one, and the text of one. The rules are those
of browsers: letters of schemes and hosts become small, dots in paths are resolved, and characters
that may not stand in a part are percent-encoded.
-/

namespace FeatureTables

open Text Host

/-- The path of a URL: opaque text after the scheme, or segments after slashes. -/
inductive UrlPath where
  | opaqueText (text : String)
  | segments (ss : List String)
deriving DecidableEq, Inhabited

structure Url where
  scheme : String
  /-- User and password as written before the `@`. -/
  user : String := ""
  /-- `none` where the URL has no authority at all. -/
  host? : Option String := none
  port? : Option Nat := none
  path : UrlPath
  query? : Option String := none
  fragment? : Option String := none
deriving DecidableEq, Inhabited

def UrlPath.toText : UrlPath → String
  | .opaqueText text => text
  | .segments ss => String.join (ss.map ("/" ++ ·))

namespace Url

/-! ### The text of a URL -/

/-- A mark and the text after it, if there is any. -/
def marked (mark : String) : Option String → String
  | none => ""
  | some text => mark ++ text

def authority (u : Url) : String :=
  match u.host? with
  | some host =>
    "//" ++ (if u.user = "" then "" else u.user ++ "@") ++ host ++ marked ":" (u.port?.map toString)
  | none =>
    match u.path with
    | .segments ("" :: _ :: _) => "/."
    | _ => ""

def toText (u : Url) : String :=
  u.scheme ++ ":" ++ u.authority ++ u.path.toText ++ marked "?" u.query?
    ++ marked "#" u.fragment?

/-- Without blanks at the end of an opaque path. -/
def trimOpaqueEnd : UrlPath → UrlPath
  | .opaqueText text => .opaqueText (String.ofList (text.toList.reverse.dropWhile (· == ' ')).reverse)
  | .segments ss => .segments ss

/-- The URL without its fragment. Blanks at the end of an opaque path were kept for the sake of what
follows it, so they go as soon as nothing does. -/
def withoutFragment (u : Url) : Url :=
  { u with
    path := if u.query?.isNone then trimOpaqueEnd u.path else u.path
    fragment? := none }

/-! ### Schemes -/

/-- The port that a scheme stands for. -/
def defaultPort? (scheme : String) : Option Nat :=
  [("http", 80), ("https", 443), ("ws", 80), ("wss", 443), ("ftp", 21)].lookup scheme

def isFile (scheme : String) : Bool := scheme == "file"

/-- Schemes whose URLs always have a host and a path; a backslash counts as a slash in them. -/
def isSpecial (scheme : String) : Bool := (defaultPort? scheme).isSome || isFile scheme

def isSchemeChar (c : Char) : Bool := c.isAlphanum || c == '+' || c == '-' || c == '.'

/-- The scheme at the start of the text, in small letters, and what follows its colon. -/
def splitScheme? (s : List Char) : Option (String × List Char) :=
  match s with
  | c :: _ =>
    if c.isAlpha then
      match s.dropWhile isSchemeChar with
      | ':' :: r => some (String.ofList ((s.takeWhile isSchemeChar).map Char.toLower), r)
      | _ => none
    else none
  | [] => none

/-! ### Clean texts -/

/-- A slash of either kind. -/
def isSlash (c : Char) : Bool := c == '/' || c == '\\'

/-- A tab or the end of a line. -/
def isBreak (c : Char) : Bool := c == '\t' || c == '\n' || c == '\r'

def withoutBreaks (s : List Char) : List Char := s.filter (!isBreak ·)

/-- Without control characters and blanks at the ends. -/
def withoutEnds (s : List Char) : List Char :=
  let outer (c : Char) : Bool := c.toNat ≤ 0x20
  ((s.dropWhile outer).reverse.dropWhile outer).reverse

/-- A file path without breaks. One behind a drive, with which the path starts, parts it from what
follows. -/
def cleanFilePath (s : List Char) : List Char :=
  match withoutBreaks s with
  | c :: ':' :: d :: r =>
    let parted : Bool := c.isAlpha && ((s.dropWhile (· != ':')).drop 1).head?.any isBreak
    if parted && !isSlash d && d != '?' && d != '#' then c :: ':' :: '/' :: d :: r
    else c :: ':' :: d :: r
  | r => r

/-- What follows the scheme of a file URL without breaks. The path starts behind up to three slashes;
between the second and the third one may stand a host. -/
def cleanFile (s : List Char) : List Char :=
  let outer (c : Char) : Bool := isBreak c || isSlash c
  let inHost (c : Char) : Bool := !isSlash c && c != '?' && c != '#'
  let (slashes, rest) := (s.takeWhile outer, s.dropWhile outer)
  match (slashes.filter isSlash).length, rest.dropWhile inHost with
  | 0, _ | 1, _ | 3, _ => withoutBreaks slashes ++ cleanFilePath rest
  | 2, '/' :: path | 2, '\\' :: path =>
    withoutBreaks (slashes ++ rest.takeWhile inHost) ++ '/' :: cleanFilePath path
  | _, _ => withoutBreaks s

/-- The text without what does not count in a URL. -/
def clean (s : String) : List Char :=
  let cs := withoutEnds s.toList
  match splitScheme? (withoutBreaks cs) with
  | some ("file", _) =>
    withoutBreaks (cs.takeWhile (· != ':')) ++ ':' :: cleanFile ((cs.dropWhile (· != ':')).drop 1)
  | _ => withoutBreaks cs

/-! ### Characters of the parts -/

def plainInFragment (c : Char) : Bool := notControl c && !" \x22<>`".toList.contains c

def plainInPath (c : Char) : Bool := plainInFragment c && !"#?\x7b\x7d".toList.contains c

def plainInUser (c : Char) : Bool := plainInPath c && !"/:;=@[\\]^|".toList.contains c

def plainInQuery (special : Bool) (c : Char) : Bool :=
  notControl c && !" \x22#<>".toList.contains c && !(special && c == '\x27')

/-! ### Query and fragment -/

/-- The query and the fragment at the start of the text. -/
def tail (special : Bool) (s : List Char) : Option String × Option String :=
  let (query?, r) := match s with
    | '?' :: r =>
      (some (percentEncode (plainInQuery special) (r.takeWhile (· != '#'))), r.dropWhile (· != '#'))
    | r => (none, r)
  match r with
  | '#' :: f => (query?, some (percentEncode plainInFragment f))
  | _ => (query?, none)

def withTail (u : Url) (s : List Char) : Url :=
  let (query?, fragment?) := tail (isSpecial u.scheme) s
  { u with query?, fragment? }

/-! ### Paths -/

/-- The text of a path and what follows it. -/
def splitPath (s : List Char) : List Char × List Char :=
  (s.takeWhile fun c => c != '?' && c != '#', s.dropWhile fun c => c != '?' && c != '#')

/-- The segments of a path, which slashes separate. -/
def rawSegments (special : Bool) (s : List Char) : List (List Char) :=
  pieces ['/'] (s.map fun c => if special && c == '\\' then '/' else c)

/-- A segment that stands for the one it is in, or for the one above. -/
def dots (s : String) : Nat :=
  let s := replace "%2e" "." (String.ofList (s.toList.map Char.toLower))
  if s = "." then 1 else if s = ".." then 2 else 0

/-- A letter and a colon, or a bar for the colon. -/
def isDrive (bar : Bool) (s : String) : Bool :=
  match s.toList with
  | [c, d] => c.isAlpha && (d == ':' || (bar && d == '|'))
  | _ => false

/-- A drive, perhaps with more behind a backslash. -/
def startsWithDrive (s : String) : Bool :=
  match s.toList with
  | c :: d :: '\\' :: _ => isDrive true (String.ofList [c, d])
  | _ => isDrive true s

/-- Takes the last segment away, unless it starts with a drive. -/
def shorten (done : List String) : List String :=
  if done.getLast?.any startsWithDrive then done else done.dropLast

/-- Puts written segments behind `done` and resolves those of dots. -/
def follow (scheme : String) (done : List String) : List (List Char) → List String
  | [] => done
  | s :: rest =>
    let segment := percentEncode plainInPath s
    match dots segment with
    | 2 =>
      let up := shorten done
      follow scheme (if rest.isEmpty then up ++ [""] else up) rest
    | 1 => follow scheme (if rest.isEmpty then done ++ [""] else done) rest
    | _ =>
      let segment :=
        if isFile scheme && done.isEmpty && isDrive true segment then
          String.ofList (segment.toList.take 1 ++ [':'])
        else segment
      follow scheme (done ++ [segment]) rest

/-- Without empty segments at the start, as file paths are written. -/
def dropEmptyStart : List String → List String
  | "" :: s :: ss => dropEmptyStart (s :: ss)
  | ss => ss

/-- A file URL with a path; a path that starts with a drive leaves no place for a host. -/
def withFilePath (u : Url) (ss : List String) : Url :=
  { u with
    host? := if ss.head?.any (isDrive false) then some "" else u.host?
    path := .segments (dropEmptyStart ss) }

/-- Path, query and fragment of `s`, behind the segments `done`. -/
def withPath (u : Url) (done : List String) (s : List Char) : Url :=
  let (path, rest) := splitPath s
  let ss := follow u.scheme done (rawSegments (isSpecial u.scheme) path)
  withTail (if isFile u.scheme then withFilePath u ss else { u with path := .segments ss }) rest

/-- Path, query and fragment of `s`, which starts behind the host. -/
def withRootedPath (u : Url) (s : List Char) : Url :=
  match s with
  | '/' :: r => withPath u [] r
  | '\\' :: r => if isSpecial u.scheme then withPath u [] r else withPath u [] s
  | _ =>
    if isSpecial u.scheme then withPath u [] s
    else
      match s with
      | [] | '?' :: _ | '#' :: _ => withTail { u with path := .segments [] } s
      | _ => withPath u [] s

/-! ### Authorities -/

/-- The authority and what follows it. -/
def splitAuthority (special : Bool) (s : List Char) : List Char × List Char :=
  let ends (c : Char) : Bool := c == '/' || c == '?' || c == '#' || (special && c == '\\')
  (s.takeWhile (!ends ·), s.dropWhile (!ends ·))

/-- User and password as they are written; an empty password goes with its colon. -/
def userText (s : List Char) : String :=
  let user := percentEncode plainInUser (s.takeWhile (· != ':'))
  let password := percentEncode plainInUser ((s.dropWhile (· != ':')).drop 1)
  if password = "" then user else user ++ ":" ++ password

/-- Cuts at the last `@`. -/
def splitUser (s : List Char) : Option (List Char) × List Char :=
  match cutAt? (· == '@') s.reverse with
  | some (hostBack, userBack) => (some userBack.reverse, hostBack.reverse)
  | none => (none, s)

/-- Host and port; a colon in brackets belongs to the host. -/
def splitPort (s : List Char) : List Char × Option (List Char) :=
  let inBrackets := s.takeWhile (· != ']')
  let start := if s.head? = some '[' ∧ s.contains ']' then inBrackets.length else 0
  let rest := s.drop start
  match cutAt? (· == ':') rest with
  | some (a, b) => (s.take start ++ a, some b)
  | none => (s, none)

/-- A backslash ends a port in every scheme; what follows belongs to the path. -/
def endPort (s : Option (List Char)) : Option (List Char) × List Char :=
  (s.map (·.takeWhile (· != '\\')), (s.getD []).dropWhile (· != '\\'))

/-- The port, unless it is the one of the scheme. -/
def readPort? (scheme : String) (s : Option (List Char)) : Option (Option Nat) :=
  match s with
  | none | some [] => some none
  | some ds =>
    if ds.all Char.isDigit then
      let n := (baseNumber? 10 ds).getD 0
      if 65535 < n then none
      else some (if defaultPort? scheme = some n then none else some n)
    else none

/-- A URL from what follows the two slashes. Only a URL of no special scheme may leave its host out,
and only if neither a user nor a port would belong to it. -/
def ofAuthority? (scheme : String) (s : List Char) : Option Url := do
  let special := isSpecial scheme
  let (authority, rest) := splitAuthority special s
  let (user?, hostPort) := splitUser authority
  let (hostText, portText?) := splitPort hostPort
  let user := userText (user?.getD [])
  let needsHost : Bool :=
    special || user != "" || portText?.isSome || (user? == some [] && !rest.isEmpty)
  if hostText.isEmpty ∧ needsHost then none
  let host ←
    if special then Host.read? (String.ofList hostText)
    else Host.readOpaque? (String.ofList hostText)
  let (portText?, behindPort) := endPort portText?
  let port? ← readPort? scheme portText?
  return withRootedPath { scheme, user, host? := some host, port?, path := .segments [] }
    (behindPort ++ rest)

/-! ### Absolute URLs -/

/-- A file URL from what follows its scheme: with a host after two slashes, else without. -/
def ofFile? (s : List Char) : Option Url :=
  let file : Url := { scheme := "file", host? := some "", path := .segments [] }
  match s with
  | a :: b :: r =>
    if isSlash a && isSlash b then
      let hostText := r.takeWhile fun c => !isSlash c && c != '?' && c != '#'
      let rest := r.dropWhile fun c => !isSlash c && c != '?' && c != '#'
      if hostText.isEmpty then some (withRootedPath file rest)
      else if isDrive true (String.ofList hostText) then some (withPath file [] r)
      else (Host.read? (String.ofList hostText)).map fun host =>
        withRootedPath { file with host? := some (if host = "localhost" then "" else host) } rest
    else some (withRootedPath file s)
  | _ => some (withRootedPath file s)

/-- A URL from what follows a scheme. -/
def ofScheme? (scheme : String) (s : List Char) : Option Url :=
  if isFile scheme then ofFile? s
  else if isSpecial scheme then ofAuthority? scheme (s.dropWhile isSlash)
  else
    match s with
    | '/' :: '/' :: r => ofAuthority? scheme r
    | '/' :: r => some (withPath { scheme, path := .segments [] } [] r)
    | _ =>
      let (path, rest) := splitPath s
      some (withTail { scheme, path := .opaqueText (percentEncode notControl path) } rest)

/-- Reads an absolute URL. -/
def read? (s : String) : Option Url :=
  (splitScheme? (clean s)).bind fun (scheme, r) => ofScheme? scheme r

/-! ### References -/

def baseSegments (u : Url) : List String :=
  match u.path with
  | .segments ss => ss
  | .opaqueText _ => []

/-- The URL that a reference without a scheme stands for, seen from a base with segments. Here a
backslash is a slash in every scheme. -/
def follow? (base : Url) (s : List Char) : Option Url :=
  match s with
  | [] => some base.withoutFragment
  | '?' :: _ => some (withTail base s)
  | '#' :: f => some { base with fragment? := some (percentEncode plainInFragment f) }
  | '/' :: '/' :: r => ofAuthority? base.scheme r
  | a :: r =>
    if !isSlash a then some (withPath base base.baseSegments.dropLast s)
    else if r.head?.any isSlash then ofAuthority? base.scheme (r.dropWhile isSlash)
    else some (withPath base [] r)

/-- The URL that a reference stands for at the base. Behind an opaque path only a fragment can be
changed. -/
def join? (base : Url) (reference : String) : Option Url :=
  let s := clean reference
  match splitScheme? s with
  | some (scheme, r) =>
    if isSpecial scheme ∧ scheme = base.scheme ∧ (r.takeWhile isSlash).length < 2 then follow? base r
    else ofScheme? scheme r
  | none =>
    match base.path, s with
    | .opaqueText _, '#' :: _ => follow? base s
    | .opaqueText _, _ => none
    | .segments _, _ => follow? base s

/-- The path of a file URL without a host. -/
def filePath? (u : Url) : Option String :=
  match u.host?, u.path with
  | some "", .segments ss =>
    let bytes := ss.flatMap fun s => byte '/' :: percentDecode (utf8 s)
    some (fromUtf8Lossy bytes)
  | _, _ => none

end Url
end FeatureTables
