import FeatureTables.Number.Integer
import FeatureTables.Text.Pieces

/-!
The arguments of the command: which of the two actions, with which options, on which documents.
Options stand in any order, also between documents, up to an argument of two dashes.
-/

namespace FeatureTables.Command

open Number Text

/-! ### What is asked for -/

/-- Options of both actions. -/
structure Source where
  schemas : List String
  config? : Option String
  catalog? : Option String
  mergeMaxDepth? : Option Nat
  cache? : Option String
  offline : Bool
  documents : List String
deriving DecidableEq, Inhabited

inductive Request where
  | convert (source : Source) (output? : Option String)
  | inspect (source : Source) (json : Bool)
deriving DecidableEq, Inhabited

/-- Why arguments are not read to their end. -/
inductive Stop where
  /-- They are no request. -/
  | usage
  /-- They ask for words, whatever follows. -/
  | help
  | version
deriving DecidableEq, Inhabited

/-! ### Options -/

/-- What an option takes, or does at once. -/
inductive Takes where
  | nothing
  /-- Any text. -/
  | text
  /-- A path, which is not empty. -/
  | path
  | number
  | stop (why : Stop)
deriving DecidableEq

structure OptionForm where
  long : String
  short? : Option Char := none
  takes : Takes
  /-- It may be given more than once. -/
  many : Bool := false

namespace OptionForm

/-- No value belongs to the option. -/
def isFlag (f : OptionForm) : Bool :=
  match f.takes with
  | .nothing | .stop _ => true
  | _ => false

/-- The option takes this value. -/
def admits (f : OptionForm) (value : String) : Bool :=
  match f.takes with
  | .path => value != ""
  | .number => (readNat? (Nat.pow 2 64 - 1) value).isSome
  | _ => true

end OptionForm

def verboseForm : OptionForm := ⟨"verbose", some 'v', .nothing, false⟩

def helpForm : OptionForm := ⟨"help", some 'h', .stop .help, false⟩

/-- Options in front of the action. -/
def leadingForms : List OptionForm :=
  [verboseForm, helpForm, ⟨"version", some 'V', .stop .version, false⟩]

def commonForms : List OptionForm :=
  [⟨"schema", some 's', .text, true⟩, ⟨"config", none, .path, false⟩,
   ⟨"catalog", none, .path, false⟩, ⟨"merge-max-depth", none, .number, false⟩,
   ⟨"cache", none, .path, false⟩, ⟨"offline", none, .nothing, false⟩, verboseForm, helpForm]

def convertForms : List OptionForm := ⟨"output", some 'o', .path, false⟩ :: commonForms

def inspectForms : List OptionForm := ⟨"json", none, .nothing, false⟩ :: commonForms

/-- Arguments after reading: options by their long names, and what is no option. -/
structure Given where
  options : List (String × String) := []
  rest : List String := []

namespace Given

def values (g : Given) (name : String) : List String :=
  (g.options.filter (·.1 == name)).map (·.2)

def has (g : Given) (name : String) : Bool := g.options.any (·.1 == name)

/-- Takes an option in, which may stop the reading. -/
def add (g : Given) (f : OptionForm) (value : String) : Except Stop Given :=
  match f.takes with
  | .stop why => .error why
  | _ =>
    if (g.has f.long ∧ !f.many) ∨ !f.admits value then .error .usage
    else .ok { g with options := g.options ++ [(f.long, value)] }

end Given

/-! ### Reading -/

/-- The argument is not an option; a dash alone is none. -/
def isPlain (s : String) : Bool := !startsWith s "-" || s == "-"

/-- Reads the short options of one argument: flags, then perhaps an option with the rest of the
argument as its value. If there is no rest, the option is left that the next argument belongs to. -/
def readCluster (forms : List OptionForm) (g : Given) :
    List Char → Except Stop (Given × Option OptionForm)
  | [] => .ok (g, none)
  | c :: cs =>
    match forms.find? (·.short? == some c) with
    | none => .error .usage
    | some f =>
      if f.isFlag then do readCluster forms (← g.add f "") cs
      else
        match cs with
        | [] => .ok (g, some f)
        | '=' :: v => do return (← g.add f (String.ofList v), none)
        | v => do return (← g.add f (String.ofList v), none)

/-- Reads a long option without its dashes; a value may be joined to it. -/
def readLong (forms : List OptionForm) (g : Given) (s : String) :
    Except Stop (Given × Option OptionForm) := do
  let (name, value?) := match splitOnce '=' s with
    | some (name, value) => (name, some value)
    | none => (s, none)
  match forms.find? (·.long == name), value? with
  | none, _ => throw .usage
  | some f, some value =>
    if f.isFlag then throw .usage
    return (← g.add f value, none)
  | some f, none => if f.isFlag then return (← g.add f "", none) else return (g, some f)

/-- Reads an argument that is not plain. -/
def readOption (forms : List OptionForm) (g : Given) (s : String) :
    Except Stop (Given × Option OptionForm) :=
  match dropStart? s "--" with
  | some long => readLong forms g long
  | none => readCluster forms g (s.toList.drop 1)

/-- Reads arguments; `awaits?` is the option that the next one is the value of. -/
def readGiven (forms : List OptionForm) (awaits? : Option OptionForm) (g : Given) :
    List String → Except Stop Given
  | [] => if awaits?.isSome then .error .usage else .ok g
  | s :: ss =>
    match awaits? with
    | some f =>
      if isPlain s then do readGiven forms none (← g.add f s) ss else .error .usage
    | none =>
      if s = "--" then .ok { g with rest := g.rest ++ ss }
      else if isPlain s then readGiven forms none { g with rest := g.rest ++ [s] } ss
      else do
        let (g, awaits?) ← readOption forms g s
        readGiven forms awaits? g ss

/-! ### Requests -/

/-- The source that options describe; there has to be a document. -/
def sourceOf (g : Given) : Except Stop Source :=
  if g.rest.isEmpty ∨ g.rest.contains "" then .error .usage
  else
    .ok {
      schemas := g.values "schema"
      config? := (g.values "config").head?
      catalog? := (g.values "catalog").head?
      mergeMaxDepth? := (g.values "merge-max-depth").head?.bind (readNat? (Nat.pow 2 64 - 1))
      cache? := (g.values "cache").head?
      offline := g.has "offline"
      documents := g.rest }

/-- Arguments of `convert`. -/
def readConvert (args : List String) : Except Stop Request := do
  let g ← readGiven convertForms none {} args
  return .convert (← sourceOf g) (g.values "output").head?

/-- Arguments of `inspect`. -/
def readInspect (args : List String) : Except Stop Request := do
  let g ← readGiven inspectForms none {} args
  return .inspect (← sourceOf g) (g.has "json")

/-- Arguments of `help`, which may name an action. -/
def readHelp (args : List String) : Stop :=
  if args.isEmpty ∨ args = ["convert"] ∨ args = ["inspect"] then .help else .usage

/-- The request of all arguments behind the options `g`. -/
def readFrom (g : Given) : List String → Except Stop Request
  | [] => .error .usage
  | s :: ss =>
    if s = "convert" then readConvert ss
    else if s = "inspect" then readInspect ss
    else if s = "help" then .error (readHelp ss)
    else if isPlain s ∨ s = "--" then .error .usage
    else do
      let (g, _) ← readOption leadingForms g s
      readFrom g ss

/-- The request of the arguments of the command. -/
def Request.read (args : List String) : Except Stop Request := readFrom {} args

end FeatureTables.Command
