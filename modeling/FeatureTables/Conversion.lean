import FeatureTables.Layout.Building
import FeatureTables.Location.Loader
import FeatureTables.Model.File
import FeatureTables.Population
import FeatureTables.Schema.Closure

/-!
Conversions of documents: each one is typed by the schemas, built into the tables of the model and
populated. A document that fails leaves the model as it was.
-/

namespace FeatureTables

open Schema Text Xml

/-- What is the same for all documents of a conversion. -/
structure Conversion where
  catalog : Catalog
  options : BuildOptions := {}
  limits : Limits := {}
  codec : Geometry.Codec := Geometry.decode? 4326
  /-- The directory of model files, if these are to be used. -/
  cacheDir? : Option String := none

namespace Conversion

/-- A conversion with these options, of which geometries follow the reference system. -/
def withOptions (c : Conversion) (options : BuildOptions) : Conversion :=
  { c with options, codec := Geometry.decode? options.defaultSrid }

/-! ### Documents -/

/-- A conversion at work on the model. What fails may leave a changed model behind. -/
abbrev ConvertM := ExceptT Error (StateM Model)

/-- Converts a document into the model, and returns the number of rows that it brought. While it is
populated the rows of the model are with the new tables; they go back if this fails. -/
def convert (c : Conversion) (d : Document) : ConvertM Nat := do
  let typing ← Typing.ofRoot c.catalog d.root
  let before ← get
  let built ← Layout.build ⟨typing, c.options⟩ before.withoutRows d.root
  let model := { built.model with rows := before.rows }
  set before.withoutRows
  match built.rootTable? with
  | none =>
    set model
    return 0
  | some table =>
    match Population.ofRoot ⟨model, built.layout, c.codec⟩ d.root table with
    | .ok p =>
      set (p.commit model)
      return p.rowCount
    | .error e =>
      modify fun m => { m with rows := model.rows }
      throw e

/-- The model after a document, and the number of rows that it brought. -/
def document (c : Conversion) (m : Model) (d : Document) : Except Error (Model × Nat) :=
  match (c.convert d).run.run m with
  | (.ok rows, m) => .ok (m, rows)
  | (.error e, _) => .error e

/-- The model after the document of a text. -/
def text (c : Conversion) (m : Model) (s : String) : Except Error (Model × Nat) := do
  c.document m (← Document.parse c.limits (utf8 s))

variable {μ : Type → Type} [Monad μ] [FileAccess μ]

/-- The model that a model file keeps for a source, unless there is none or it is of no use. -/
def cached? (dir? : Option String) (key : String) : ExceptT Error μ (Option Model) :=
  match dir? with
  | none => return none
  | some dir =>
    tryCatch (ModelFile.load? dir key) fun
      | .modelFile _ => return none
      | e => throw e

/-- The model after the document of a file. A model file stands in for a document that is the first
one, and is made for one. -/
def file (c : Conversion) (m : Model) (path : String) : ExceptT Error μ (Model × Nat) := do
  let key := (← (FileAccess.canonical? path : μ (Option String))).getD path
  let dir? := if m.tables.entries.isEmpty then c.cacheDir? else none
  match ← cached? dir? key with
  | some model => return (model, model.rowCount)
  | none =>
    let (model, rows) ← c.document m (← Document.ofFile c.limits path)
    if let some dir := dir? then
      tryCatch (discard (ModelFile.store dir key model)) fun _ => return ()
    return (model, rows)

/-! ### Batches -/

/-- The files of a batch with the rows that they brought, and those that break bounds. -/
structure Report where
  converted : List (String × Nat) := []
  failed : List (String × Error) := []

/-- Converts files in order. One that breaks bounds is passed over; any other failure ends the batch.
The model has what was converted until then. -/
def batch (c : Conversion) (m : Model) (r : Report) : List String → μ (Except Error Report × Model)
  | [] => return (.ok r, m)
  | path :: paths => do
    match ← ((c.file m path).run : μ (Except Error (Model × Nat))) with
    | .ok (m, rows) => c.batch m { r with converted := r.converted ++ [(path, rows)] } paths
    | .error e =>
      match e with
      | .cardinality .. => c.batch m { r with failed := r.failed ++ [(path, e)] } paths
      | _ => return (.error e, m)

def files (c : Conversion) (m : Model) (paths : List String) : μ (Except Error Report × Model) :=
  c.batch m {} paths

/-! ### Conversions of a configuration -/

def readLocation (s : String) : μ Location := do
  let isThere ← FileAccess.exists? s
  return Location.read (fun _ => isThere) s

/-- The conversion with the schemas of a configuration, which `fetch` finds. -/
def ofConfigWith (fetch : Location → μ (Except Error Bytes)) (config : Config) :
    ExceptT Error μ Conversion := do
  if config.schemas.isEmpty then throw (.config "no schema locations given")
  let roots ← (config.schemas.mapM readLocation : μ (List Location))
  let catalog ← ExceptT.mk (Catalog.loadWith fetch config.limits roots)
  let c : Conversion := { catalog, limits := config.limits, cacheDir? := config.cacheDir? }
  return c.withOptions config.build

/-- The loader that a configuration asks for. -/
def loaderOf (config : Config) : ExceptT Error μ Loader := do
  let redirection ← match config.catalog? with
    | some path => Redirection.ofFile path
    | none => pure {}
  return { limits := config.limits, allowRemote := config.allowRemote, retries := config.retries,
           redirection }

/-- The conversion of a configuration, with schemas from files. -/
def ofConfig (config : Config) : ExceptT Error μ Conversion := do
  let loader ← loaderOf config
  ofConfigWith (fun location => (loader.load location).run) config

/-- The configuration in a file. -/
def configOf (path : String) : ExceptT Error μ Config := do
  match ← (FileAccess.readText path : μ (Except FileFault String)) with
  | .error e => throw (.config ("cannot read '" ++ path ++ "': " ++ e.message))
  | .ok text =>
    let config ← Config.read text
    return match Path.parent? path with
      | some base => config.rebase base
      | none => config

end Conversion
end FeatureTables
