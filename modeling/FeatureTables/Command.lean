import FeatureTables.Command.Arguments
import FeatureTables.Conversion
import FeatureTables.Sql

/-!
The command: it converts documents and writes a script, or shows the tables that they make. What it
prints and whether it succeeds is a value; only the access to files is left to the monad.
-/

namespace FeatureTables.Command

/-- What a run of the command shows. -/
structure Outcome where
  exit : Nat := 0
  out : String := ""
  err : String := ""
deriving DecidableEq, Inhabited

/-! ### Tables for readers -/

/-- A text with blanks behind it up to a width. -/
def padded (width : Nat) (s : String) : String :=
  s ++ String.ofList (List.replicate (width - s.length) ' ')

/-- What a field is. -/
def detail (t : Table) (key : String) : Field → String
  | .column c => if key = t.uid then c.type.toText ++ " uid" else c.type.toText
  | .link l => (if l.isMany then "many -> " else "link -> ") ++ l.table
  | .backLink b => "back-link -> " ++ b.table
  | .geometry g => g.type ++ " srid=" ++ toString g.srid ++ " dim=" ++ toString g.dimension

def fieldLine (t : Table) (key : String) (f : Field) : String :=
  "  " ++ padded 24 ((t.columnName? key).getD "-") ++ " " ++ padded 32 key ++ " " ++ detail t key f
    ++ (if f.isOptional then "" else " not null") ++ "\n"

def tableText (m : Model) (t : Table) : String :=
  "\n" ++ t.name ++ " (" ++ toString (m.rowsOf t.name).length ++ " rows)\n"
    ++ String.join (t.fields.entries.map fun (key, f) => fieldLine t key f)

def modelText (m : Model) : String :=
  "Root table: " ++ m.rootTable?.getD "-" ++ "\n" ++ String.join (m.tables.values.map (tableText m))

def tableJson (m : Model) (t : Table) : Json :=
  .object [("name", .string t.name), ("uid", .string t.uidName),
    ("rows", .nat (m.rowsOf t.name).length),
    ("fields", .array (t.fields.values.map Field.toJson))]

def modelJson (m : Model) : String :=
  (Json.array (m.tables.values.map (tableJson m))).indented "" ++ "\n"

/-! ### Running -/

variable {μ : Type → Type} [Monad μ] [FileAccess μ]

/-- The configuration of a file, if one is named, with the options over it. -/
def configOf (s : Source) : ExceptT Error μ Config := do
  let config ← match s.config? with
    | some path => Conversion.configOf path
    | none => pure {}
  return { config with
    schemas := if s.schemas.isEmpty then config.schemas else s.schemas
    catalog? := s.catalog?.or config.catalog?
    build.mergeMaxDepth := s.mergeMaxDepth?.getD config.build.mergeMaxDepth
    cacheDir? := s.cache?.or config.cacheDir?
    allowRemote := config.allowRemote && !s.offline }

/-- The report on the documents and the model that they make. -/
def convert (s : Source) : ExceptT Error μ (Conversion.Report × Model) := do
  let c ← Conversion.ofConfig (← configOf s)
  let (report?, model) ← (c.files {} s.documents : μ (Except Error Conversion.Report × Model))
  return (← report?, model)

def failure (err message : String) : Outcome := ⟨1, "", err ++ "Error: " ++ message ++ "\n"⟩

/-- Converts, tells which documents were passed over, and goes on if any was not. -/
def withModel (s : Source) (next : Model → μ Outcome) : μ Outcome := do
  match ← (convert s).run with
  | .error e => return failure "" e.message
  | .ok (report, model) =>
    let skipped := String.join (report.failed.map fun (path, e) =>
      "Skipped " ++ path ++ ": " ++ e.message ++ "\n")
    if report.converted.isEmpty then return failure skipped "no document was converted"
    let o ← next model
    return { o with err := skipped ++ o.err }

/-- Writes the script of a model to a file. -/
def writeScript (path : String) (m : Model) : μ Outcome := do
  match ← FileAccess.write path (Text.utf8 (Sql.script m)) with
  | .error e => return failure "" e.message
  | .ok () =>
    return { err := "Wrote " ++ toString m.tables.size ++ " tables and " ++ toString m.rowCount
      ++ " rows to " ++ path ++ "\n" }

def usage : String :=
  "Usage: gmlas convert|inspect [OPTIONS] <DOC>...\n\n"
    ++ "  -s, --schema <SCHEMA>      Schema locations (paths or URLs)\n"
    ++ "  --config <CONFIG>          JSON configuration file\n"
    ++ "  --catalog <CATALOG>        XML catalog for offline schema copies\n"
    ++ "  --merge-max-depth <DEPTH>  Maximum nesting depth of inlined children\n"
    ++ "  --cache <CACHE>            Model cache directory\n"
    ++ "  --offline                  Refuse to download remote schemas\n"
    ++ "  -o, --output <OUTPUT>      Output file of convert\n"
    ++ "  --json                     Output of inspect as JSON\n"

/-- Runs the command with these arguments. -/
def run (args : List String) : μ Outcome :=
  match Request.read args with
  | .error .usage => return ⟨2, "", usage⟩
  | .error .help => return ⟨0, usage, ""⟩
  | .error .version => return ⟨0, "gmlas 0.1.0\n", ""⟩
  | .ok (.convert source output?) =>
    withModel source fun m =>
      match output? with
      | some path => writeScript path m
      | none => return { out := Sql.script m }
  | .ok (.inspect source json) =>
    withModel source fun m => return { out := if json then modelJson m else modelText m }

end FeatureTables.Command
