import FeatureTables.Json.Decode
import FeatureTables.Json.Reader
import FeatureTables.Limits
import FeatureTables.Location

/-!
Settings: how documents are folded into tables, and the configuration of a run as it stands in a
JSON file. Unknown keys are refused, and relative paths in a file start from its directory.
-/

namespace FeatureTables

open Text

/-! ### Build options -/

structure BuildOptions where
  /-- How deep complex content may nest inside of the row of its parent. -/
  mergeMaxDepth : Nat := 6
  /-- How many columns such content may bring along. -/
  mergeMaxColumns? : Option Nat := none
  /-- The reference system of geometries that name none. -/
  defaultSrid : Int := 4326
  /-- The dimension of geometries that name none. -/
  defaultDimension : Nat := 2
deriving DecidableEq, Inhabited

/-- The largest number of a 64-bit and of a 32-bit word. -/
def max64 : Nat := Nat.pow 2 64 - 1
def max32 : Nat := Nat.pow 2 32 - 1

def BuildOptions.ofJson? (j : Json) : Option BuildOptions := do
  let r ← j.fields?
    ["merge_max_depth", "merge_max_columns", "default_srid", "geometry_dimension_default"] true
  return {
    mergeMaxDepth := ← r.defaulted "merge_max_depth" 6 (Json.asNat? max64)
    mergeMaxColumns? := ←
      r.defaulted "merge_max_columns" none (Json.asOption? (Json.asNat? max64))
    defaultSrid := ← r.defaulted "default_srid" 4326 (Json.asInt? 32)
    defaultDimension := ← r.defaulted "geometry_dimension_default" 2 (Json.asNat? 255) }

def Limits.ofJson? (j : Json) : Option Limits := do
  let r ← j.fields?
    ["max_xml_depth", "max_xml_size", "max_attributes", "max_schema_documents"] true
  let l : Limits := {}
  return {
    depth := ← r.defaulted "max_xml_depth" l.depth (Json.asNat? max64)
    size := ← r.defaulted "max_xml_size" l.size (Json.asNat? max64)
    attributes := ← r.defaulted "max_attributes" l.attributes (Json.asNat? max64)
    schemaDocuments := ← r.defaulted "max_schema_documents" l.schemaDocuments (Json.asNat? max64) }

/-! ### Configuration -/

structure Config where
  /-- Locations of the root schema documents. -/
  schemas : List String := []
  /-- The catalog that redirects locations. -/
  catalog? : Option String := none
  allowRemote : Bool := true
  timeoutSeconds : Nat := 30
  retries : Nat := 2
  /-- The directory of model files. -/
  cacheDir? : Option String := none
  build : BuildOptions := {}
  limits : Limits := {}
deriving DecidableEq, Inhabited

namespace Config

def ofJson? (j : Json) : Option Config := do
  let r ← j.fields?
    ["schemas", "catalog", "allow_remote", "timeout_secs", "retries", "cache_dir", "build",
     "limits"] true
  return {
    schemas := ← r.defaulted "schemas" [] (Json.asList? Json.asString?)
    catalog? := ← r.defaulted "catalog" none (Json.asOption? Json.asString?)
    allowRemote := ← r.defaulted "allow_remote" true Json.asBool?
    timeoutSeconds := ← r.defaulted "timeout_secs" 30 (Json.asNat? max64)
    retries := ← r.defaulted "retries" 2 (Json.asNat? max32)
    cacheDir? := ← r.defaulted "cache_dir" none (Json.asOption? Json.asString?)
    build := ← r.defaulted "build" {} BuildOptions.ofJson?
    limits := ← r.defaulted "limits" {} Limits.ofJson? }

def read (text : String) : Except Error Config :=
  match (Json.read? text).bind ofJson? with
  | some c => .ok c
  | none => .error (.config "not a configuration")

/-- A path of the file, seen from where its directory is seen. -/
def rebasePath (base path : String) : String :=
  if Path.isAbsolute path then path else Path.join base path

/-- A schema location of the file; what looks like a URL stays. -/
def rebaseSchema (base schema : String) : String :=
  if containsText schema "://" then schema else rebasePath base schema

/-- The configuration of a file in the directory `base`. -/
def rebase (base : String) (c : Config) : Config :=
  { c with
    schemas := c.schemas.map (rebaseSchema base)
    catalog? := c.catalog?.map (rebasePath base)
    cacheDir? := c.cacheDir?.map (rebasePath base) }

end Config
end FeatureTables
