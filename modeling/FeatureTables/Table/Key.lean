import FeatureTables.Text.Pieces

/-!
Keys of fields: paths from the element of a row to where a value stands, in steps between slashes.
Two fields of a table with one key are one field, and the key gives its column a name.
-/

namespace FeatureTables.Key

open Text

/-! ### Steps -/

/-- The key of the text of the element itself. -/
def text : String := "text()"

/-- The key of a geometry below the element. -/
def geometry : String := "geometry()"

/-- The key of the `id` attribute, which identifies rows by what the document says. -/
def naturalUid : String := "@id"

/-- The key of the number that identifies rows otherwise. -/
def syntheticUid : String := "id"

inductive Step where
  /-- Children of a name, which may carry the label of a namespace; only the first one of each
  parent if `first`. -/
  | tag (name : String) (first : Bool)
  | attr (name : String)
  | text
  | geometry
deriving DecidableEq, Inhabited

/-- A tag with `[0]` at its end selects first children. -/
def tagStep (s : String) : Step :=
  match after? "[0]".toList.reverse s.toList.reverse with
  | some rest => .tag (String.ofList rest.reverse) true
  | none => .tag s false

def stepOf (s : String) : Step :=
  if s = text then .text
  else if s = geometry then .geometry
  else
    match dropStart? s "@" with
    | some name => .attr name
    | none => tagStep s

/-- The steps of a key; slashes may be doubled. -/
def steps (key : String) : List Step := ((splitOn "/" key).filter (· ≠ "")).map stepOf

/-- The key of a field below one more step. -/
def under (step key : String) : String := step ++ "/" ++ key

/-! ### Column names -/

/-- The part of a key in front of a last step `tail`, if it ends so. -/
def before? (key tail : String) : Option String :=
  (after? tail.toList.reverse key.toList.reverse).map fun r => String.ofList r.reverse

/-- The name that a key suggests for its column: the steps between underscores, without the last
one if that is the text or a geometry. -/
def columnName (key : String) : String :=
  if key = text then "v"
  else if key = geometry then "geometry"
  else
    let stem := ((before? key "/text()").or (before? key "/geometry()")).getD key
    (replace "[0]" "" stem).map fun c => if c = '/' ∨ c = ':' then '_' else c

end FeatureTables.Key
