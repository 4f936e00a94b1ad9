import FeatureTables.Number.Shortest

/-!
What a cell of a row holds. A cell that would be null is not there.
-/

namespace FeatureTables

open Number

inductive Value where
  | int (n : Int)
  | real (x : Binary64)
  | bool (b : Bool)
  | text (s : String)
  /-- Well-known text with the number of a reference system. -/
  | geometry (wkt : String) (srid : Int)
deriving DecidableEq, Inhabited

def Value.toText : Value → String
  | int n => toString n
  | real x => x.plain
  | bool b => if b then "true" else "false"
  | text s => s
  | geometry wkt srid => "SRID=" ++ toString srid ++ ";" ++ wkt

end FeatureTables
