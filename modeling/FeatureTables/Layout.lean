import FeatureTables.Xml.NodeMap

/-!
Where the elements of a document go in the tables of a model.
-/

namespace FeatureTables

inductive Placement where
  /-- The element has a row of its own in this table. -/
  | table (name : String)
  /-- The element is part of the row of an element above it. -/
  | inlined
  /-- The element is a geometry in such a row. -/
  | geometry
  /-- The element says nothing. -/
  | empty
deriving DecidableEq, Inhabited

/-- The placements of the elements of a document. -/
abbrev Layout := Xml.NodeMap Placement

end FeatureTables
