import FeatureTables.Number.Shortest

/-!
Geometries and their well-known text. A geometry of dimension three carries the tag `Z`, a
collection leaves it to its parts.
-/

namespace FeatureTables

open Number

/-- The numbers of one position. -/
abbrev Coord := List Binary64

inductive Shape where
  | point (c : Coord)
  | line (cs : List Coord)
  /-- The exterior ring, then the interior ones. -/
  | polygon (rings : List (List Coord))
  | multiPoint (cs : List Coord)
  | multiLine (lines : List (List Coord))
  | multiPolygon (polygons : List (List (List Coord)))
  | collection (parts : List Shape)

namespace Shape

def listText (parts : List String) : String := "(" ++ String.intercalate ", " parts ++ ")"

def coordText (c : Coord) : String := String.intercalate " " (c.map Binary64.plain)

def lineText (cs : List Coord) : String := listText (cs.map coordText)

def polygonText (rings : List (List Coord)) : String := listText (rings.map lineText)

/-- What follows the name of a geometry. -/
def tag (dimension : Nat) : String := if dimension = 3 then " Z " else " "

mutual
/-- The well-known text of a geometry whose positions have `dimension` numbers. -/
def wkt (dimension : Nat) : Shape → String
  | point c => "POINT" ++ tag dimension ++ "(" ++ coordText c ++ ")"
  | line cs => "LINESTRING" ++ tag dimension ++ lineText cs
  | polygon rings => "POLYGON" ++ tag dimension ++ polygonText rings
  | multiPoint cs =>
    "MULTIPOINT" ++ tag dimension ++ listText (cs.map fun c => "(" ++ coordText c ++ ")")
  | multiLine lines => "MULTILINESTRING" ++ tag dimension ++ listText (lines.map lineText)
  | multiPolygon polygons => "MULTIPOLYGON" ++ tag dimension ++ listText (polygons.map polygonText)
  | collection parts => "GEOMETRYCOLLECTION " ++ listText (wkts dimension parts)
def wkts (dimension : Nat) : List Shape → List String
  | [] => []
  | s :: ss => wkt dimension s :: wkts dimension ss
end

end Shape
end FeatureTables
