import FeatureTables.Geometry.Shape
import FeatureTables.Text.Digit
import FeatureTables.Xml.Element

/-!
Geometries of documents: the type, the reference system and the dimension that an element states,
and the shape that it describes. What is no readable geometry has no shape; this is no error.
-/

namespace FeatureTables.Geometry

open Number Text Xml

/-! ### What an element states -/

/-- The type name of a geometry element in well-known text. -/
def wktType (localName : String) : String :=
  match localName with
  | "Point" => "POINT"
  | "LineString" | "LinearRing" | "Curve" | "OrientableCurve" => "LINESTRING"
  | "Polygon" | "Surface" | "PolygonPatch" => "POLYGON"
  | "MultiPoint" => "MULTIPOINT"
  | "MultiLineString" | "MultiCurve" => "MULTILINESTRING"
  | "MultiPolygon" | "MultiSurface" => "MULTIPOLYGON"
  | "MultiGeometry" => "GEOMETRYCOLLECTION"
  | _ => "GEOMETRY"

/-- The value of the first attribute of this name in the tree. -/
def firstAttribute? (e : Element) (localName : String) : Option String :=
  e.descendants.findSome? (·.attribute? localName)

/-- The digits that a text ends in, blanks after them aside. -/
def trailingDigits (s : String) : String :=
  String.ofList ((s.toList.reverse.dropWhile isBlank).takeWhile isDecimalDigit).reverse

/-- The number of the reference system, at the end of its name. -/
def srid? (e : Element) : Option Int :=
  (firstAttribute? e "srsName").bind fun s => readInt? 32 (trailingDigits s)

/-- The stated dimension, if it is two or three. -/
def dimension? (e : Element) : Option Nat :=
  ((firstAttribute? e "srsDimension").bind fun s => readNat? 255 (trim s)).filter fun d =>
    d = 2 ∨ d = 3

/-! ### Positions -/

def numbers? (ss : List String) : Option (List Binary64) := ss.mapM fun s => Binary64.read? (trim s)

/-- A list in groups of `n + 1`; the last group may be shorter. -/
def groups {α : Type} (n : Nat) (xs : List α) : List (List α) :=
  match xs with
  | [] => []
  | x :: r => (x :: r.take n) :: groups n (r.drop n)
termination_by xs.length
decreasing_by simp only [List.length_drop, List.length_cons]; omega

/-- The positions of a list of numbers. -/
def positions? (dimension : Nat) (e : Element) : Option (List Coord) := do
  let own? := (e.attribute? "srsDimension").bind (readNat? (Nat.pow 2 64 - 1))
  let d := own?.getD dimension
  let values ← numbers? (words (← e.text?))
  if d = 0 ∨ values.length % d ≠ 0 then none else some (groups (d - 1) values)

/-- The positions of a text with separators of its own. -/
def tuples? (e : Element) : Option (List Coord) := do
  let cs := (e.attribute? "cs").getD ","
  let decimal := (e.attribute? "decimal").getD "."
  let text ← e.text?
  let parts := match e.attribute? "ts" with
    | some ts => if trim ts = "" then words text else splitOn ts text
    | none => words text
  ((parts.map trim).filter (· ≠ "")).mapM fun t => numbers? (splitOn cs (replace decimal "." t))

/-- The position with a child for each axis. -/
def axes? (e : Element) : Option Coord :=
  (["X", "Y", "Z"].filterMap fun axis => (e.childrenNamed axis).head?).mapM fun c =>
    c.text?.bind fun t => Binary64.read? (trim t)

/-- The positions that one element holds itself. -/
def ownPositions? (dimension : Nat) (e : Element) : Option (List Coord) :=
  match e.localName with
  | "pos" | "posList" => positions? dimension e
  | "coordinates" => tuples? e
  | "coord" => (axes? e).map fun c => [c]
  | _ => some []

/-- All positions of the tree in document order; there has to be one. -/
def coordinates? (dimension : Nat) (e : Element) : Option (List Coord) := do
  let cs := (← e.descendants.mapM (ownPositions? dimension)).flatten
  if cs.isEmpty then none else some cs

/-! ### Parts -/

def point? (dimension : Nat) (e : Element) : Option Coord := do
  match ← coordinates? dimension e with
  | [c] => some c
  | _ => none

def line? (dimension : Nat) (e : Element) : Option (List Coord) :=
  (coordinates? dimension e).filter fun cs => 2 ≤ cs.length

def ring? (dimension : Nat) (e : Element) : Option (List Coord) :=
  (coordinates? dimension e).filter fun cs => 4 ≤ cs.length

/-- The rings of a polygon or of a patch. -/
def rings? (dimension : Nat) (e : Element) : Option (List (List Coord)) := do
  let exterior ← (e.childrenNamed "exterior" ++ e.childrenNamed "outerBoundaryIs").head?
  let interiors := e.childrenNamed "interior" ++ e.childrenNamed "innerBoundaryIs"
  (exterior :: interiors).mapM (ring? dimension)

/-- The rings of a polygon, or those of the first patch of a surface. -/
def polygon? (dimension : Nat) (e : Element) : Option (List (List Coord)) :=
  if e.localName = "Surface" then
    (e.descendants.find? (·.localName == "PolygonPatch")).bind (rings? dimension)
  else rings? dimension e

/-- The elements of these names in the members of a collection. -/
def members (kinds : List String) (e : Element) : List Element :=
  (e.children.flatMap (·.children)).filter fun g => kinds.contains g.localName

/-- The parts read from the members; there has to be one. -/
def parts? {α : Type} (kinds : List String) (read : Element → Option α) (e : Element) :
    Option (List α) := do
  let parts ← (members kinds e).mapM read
  if parts.isEmpty then none else some parts

/-! ### Shapes -/

/-- The shape of an element that is no collection. -/
def simple? (dimension : Nat) (e : Element) : Option Shape :=
  match e.localName with
  | "Point" => (point? dimension e).map .point
  | "LineString" | "LinearRing" | "Curve" | "OrientableCurve" => (line? dimension e).map .line
  | "Polygon" | "Surface" | "PolygonPatch" => (polygon? dimension e).map .polygon
  | "MultiPoint" => (parts? ["Point"] (point? dimension) e).map .multiPoint
  | "MultiLineString" | "MultiCurve" =>
    (parts? ["LineString", "Curve", "LinearRing", "OrientableCurve"] (line? dimension) e).map
      .multiLine
  | "MultiPolygon" | "MultiSurface" =>
    (parts? ["Polygon", "Surface"] (polygon? dimension) e).map .multiPolygon
  | _ => none

mutual
def shape? (dimension : Nat) : Element → Option Shape
  | ⟨id, name, attributes, text?, children, scope⟩ =>
    if name.localName = "MultiGeometry" then
      match memberShapes? dimension children with
      | none | some [] => none
      | some parts => some (.collection parts)
    else simple? dimension ⟨id, name, attributes, text?, children, scope⟩
/-- The shapes of all elements in the members of a collection. -/
def memberShapes? (dimension : Nat) : List Element → Option (List Shape)
  | [] => some []
  | ⟨_, _, _, _, children, _⟩ :: members =>
    match shapes? dimension children, memberShapes? dimension members with
    | some a, some b => some (a ++ b)
    | _, _ => none
def shapes? (dimension : Nat) : List Element → Option (List Shape)
  | [] => some []
  | e :: es =>
    match shape? dimension e, shapes? dimension es with
    | some s, some ss => some (s :: ss)
    | _, _ => none
end

/-! ### Decoding -/

/-- From a geometry element to well-known text and a reference system. -/
abbrev Codec := Element → Option (String × Int)

/-- The decoder that gives `defaultSrid` to geometries without a reference system. -/
def decode? (defaultSrid : Int) : Codec := fun e =>
  let dimension := (dimension? e).getD 2
  (shape? dimension e).map fun s => (s.wkt dimension, (srid? e).getD defaultSrid)

end FeatureTables.Geometry
