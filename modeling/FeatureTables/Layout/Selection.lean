import FeatureTables.Layout
import FeatureTables.Table.Key

/-!
What a key selects below the element of a row. The way goes through elements that are part of the
row; the rows of a link are at its end.
-/

namespace FeatureTables.Layout

open Key Text Xml

/-! ### The way down -/

/-- The element has this name, with the label of its namespace if the name carries one. -/
def hasTag (e : Element) (name : String) : Bool :=
  match splitOnce ':' name with
  | some (label, localName) =>
    e.localName == localName && e.ns?.bind namespaceLabel? == some label
  | none => e.localName == name

/-- Elements with rows of their own are where `rows` are looked for, parts of the row elsewhere. -/
def admits (rows : Bool) : Option Placement → Bool
  | some (.table _) => rows
  | some .inlined | some .empty => !rows
  | _ => false

/-- The children that a step leads to. -/
def stepFrom (l : Layout) (rows first : Bool) (name : String) (e : Element) : List Element :=
  let found := e.children.filter fun c => hasTag c name && admits rows (l.get? c.id)
  if first then found.take 1 else found

/-- The elements at the end of the steps, which are all tags; at a last step `rows` are looked for. -/
def descend (l : Layout) (rows : Bool) : List Step → List Element → List Element
  | [], es => es
  | .tag name first :: steps, es =>
    descend l rows steps (es.flatMap (stepFrom l (rows && steps.isEmpty) first name))
  | _ :: _, _ => []

/-! ### Selections -/

/-- The elements of the rows that a link leads to. -/
def selectNodes (l : Layout) (key : String) (e : Element) : List Element :=
  descend l true (steps key) [e]

/-- The last step of a key and those before it. -/
def lastStep? (key : String) : Option (List Step × Step) :=
  match (steps key).reverse with
  | [] => none
  | last :: before => some (before.reverse, last)

/-- The text that a key leads to: of the first element, which may have none, or the first attribute
of the name. -/
def selectText? (l : Layout) (key : String) (e : Element) : Option String := do
  let (tags, last) ← lastStep? key
  let es := descend l false tags [e]
  match last with
  | .text => es.head?.map fun n => n.text?.getD ""
  | .attr name => es.findSome? (·.attribute? name)
  | _ => none

def isGeometryAt (l : Layout) (e : Element) : Bool := l.get? e.id == some .geometry

/-- The first geometry that a key leads to. -/
def selectShape? (l : Layout) (key : String) (e : Element) : Option Element := do
  let (tags, last) ← lastStep? key
  match last with
  | .geometry => ((descend l false tags [e]).flatMap (·.children)).find? (isGeometryAt l)
  | _ => none

end FeatureTables.Layout
