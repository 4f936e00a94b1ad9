import FeatureTables.Name

/-!
The element tree of a document. Elements are numbered in document order; `Element.find?` follows the
numbers down to the one element that can hold a node.
-/

namespace FeatureTables.Xml

/-- The number of an element within its document. -/
abbrev NodeId := Nat

structure Attribute where
  name : QName
  value : String
deriving DecidableEq, Inhabited

structure Element where
  id : NodeId
  name : QName
  attributes : List Attribute := []
  /-- The text without blanks at its ends; `none` when nothing is left. -/
  text? : Option String := none
  children : List Element := []
  scope : Scope := {}
deriving Inhabited

namespace Element

def localName (e : Element) : String := e.name.localName

def ns? (e : Element) : Option String := e.name.ns?

/-- The value of the first attribute with this local name, in any namespace. -/
def attribute? (e : Element) (localName : String) : Option String :=
  (e.attributes.find? (·.name.localName == localName)).map (·.value)

/-- The value of the attribute with this name. -/
def attributeNamed? (e : Element) (name : QName) : Option String :=
  (e.attributes.find? (·.name == name)).map (·.value)

def childrenNamed (e : Element) (localName : String) : List Element :=
  e.children.filter (·.localName == localName)

/-! ### The tree below an element -/

mutual
/-- The element and all below it, in document order. -/
def descendants : Element → List Element
  | ⟨id, name, attributes, text?, children, scope⟩ =>
    ⟨id, name, attributes, text?, children, scope⟩ :: descendantsAmong children
def descendantsAmong : List Element → List Element
  | [] => []
  | e :: es => descendants e ++ descendantsAmong es
end

mutual
/-- The element with this number in the tree. -/
def find? (target : NodeId) : Element → Option Element
  | ⟨id, name, attributes, text?, children, scope⟩ =>
    if id = target then some ⟨id, name, attributes, text?, children, scope⟩
    else findAmong? target children
/-- Looks into the last of the elements whose number is not above the target. -/
def findAmong? (target : NodeId) : List Element → Option Element
  | [] => none
  | e :: es =>
    match es with
    | [] => if e.id ≤ target then find? target e else none
    | f :: _ =>
      if f.id ≤ target then findAmong? target es
      else if e.id ≤ target then find? target e else none
end

mutual
/-- The number of elements in the tree. -/
def size : Element → Nat
  | ⟨_, _, _, _, children, _⟩ => 1 + sizeAmong children
def sizeAmong : List Element → Nat
  | [] => 0
  | e :: es => size e + sizeAmong es
end

theorem descendantsAmong_eq (es : List Element) :
    descendantsAmong es = es.flatMap descendants := by
  induction es with
  | nil => simp [descendantsAmong]
  | cons e es ih => simp [descendantsAmong, ih]

theorem descendants_eq (e : Element) : e.descendants = e :: e.children.flatMap descendants := by
  cases e
  simp [descendants, descendantsAmong_eq]

end Element
end FeatureTables.Xml
