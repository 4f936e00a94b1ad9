import FeatureTables.Text.Blank
import FeatureTables.Text.Pieces

/-!
Qualified names, the namespaces with a meaning of their own, and the scopes in which a written name
such as `gml:Point` stands for a qualified one.
-/

namespace FeatureTables

open Text

/-! ### Namespaces -/

def xsdNamespace : String := "http://www.w3.org/2001/XMLSchema"
def xsiNamespace : String := "http://www.w3.org/2001/XMLSchema-instance"
def xlinkNamespace : String := "http://www.w3.org/1999/xlink"
def xmlNamespace : String := "http://www.w3.org/XML/1998/namespace"
def xmlnsNamespace : String := "http://www.w3.org/2000/xmlns/"
def gmlNamespace : String := "http://www.opengis.net/gml"
def gml32Namespace : String := "http://www.opengis.net/gml/3.2"

/-- The namespaces whose attributes need no declaration. -/
def isReserved (ns? : Option String) : Bool :=
  ns? == some xsiNamespace || ns? == some xlinkNamespace || ns? == some xmlNamespace

def isGml (ns? : Option String) : Bool :=
  ns? == some gmlNamespace || ns? == some gml32Namespace

/-- The segments of a namespace between `/`, `:` and `#`. -/
def segmentsFrom (run : List Char) : List Char → List (List Char)
  | [] => [run.reverse]
  | c :: s =>
    if c = '/' ∨ c = ':' ∨ c = '#' then run.reverse :: segmentsFrom [] s
    else segmentsFrom (c :: run) s

/-- The last segment of a namespace that starts with an ASCII letter, which a version does not. -/
def namespaceLabel? (ns : String) : Option String :=
  ((segmentsFrom [] ns.toList).reverse.find? fun s => s.head?.any Char.isAlpha).map String.ofList

/-! ### Qualified names -/

structure QName where
  ns? : Option String
  localName : String
deriving DecidableEq, Inhabited, Hashable

namespace QName

/-- A name without a namespace. -/
def plain (localName : String) : QName := ⟨none, localName⟩

def xsd (localName : String) : QName := ⟨some xsdNamespace, localName⟩

def xsi (localName : String) : QName := ⟨some xsiNamespace, localName⟩

/-- A name with its namespace in braces in front. -/
def toText (q : QName) : String :=
  match q.ns? with
  | none => q.localName
  | some ns => "\x7b" ++ ns ++ "\x7d" ++ q.localName

/-- Reads what `toText` writes. -/
def ofText (s : String) : QName :=
  match (dropStart? s "\x7b").bind (splitOnce '\x7d') with
  | some (ns, localName) => ⟨some ns, localName⟩
  | none => plain s

end QName

/-! ### Scopes -/

/-- The namespaces that prefixes stand for at one place of a document; of two entries of one
prefix the first counts. -/
structure Scope where
  bindings : List (String × String) := []
  default? : Option String := none
deriving Inhabited

namespace Scope

def empty : Scope := {}

def bind (s : Scope) (label ns : String) : Scope :=
  { s with bindings := (label, ns) :: s.bindings }

/-- The empty namespace takes the default away. -/
def bindDefault (s : Scope) (ns : String) : Scope :=
  { s with default? := if ns.isEmpty then none else some ns }

def namespace? (s : Scope) (label : String) : Option String :=
  if label = "xml" then some xmlNamespace else s.bindings.lookup label

/-- The qualified name that a written name stands for, or the prefix that nothing binds with the
written name. -/
def resolve (s : Scope) (written : String) : Except (String × String) QName :=
  let name := trim written
  match splitOnce ':' name with
  | none => .ok ⟨s.default?, name⟩
  | some (label, localName) =>
    match s.namespace? label with
    | some ns => .ok ⟨some ns, localName⟩
    | none => .error (label, name)

end Scope
end FeatureTables
