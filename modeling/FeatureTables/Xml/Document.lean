import FeatureTables.Limits
import FeatureTables.Xml.Element
import FeatureTables.Xml.Entity
import FeatureTables.Xml.Token

/-!
Documents: the element tree built from the tokens of the input, with namespaces resolved and limits
checked on the way. Faults come in the order of the input.
-/

namespace FeatureTables.Xml

open Text

/-! ### Namespaces of written names -/

/-- Prefixes with their namespaces as bytes, innermost first; the empty prefix is the default. -/
abbrev Bindings := List (Bytes × Bytes)

/-- The two prefixes that are bound in every document. -/
def Bindings.initial : Bindings :=
  [(utf8 "xmlns", utf8 xmlnsNamespace), (utf8 "xml", utf8 xmlNamespace)]

/-- The prefix that an attribute name binds; the empty one is the default. -/
def bound? (key : Bytes) : Option Bytes :=
  if key.take 5 == utf8 "xmlns" then
    match key.drop 5 with
    | [] => some []
    | c :: label => if c == byte ':' then some label else none
  else none

/-- The binding that one attribute adds. The prefixes `xml` and `xmlns` and their namespaces belong
to each other only. -/
def Bindings.addAttribute (bs : Bindings) (key value : Bytes) : Except String Bindings :=
  match bound? key with
  | none => .ok bs
  | some label =>
    if key.length = 5 then .ok (([], value) :: bs)
    else if label == utf8 "xml" then
      if value == utf8 xmlNamespace then .ok bs else .error "xml bound to another namespace"
    else if label == utf8 "xmlns" then .error "xmlns bound"
    else if value == utf8 xmlNamespace || value == utf8 xmlnsNamespace then
      .error "reserved namespace bound"
    else .ok ((label, value) :: bs)

def Bindings.addAttributes (bs : Bindings) (attributes : List (Bytes × Bytes)) :
    Except String Bindings :=
  attributes.foldlM (fun bs (key, value) => bs.addAttribute key value) bs

/-- A written name as its prefix and its local part. -/
def splitName (name : Bytes) : Option Bytes × Bytes :=
  if name.contains (byte ':') then
    let (label, localName) := cutAt (byte ':') name
    (some label, localName)
  else (none, name)

/-- The namespace of a prefix, or of an element without one. -/
def Bindings.namespace? (bs : Bindings) : Option Bytes → Except XmlFault (Option String)
  | none =>
    match bs.lookup [] with
    | none | some [] => .ok none
    | some ns => .ok (some (fromUtf8Lossy ns))
  | some label =>
    match if label.isEmpty then none else bs.lookup label with
    | none | some [] => .error (.unknownPrefix (fromUtf8Lossy label))
    | some ns => .ok (some (fromUtf8Lossy ns))

/-! ### One element -/

def decodeText (raw : Bytes) : Except XmlFault String :=
  match fromUtf8? raw with
  | none => .error (.badText "not UTF-8")
  | some s => (expand s.toList).map String.ofList |>.mapError .badText

def decodeValue (raw : Bytes) : Except XmlFault String :=
  match fromUtf8? raw with
  | none => .error (.badValue "not UTF-8")
  | some s => (expand s.toList).map String.ofList |>.mapError .badValue

/-- Attributes and scope of a tag while its attributes are read, the last attribute first. -/
structure Opening where
  attributes : List Attribute := []
  scope : Scope
  keys : List Bytes := []

/-- Takes in one written attribute: a namespace declaration goes into the scope. -/
def Opening.add (bs : Bindings) (o : Opening) (key raw : Bytes) : Except XmlFault Opening :=
  if o.keys.contains key then .error (.badAttribute "attribute given twice")
  else do
    let value ← decodeValue raw
    let o := { o with keys := key :: o.keys }
    match bound? key with
    | some label =>
      if key.length = 5 then pure { o with scope := o.scope.bindDefault value }
      else pure { o with scope := o.scope.bind (fromUtf8Lossy label) value }
    | none =>
      let (label?, rawName) := splitName key
      let ns? ← match label? with
        | none => pure none
        | some label => bs.namespace? (some label)
      match fromUtf8? rawName with
      | none => .error .badAttributeName
      | some localName => pure { o with attributes := ⟨⟨ns?, localName⟩, value⟩ :: o.attributes }

def Opening.addAll (bs : Bindings) (o : Opening) (pairs : List (Bytes × Bytes)) :
    Except XmlFault Opening :=
  pairs.foldlM (fun o (key, raw) => Opening.add bs o key raw) o

/-- The element that a tag opens, below `depth` open ones, and the bindings inside of it. -/
def openElement (limits : Limits) (depth : Nat) (bs : Bindings) (scope : Scope) (id : NodeId)
    (body : Bytes) : Except Error (Element × Bindings) := do
  let (pairs, fault?) := bodyAttributes body
  let bs ← (bs.addAttributes pairs).mapError fun f => .xml (.malformed f)
  let (label?, rawName) := splitName (bodyName body)
  let ns? ← (bs.namespace? label?).mapError .xml
  limits.checkDepth (depth + 1)
  let some localName := fromUtf8? rawName | .error (.xml .badElementName)
  let opening ← (Opening.addAll bs { scope } pairs).mapError .xml
  if let some f := fault? then throw (.xml (.badAttribute f))
  limits.checkAttributes opening.attributes.length
  return ({ id, name := ⟨ns?, localName⟩, attributes := opening.attributes.reverse,
            scope := opening.scope }, bs)

/-! ### The tree -/

/-- An element whose end tag has not come: its children and its pieces of text, last ones first. -/
structure Open where
  element : Element
  tag : Bytes
  bindings : Bindings
  children : List Element := []
  text : List String := []

/-- The finished element. -/
def Open.close (o : Open) : Element :=
  let text := trim (String.join o.text.reverse)
  { o.element with children := o.children.reverse, text? := if text.isEmpty then none else some text }

/-- What has been built of a document: the open elements, innermost first, the root once it is
closed, and the number of the next element. -/
structure Building where
  stack : List Open := []
  root? : Option Element := none
  nextId : NodeId := 0

namespace Building

/-- Puts a finished element where it belongs. -/
def attach (b : Building) (e : Element) : Except Error Building :=
  match b.stack, b.root? with
  | o :: stack, _ => .ok { b with stack := { o with children := e :: o.children } :: stack }
  | [], none => .ok { b with root? := some e }
  | [], some _ => .error (.xml .secondRoot)

/-- Opens the element of a tag body. -/
def enter (limits : Limits) (b : Building) (body : Bytes) : Except Error (Element × Bindings) :=
  let bindings := (b.stack.head?.map (·.bindings)).getD .initial
  let scope := (b.stack.head?.map (·.element.scope)).getD {}
  openElement limits b.stack.length bindings scope b.nextId body

def step (limits : Limits) (b : Building) : Token → Except Error Building
  | .skipped => .ok b
  | .start body => do
    let (element, bindings) ← b.enter limits body
    let o : Open := { element, tag := bodyName body, bindings }
    return { b with stack := o :: b.stack, nextId := b.nextId + 1 }
  | .empty body => do
    let (element, _) ← b.enter limits body
    { b with nextId := b.nextId + 1 }.attach element
  | .stop name =>
    match b.stack with
    | [] => .error (.xml (.malformed "end tag without a start tag"))
    | o :: stack =>
      if o.tag = name then { b with stack }.attach o.close
      else .error (.xml (.malformed "end tag of another name"))
  | .text raw =>
    match b.stack with
    | [] => .ok b
    | o :: stack => do
      let text ← (decodeText raw).mapError .xml
      return { b with stack := { o with text := text :: o.text } :: stack }
  | .cdata raw =>
    match b.stack with
    | [] => .ok b
    | o :: stack =>
      .ok { b with stack := { o with text := fromUtf8Lossy raw :: o.text } :: stack }

end Building

/-- A document: its root and how many elements its input opened. -/
structure Document where
  root : Element
  nodeCount : Nat
deriving Inhabited

namespace Document

def parse (limits : Limits) (bytes : Bytes) : Except Error Document := do
  limits.checkSize bytes.length
  let (tokens, fault?) := Token.scan (withoutMark bytes)
  let built ← tokens.foldlM (Building.step limits) {}
  if let some f := fault? then throw (.xml (.malformed f))
  match built.root? with
  | none => throw (.xml .noRoot)
  | some root => return { root, nodeCount := built.nextId }

/-- The document of a text, within the default limits. -/
def ofText (s : String) : Except Error Document := parse {} (utf8 s)

end Document
end FeatureTables.Xml
