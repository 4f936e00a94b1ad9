import FeatureTables.Occurs

/-!
What can go wrong, as causes, and the one place where each cause gets its wording: `Error.message`.
-/

namespace FeatureTables

/-! ### Where it went wrong -/

/-- The labelled parts of a message that lead back to the document. -/
structure Place where
  tag? : Option String := none
  table? : Option String := none
  xpath? : Option String := none
  location? : Option String := none
deriving DecidableEq, Inhabited

/-- A labelled part, set off by an empty line. -/
def labelled (label : String) : Option String → String
  | none => ""
  | some text => "\n\n" ++ label ++ ": " ++ text

def Place.sections (p : Place) : String :=
  labelled "Tag" p.tag? ++ labelled "Table" p.table? ++ labelled "Xpath" p.xpath?
    ++ labelled "Location" p.location?

/-! ### Causes -/

/-- Why a document or a schema could not be bound to declarations. -/
inductive Unresolved where
  | noRootDeclaration
  | undeclaredAttribute (type : String)
  | undeclaredChild (parent type : String)
  | unknownXsiType (name : String)
  | xsiTypeNotDerived (name declared : String)
  | unknownType (name : String)
  | unknownGroup (name : String)
  | unknownElement (name : String)
  | unknownAttribute (name : String)
  | unknownAttributeGroup (name : String)
  | memberNotDerived (member head : String)
  | unloadable (reason : String)
  | untyped
  | noTable
  /-- The rows that a link leads to are without end. -/
  | endless
  /-- The items of a list are lists again, without end. -/
  | endlessList (type : String)
  | stated (text : String)
deriving DecidableEq

def Unresolved.message : Unresolved → String
  | noRootDeclaration => "no global declaration for the document root"
  | undeclaredAttribute type => "attribute not declared by type " ++ type
  | undeclaredChild parent type =>
    "no declaration in the content model of " ++ parent ++ " " ++ type
  | unknownXsiType name => "unknown xsi:type " ++ name
  | xsiTypeNotDerived name declared => "xsi:type " ++ name ++ " does not derive from " ++ declared
  | unknownType name => "unknown type " ++ name
  | unknownGroup name => "unknown model group " ++ name
  | unknownElement name => "unknown element reference " ++ name
  | unknownAttribute name => "unknown attribute reference " ++ name
  | unknownAttributeGroup name => "unknown attribute group " ++ name
  | memberNotDerived member head =>
    "type " ++ member ++ " of substitution member does not derive from " ++ head
  | unloadable reason => "cannot load schema document: " ++ reason
  | untyped => "node has no type annotation"
  | noTable => "no table for node"
  | endless => "link leads back to its own node"
  | endlessList type => "type " ++ type ++ " is a list of itself"
  | stated text => text

/-- How a document breaks the bounds of its tables. -/
inductive Violation where
  | valueMissing
  | childMissing
  | geometryMissing
  | tooMany (count : Nat) (max : MaxOccurs)
  | stated (text : String)
deriving DecidableEq

def Violation.message : Violation → String
  | valueMissing => "required value is missing"
  | childMissing => "required child is missing"
  | geometryMissing => "required geometry is missing"
  | tooMany count max => toString count ++ " occurrences exceed maxOccurs " ++ max.toText
  | stated text => text

/-- Which limit an input went over, and by what. -/
inductive Excess where
  | depth (found max : Nat)
  | size (found max : Nat)
  | attributes (found max : Nat)
  | schemaDocuments (found max : Nat)
  | catalogNesting (max : Nat) (path : String)
deriving DecidableEq

def Excess.message : Excess → String
  | depth found max => "XML depth " ++ toString found ++ " exceeds maximum " ++ toString max
  | size found max =>
    "XML size " ++ toString found ++ " bytes exceeds maximum " ++ toString max ++ " bytes"
  | attributes found max =>
    "Attribute count " ++ toString found ++ " exceeds maximum " ++ toString max
  | schemaDocuments found max =>
    "Schema document count " ++ toString found ++ " exceeds maximum " ++ toString max
  | catalogNesting max path =>
    "Catalog nesting deeper than " ++ toString max ++ " at '" ++ path ++ "'"

/-- Why bytes are no document. -/
inductive XmlFault where
  | malformed (what : String)
  | badAttribute (what : String)
  | badValue (what : String)
  | badText (what : String)
  | badElementName
  | badAttributeName
  | unknownPrefix (label : String)
  | noRoot
  | secondRoot
deriving DecidableEq

def XmlFault.message : XmlFault → String
  | malformed what => "Error parsing XML: " ++ what
  | badAttribute what => "Failed to parse attribute: " ++ what
  | badValue what => "Failed to unescape attribute value: " ++ what
  | badText what => "Failed to unescape text: " ++ what
  | badElementName => "Invalid element name: not UTF-8"
  | badAttributeName => "Invalid attribute name: not UTF-8"
  | unknownPrefix label => "Unknown namespace prefix '" ++ label ++ "'"
  | noRoot => "Document has no root element"
  | secondRoot => "Document has more than one root element"

/-- Why a model file is not used. -/
inductive ModelFileFault where
  | badMagic
  | badVersion (found : String)
  | newerVersion (found known : Nat)
  | otherKey (found : String)
  | payload
deriving DecidableEq

def ModelFileFault.message : ModelFileFault → String
  | badMagic => "invalid model file: bad magic"
  | badVersion found => "invalid model file: bad version '" ++ found ++ "'"
  | newerVersion found known =>
    "invalid model file: version " ++ toString found ++ " is newer than " ++ toString known
  | otherKey found => "model file was written for '" ++ found ++ "'"
  | payload => "invalid model file: not a model"

/-! ### Errors -/

inductive Error where
  | schemaResolution (cause : Unresolved) (place : Place)
  | cardinality (cause : Violation) (place : Place)
  | parse (text : String) (location? : Option String)
  | modelFile (cause : ModelFileFault)
  | resource (text : String)
  | limitExceeded (excess : Excess)
  | cancelled
  | config (text : String)
  | files (text : String)
  | xml (fault : XmlFault)
  | url
  | json
deriving DecidableEq

namespace Error

/-- A binding failure at no particular place. -/
def unresolved (cause : Unresolved) : Error := .schemaResolution cause {}

def message : Error → String
  | schemaResolution cause place =>
    "schema resolution error: " ++ cause.message ++ place.sections
  | cardinality cause place => "cardinality violation: " ++ cause.message ++ place.sections
  | parse text location? => "parse error: " ++ text ++ labelled "Location" location?
  | modelFile cause => "invalid model file: " ++ cause.message
  | resource text => "resource error: " ++ text
  | limitExceeded excess => "limit exceeded: " ++ excess.message
  | cancelled => "operation cancelled"
  | config text => "configuration error: " ++ text
  | files text => "I/O error: " ++ text
  | xml fault => "XML error: " ++ fault.message
  | url => "URL error: relative URL without a base"
  | json => "JSON error: invalid value"

/-- A written name with a prefix that nothing binds. -/
def unknownPrefix (label name : String) : Error :=
  .parse ("Unknown namespace prefix '" ++ label ++ "' in '" ++ name ++ "'") none

/-- Names the tag of a binding failure that names none yet. -/
def withTag (tag : String) : Error → Error
  | schemaResolution cause place =>
    schemaResolution cause { place with tag? := place.tag?.or (some tag) }
  | e => e

end Error

/-! ### Results of computations that may fail -/

/-- One computation after the other gives a result if both do. -/
theorem bind_eq_ok_iff {ε α β : Type} {x : Except ε α} {f : α → Except ε β} {b : β} :
    x >>= f = .ok b ↔ ∃ a, x = .ok a ∧ f a = .ok b := by
  cases x with
  | error e => simp [bind, Except.bind]
  | ok a => simp [bind, Except.bind]

theorem toOption_eq_some_iff {ε α : Type} {x : Except ε α} {a : α} :
    x.toOption = some a ↔ x = .ok a := by
  cases x <;> simp [Except.toOption]

theorem map_eq_ok_iff {ε α β : Type} {x : Except ε α} {f : α → β} {b : β} :
    x.map f = .ok b ↔ ∃ a, x = .ok a ∧ f a = b := by
  cases x with
  | error e => simp [Except.map]
  | ok a => simp [Except.map]

theorem mapError_eq_ok_iff {ε ε' α : Type} {x : Except ε α} {f : ε → ε'} {a : α} :
    x.mapError f = .ok a ↔ x = .ok a := by
  cases x with
  | error e =>
    show Except.error (f e) = .ok a ↔ _
    simp
  | ok b =>
    show Except.ok b = .ok a ↔ _
    simp

end FeatureTables
