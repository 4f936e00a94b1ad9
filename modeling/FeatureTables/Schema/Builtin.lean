import FeatureTables.Schema.Component

/-!
The builtin types of XSD: a tree with `anyType` at its root, and three types of lists.
-/

namespace FeatureTables.Schema.Builtin

/-- The type that all types derive from: any content and any attributes. -/
def anyType : TypeDef :=
  .complex {
    site := default, name? := some (.xsd "anyType"), base? := none, derivation := .restriction,
    content := .mixed,
    particle? := some ⟨.once, .sequence [⟨⟨0, .unbounded⟩, .any⟩]⟩,
    attributes := [], attributeGroups := [], anyAttribute := true, isAbstract := false }

/-- A builtin simple type. -/
def simpleType (name base : String) (variety : Variety) : TypeDef :=
  .simple ⟨default, some (.xsd name), some (.named (.xsd base)), variety⟩

/-- The atomic types, each with its base. -/
def bases : List (String × String) :=
  [("anySimpleType", "anyType"),
   ("string", "anySimpleType"), ("boolean", "anySimpleType"), ("decimal", "anySimpleType"),
   ("float", "anySimpleType"), ("double", "anySimpleType"), ("duration", "anySimpleType"),
   ("dateTime", "anySimpleType"), ("time", "anySimpleType"), ("date", "anySimpleType"),
   ("gYearMonth", "anySimpleType"), ("gYear", "anySimpleType"), ("gMonthDay", "anySimpleType"),
   ("gDay", "anySimpleType"), ("gMonth", "anySimpleType"), ("hexBinary", "anySimpleType"),
   ("base64Binary", "anySimpleType"), ("anyURI", "anySimpleType"), ("QName", "anySimpleType"),
   ("NOTATION", "anySimpleType"),
   ("normalizedString", "string"), ("token", "normalizedString"), ("language", "token"),
   ("NMTOKEN", "token"), ("Name", "token"), ("NCName", "Name"), ("ID", "NCName"),
   ("IDREF", "NCName"), ("ENTITY", "NCName"),
   ("integer", "decimal"), ("nonPositiveInteger", "integer"),
   ("negativeInteger", "nonPositiveInteger"), ("long", "integer"), ("int", "long"),
   ("short", "int"), ("byte", "short"), ("nonNegativeInteger", "integer"),
   ("unsignedLong", "nonNegativeInteger"), ("unsignedInt", "unsignedLong"),
   ("unsignedShort", "unsignedInt"), ("unsignedByte", "unsignedShort"),
   ("positiveInteger", "nonNegativeInteger")]

/-- The types of lists, each with the type of its items. -/
def items : List (String × String) :=
  [("NMTOKENS", "NMTOKEN"), ("IDREFS", "IDREF"), ("ENTITIES", "ENTITY")]

/-- The builtin type of this name. -/
def type? (name : String) : Option TypeDef :=
  if name = "anyType" then some anyType
  else
    match bases.lookup name with
    | some base => some (simpleType name base .atomic)
    | none => (items.lookup name).map fun item =>
        simpleType name "anySimpleType" (.list (.named (.xsd item)))

/-- All of them. -/
def types : List TypeDef :=
  ("anyType" :: (bases.map (·.1) ++ items.map (·.1))).filterMap type?

def isBuiltin (name : QName) : Bool :=
  name.ns? == some xsdNamespace && (type? name.localName).isSome

end FeatureTables.Schema.Builtin
