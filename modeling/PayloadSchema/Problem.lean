import PayloadSchema.Message.Mode
import PayloadSchema.QName
import PayloadSchema.Schema.Kind
import PayloadSchema.Text.Quoted

/-!
# Problems

A problem is the reason why a document cannot be read or a payload schema cannot be made. Each problem has
one error class, one message and at most one offending property, and these three are what a user is shown.
-/

namespace PayloadSchema

open Text

inductive ErrorClass where
  | multipleSchemas
  | encodedUse
  | missingType
  | missingRefTarget
  | missingGroup
  | circularReference
  | unsupportedParticle
  | unsupportedBase
  | construction
  | namespaceTarget
  | invalidWsdl
deriving DecidableEq, Repr

namespace ErrorClass

def tag : ErrorClass → String
  | .multipleSchemas => "multiple-schemas-unsupported"
  | .encodedUse => "use-encoded-unsupported"
  | .missingType => "missing-type"
  | .missingRefTarget => "missing-ref-target"
  | .missingGroup => "missing-group"
  | .circularReference => "circular-reference"
  | .unsupportedParticle => "unsupported-particle-kind"
  | .unsupportedBase => "unsupported-extension-base"
  | .construction => "node-construction-failure"
  | .namespaceTarget => "namespace-target-not-found"
  | .invalidWsdl => "invalid-wsdl"

def all : List ErrorClass :=
  [.multipleSchemas, .encodedUse, .missingType, .missingRefTarget, .missingGroup, .circularReference,
    .unsupportedParticle, .unsupportedBase, .construction, .namespaceTarget, .invalidWsdl]

def ofTag? (s : String) : Option ErrorClass :=
  all.find? (·.tag == s)

end ErrorClass

/-- The reasons why a document is refused or a payload schema cannot be made. -/
inductive Problem where
  /-- The document is not well-formed. -/
  | notWellFormed
  /-- The document type declares an entity. -/
  | entityDeclared (name : String) (systemId publicId : Option String)
  /-- The document's root is not a schema. -/
  | notSchema (tag : QName)
  /-- The document's root is not a set of service definitions. -/
  | notDefinitions (tag : QName)
  /-- A name in a schema uses a prefix that is not in scope. -/
  | undeclaredPrefix (label value : String)
  /-- An attribute of a service description uses a prefix that is not in scope. -/
  | undeclaredAttributePrefix (label key value : String)
  /-- An element of a service description lacks an attribute. -/
  | missingAttribute (key element : String) (name : Option String)
  | unknownStyle (value : String)
  | unknownUse (value : String)
  | missingService (service : QName)
  | missingPort (port : String) (service : QName)
  | missingPortType (portType binding : QName)
  | missingOperation (operation : String) (portType : QName)
  | missingMessage (message : QName)
  | missingPart (part : String) (message : QName)
  | missingHeaderPart (part : String) (message : QName)
  /-- More nodes were to be copied than the limit allows. -/
  | workLimit (limit : Nat)
  /-- A node that cannot be copied was reached through a name. -/
  | uncopiedKind (kind : Schema.Kind)
  /-- A node of a kind that has no copy was found inside another. -/
  | noTarget (kind : Schema.Kind)
  | circularType (chain : List QName) (name : QName)
  | missingRefTarget (name : Option QName)
  | missingSubstitutionHead (name : QName)
  | emptyContentModel (kind : Schema.Kind)
  | missingType (name : QName)
  | missingSimpleType (name : QName)
  | notSimpleType (name : QName)
  | unsupportedBase (name : QName)
  | missingGroup (name : Option QName)
  | missingAttributeGroup (name : Option QName)
  | circularAttributeGroup (chain : List QName) (name : QName)
  | unsupportedParticle (kind : Schema.Kind)
  /-- A finished schema still has named types or groups. -/
  | namedComponents
  /-- A finished schema still refers to a type that is not built in. -/
  | foreignType (name : QName)
  /-- A finished schema still holds a reference. -/
  | unresolvedReference (name : Option QName)
  | unexpectedInGroup (kind : Schema.Kind)
  | unresolvedAttribute (kind : Schema.Kind)
  /-- No element of the schema takes the namespace of a part. -/
  | missingPartElement (part : QName)
  | multipleSchemas
  | encodedUse
  | undeclaredElement (element part : QName)
  | undeclaredType (type part : QName)
  /-- A part names neither an element nor a type. -/
  | untypedPart (part : QName)
  /-- A problem met while the payload schema of a message was made. -/
  | inMessage (direction : Direction) (operation : QName) (cause : Problem)
  /-- A service description that was found unreadable before. -/
  | unreadable (message : String)
  | missingServiceName
  | missingPortName (service : QName)
deriving Repr

namespace Problem

def chainText (chain : List QName) : String :=
  ", ".intercalate (chain.map QName.toText)

def message : Problem → String
  | .notWellFormed => "Invalid XML"
  | .entityDeclared name systemId publicId =>
    "Invalid XML: EntitiesForbidden(name=" ++ quoted name ++ ", system_id=" ++ quotedOption systemId ++
      ", public_id=" ++ quotedOption publicId ++ ")"
  | .notSchema tag => "Root element is not an XML Schema: " ++ tag.toText
  | .notDefinitions tag => "Root element is not a WSDL 1.1 definitions element: " ++ tag.toText
  | .undeclaredPrefix label value => s!"Unknown namespace prefix '{label}' in '{value}'"
  | .undeclaredAttributePrefix label key value =>
    "Unknown namespace prefix " ++ quoted label ++ " in " ++ key ++ "=" ++ quoted value
  | .missingAttribute key element name =>
    s!"Missing {key} attribute on {element} " ++ quotedOption name
  | .unknownStyle value => "Unknown SOAP style " ++ quoted value
  | .unknownUse value => "Unknown SOAP use " ++ quoted value
  | .missingService service => "Missing service " ++ service.toText
  | .missingPort port service => s!"Missing SOAP port {port} in service " ++ service.toText
  | .missingPortType portType binding =>
    "Missing portType " ++ portType.toText ++ " for binding " ++ binding.toText
  | .missingOperation operation portType =>
    s!"Missing operation {operation} in portType " ++ portType.toText
  | .missingMessage message => "Missing message " ++ message.toText
  | .missingPart part message => s!"Missing part {part} in message " ++ message.toText
  | .missingHeaderPart part message => s!"Missing header part {part} in message " ++ message.toText
  | .workLimit limit => s!"Schema extraction exceeded {limit} copied nodes"
  | .uncopiedKind kind => "Unsupported type " ++ kind.label
  | .noTarget kind => "Error extracting type " ++ kind.label ++ ": no target construction"
  | .circularType chain name =>
    "Circular reference in schema type " ++ chainText chain ++ ", " ++ name.toText
  | .missingRefTarget name => "Missing ref target in source schema: " ++ QName.optionText name
  | .missingSubstitutionHead name => "Missing substitution group in source schema: " ++ name.toText
  | .emptyContentModel kind => "Unexpected empty content in content model " ++ kind.label
  | .missingType name => "Missing type in source schema: " ++ name.toText
  | .missingSimpleType name => "Missing simple type in source schema: " ++ name.toText
  | .notSimpleType name => "Type " ++ name.toText ++ " is not a simple type"
  | .unsupportedBase name => "Unsupported extension of type " ++ name.toText
  | .missingGroup name => "Missing group in source schema: " ++ QName.optionText name
  | .missingAttributeGroup name => "Missing attribute group in source schema: " ++ QName.optionText name
  | .circularAttributeGroup chain name =>
    "Circular reference in attribute group " ++ chainText chain ++ ", " ++ name.toText
  | .unsupportedParticle kind => "Unsupported Group Particle type " ++ kind.label
  | .namedComponents => "Generated schema must not contain named types or groups"
  | .foreignType name => "Generated schema references non built-in type " ++ name.toText
  | .unresolvedReference name =>
    "Generated schema contains unresolved reference " ++ QName.optionText name
  | .unexpectedInGroup kind => "Unexpected " ++ kind.label ++ " in model group"
  | .unresolvedAttribute kind => "Generated schema contains unresolved " ++ kind.label
  | .missingPartElement part => "Missing generated element for part " ++ part.toText
  | .multipleSchemas => "WSDL's with multiple schemas are not supported"
  | .encodedUse => "Messages with use='encoded' are not supported"
  | .undeclaredElement element part =>
    "Missing element " ++ element.toText ++ " for part " ++ part.toText
  | .undeclaredType type part => "Missing type " ++ type.toText ++ " for part " ++ part.toText
  | .untypedPart part => "Part " ++ part.toText ++ " has neither an element nor a type"
  | .inMessage direction operation cause =>
    "Error parsing " ++ direction.text ++ " for operation " ++ operation.toText ++ ": " ++ cause.message
  | .unreadable message => message
  | .missingServiceName => "Missing SOAP service name"
  | .missingPortName service => "Missing SOAP port name for service " ++ service.toText

/-- The category of a problem. A problem inside a message keeps the category of its cause. -/
def errorClass : Problem → ErrorClass
  | .notWellFormed | .entityDeclared .. | .notSchema _ | .notDefinitions _ | .undeclaredPrefix ..
  | .undeclaredAttributePrefix .. | .missingAttribute .. | .unknownStyle _ | .unknownUse _
  | .missingService _ | .missingPort .. | .missingPortType .. | .missingOperation ..
  | .missingMessage _ | .missingPart .. | .missingHeaderPart .. | .unreadable _ | .missingServiceName
  | .missingPortName _ => .invalidWsdl
  | .workLimit _ | .uncopiedKind _ | .noTarget _ | .emptyContentModel _ | .namedComponents
  | .foreignType _ | .unresolvedReference _ | .unresolvedAttribute _ => .construction
  | .circularType .. | .circularAttributeGroup .. => .circularReference
  | .missingRefTarget _ | .missingSubstitutionHead _ | .undeclaredElement .. => .missingRefTarget
  | .missingType _ | .missingSimpleType _ | .notSimpleType _ | .undeclaredType .. | .untypedPart _ =>
    .missingType
  | .unsupportedBase _ => .unsupportedBase
  | .missingGroup _ | .missingAttributeGroup _ => .missingGroup
  | .unsupportedParticle _ | .unexpectedInGroup _ => .unsupportedParticle
  | .missingPartElement _ => .namespaceTarget
  | .multipleSchemas => .multipleSchemas
  | .encodedUse => .encodedUse
  | .inMessage _ _ cause => cause.errorClass

def property : Problem → Option String
  | .missingService _ | .missingServiceName => some "serviceName"
  | .missingPort .. | .missingPortName _ => some "portName"
  | .unreadable _ => some "specification"
  | .inMessage _ _ cause => cause.property
  | _ => none

end Problem

structure Violation where
  message : String
  error : String
  property : Option String
deriving DecidableEq, Repr

/-- A violation of a category; without further choice it is a failed construction. -/
def Violation.ofClass (message : String) (property : Option String)
    (errorClass : ErrorClass := .construction) : Violation :=
  ⟨message, errorClass.tag, property⟩

def Problem.violation (p : Problem) : Violation :=
  .ofClass p.message p.property p.errorClass

end PayloadSchema
