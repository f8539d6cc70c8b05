import PayloadSchema.Schema.Basic
import PayloadSchema.Settings.Basic
import PayloadSchema.Xml.Printer

/-!
# Writing schemas

A finished schema is written as a tree of tags, in which one prefix stands for the namespace of XML
Schema. A finished schema has elements and attributes at its top and nothing else, holds no reference, and
names no type that is not built in; writing stops at the first place where this fails.
-/

namespace PayloadSchema.Schema.Writer

open Xml (Tree)

abbrev Attributes := List (String × String)

/-! ## Attributes -/

def given (key : String) (value : Option String) : Attributes :=
  value.toList.map (key, ·)

def flag (key : String) (value : Bool) : Attributes :=
  if value then [(key, "true")] else []

def occurs (o : Occurs) : Attributes :=
  (match o.min with
    | none => [("minOccurs", "None")]
    | some n => if n = 1 then [] else [("minOccurs", toString n)]) ++
  (match o.max with
    | none => [("maxOccurs", "unbounded")]
    | some n => if n = 1 then [] else [("maxOccurs", toString n)])

def wildcard (w : Wildcard) : Attributes :=
  given "namespace" w.space ++ given "processContents" w.processing

def typeName (label : String) (q : QName) : Except Fault String :=
  if q.isBuiltin then .ok (label ++ ":" ++ q.name) else .error (.problem (.foreignType q))

def typeAttribute (label key : String) : Option QName → Except Fault Attributes
  | none => .ok []
  | some q => do pure [(key, ← typeName label q)]

/-! ## Tags -/

def tag (label name : String) (attributes : Attributes) (children : List Tree) : Tree :=
  .mk (label ++ ":" ++ name) attributes "" children

def facets (label : String) (ns : List Node) : Except Fault (List Tree) :=
  ns.mapM fun n =>
    match n.shape.facet? with
    | some f => .ok (tag label f.kind (("value", f.value) :: flag "fixed" f.fixed) [])
    | none => .error .wrongNode

def anyAttribute (label : String) : Option Node → Except Fault (List Tree)
  | none => .ok []
  | some n =>
    match n.shape.wildcard? with
    | some w => .ok [tag label "anyAttribute" (wildcard w) []]
    | none => .error .wrongNode

mutual

def simpleType (label : String) : Node → Except Fault Tree
  | ⟨.simpleType _ content⟩ | ⟨.simpleContent content⟩ | ⟨.complexContent _ content⟩ => do
    pure (tag label "simpleType" [] (← simpleTypeContent label content))
  | _ => .error .wrongNode

def simpleTypeContent (label : String) : Option Node → Except Fault (List Tree)
  | some ⟨.simpleRestriction base baseType fs⟩ => do
    let attributes ← typeAttribute label "base" base
    let inner ← ownSimpleType label baseType
    pure [tag label "restriction" attributes (inner ++ (← facets label fs))]
  | some ⟨.simpleList item itemType⟩ => do
    let attributes ← typeAttribute label "itemType" item
    pure [tag label "list" attributes (← ownSimpleType label itemType)]
  | some ⟨.simpleUnion members memberTypes⟩ => do
    let names ← members.mapM (typeName label)
    let attributes := if names.isEmpty then [] else [("memberTypes", " ".intercalate names)]
    pure [tag label "union" attributes (← simpleTypes label memberTypes)]
  | _ => .ok []

def ownSimpleType (label : String) : Option Node → Except Fault (List Tree)
  | none => .ok []
  | some n => do pure [← simpleType label n]

def simpleTypes (label : String) : List Node → Except Fault (List Tree)
  | [] => .ok []
  | n :: ns => do
    let t ← simpleType label n
    pure (t :: (← simpleTypes label ns))

end

/-- Writes the declaration of an attribute. An element at the top of a schema is written like one where it
stands in the place of one. -/
def attributeDecl (label : String) : Node → Except Fault Tree
  | ⟨.attribute c d type⟩ => do
    let typeName ← typeAttribute label "type" d.typeName
    let place := if c.topLevel then [] else given "form" d.form ++ given "use" d.usage.use
    let attributes := ("name", c.name.getD "") :: typeName ++ place ++
      given "default" d.usage.default ++ given "fixed" d.usage.fixed
    pure (tag label "attribute" attributes (← ownSimpleType label type))
  | ⟨.element c d type⟩ => do
    let typeName ← typeAttribute label "type" d.typeName
    let attributes := ("name", c.name.getD "") :: typeName ++ given "default" d.default ++
      given "fixed" d.fixed
    pure (tag label "attribute" attributes (← ownSimpleType label type))
  | _ => .error .wrongNode

def attributes (label : String) (members : List Node) (any : Option Node) :
    Except Fault (List Tree) := do
  let written ← members.mapM fun n =>
    match n.shape with
    | .attribute .. => attributeDecl label n
    | s => .error (.problem (.unresolvedAttribute s.kind))
  pure (written ++ (← anyAttribute label any))

def orderName? : Order → Option String
  | .unspecified => none
  | .sequence => some "sequence"
  | .choice => some "choice"
  | .all => some "all"

def simpleContent (label : String) (content : Option Node) : Except Fault Tree := do
  let inner ← match content.map Node.shape with
    | some (.simpleContentExtension base members any) => do
      let written ← typeAttribute label "base" base
      pure [tag label "extension" written (← attributes label members any)]
    | some (.simpleContentRestriction base baseType fs members any) => do
      let written ← typeAttribute label "base" base
      let own ← ownSimpleType label baseType
      let limits ← facets label fs
      pure [tag label "restriction" written (own ++ limits ++ (← attributes label members any))]
    | _ => pure []
  pure (tag label "simpleContent" [] inner)

def derivationName : Derivation → String
  | .extension => "extension"
  | .restriction => "restriction"

mutual

/-- Writes the declaration of an element. An attribute in its place is refused, after its type name. -/
def elementDecl (label : String) : Node → Except Fault Tree
  | ⟨.element c d type⟩ => do
    let typeName ← typeAttribute label "type" d.typeName
    let place := if c.topLevel then flag "abstract" d.abstract
      else given "form" d.form ++ occurs d.occurs
    let attributes := ("name", c.name.getD "") :: typeName ++ place ++ flag "nillable" d.nillable ++
      given "default" d.default ++ given "fixed" d.fixed
    pure (tag label "element" attributes (← elementType label type))
  | ⟨.attribute _ d _⟩ => do
    let _ ← typeAttribute label "type" d.typeName
    .error .wrongNode
  | _ => .error .wrongNode

def elementType (label : String) : Option Node → Except Fault (List Tree)
  | none => .ok []
  | some ⟨.complexType _ d members any model own⟩ => do
    let content ← match model with
      | some ⟨.simpleContent content⟩ => do pure [← simpleContent label content]
      | some ⟨.complexContent mixed content⟩ => do
        let written := given "mixed" (mixed.map fun b => if b then "true" else "false")
        pure [tag label "complexContent" written (← complexDerivation label content)]
      | _ => ownParticle label own
    let declared ← attributes label members any
    pure [tag label "complexType" (flag "mixed" d.mixed) (content ++ declared)]
  | some ⟨.simpleType c content⟩ => do pure [← simpleType label ⟨.simpleType c content⟩]
  | _ => .error .wrongNode

def complexDerivation (label : String) : Option Node → Except Fault (List Tree)
  | some ⟨.complexDerivation how base own members any⟩ => do
    let written ← typeAttribute label "base" base
    let content ← ownParticle label own
    let declared ← attributes label members any
    pure [tag label (derivationName how) written (content ++ declared)]
  | _ => .ok []

def ownParticle (label : String) : Option Node → Except Fault (List Tree)
  | none => .ok []
  | some n => do pure [← particle label n]

def particle (label : String) : Node → Except Fault Tree
  | ⟨.element c d type⟩ => elementDecl label ⟨.element c d type⟩
  | ⟨.modelGroup order bounds items⟩ =>
    match orderName? order with
    | none => .error (.problem (.unsupportedParticle (Shape.modelGroup order bounds items).kind))
    | some name => do pure (tag label name (occurs bounds) (← particles label items))
  | ⟨.wildcard w bounds⟩ => .ok (tag label "any" (wildcard w ++ occurs bounds) [])
  | n =>
    match n.shape.reference? with
    | some ref => .error (.problem (.unresolvedReference ref))
    | none => .error (.problem (.unexpectedInGroup n.shape.kind))

def particles (label : String) : List Node → Except Fault (List Tree)
  | [] => .ok []
  | n :: ns => do
    let t ← particle label n
    pure (t :: (← particles label ns))

end

end PayloadSchema.Schema.Writer

namespace PayloadSchema.Schema

def toTree (label : String) (s : Schema) : Except Fault Xml.Tree := do
  let elements ← s.elements.values.mapM (Writer.elementDecl label)
  let attributes ← s.attributes.values.mapM (Writer.attributeDecl label)
  unless s.types.isEmpty && s.groups.isEmpty && s.attributeGroups.isEmpty do
    throw (.problem .namedComponents)
  let space := if s.space = "" then [] else [("targetNamespace", s.space)]
  pure <| Writer.tag label "schema"
    (("xmlns:" ++ label, xsdSpace) :: space ++
      [("elementFormDefault", s.elementForm), ("attributeFormDefault", s.attributeForm)])
    (elements ++ attributes)

def write (settings : Settings) (s : Schema) : Except Fault String := do
  (← toTree settings.schemaPrefix s).toText settings.prettyPrint

end PayloadSchema.Schema
