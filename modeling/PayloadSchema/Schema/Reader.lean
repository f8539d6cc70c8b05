import PayloadSchema.Log.Basic
import PayloadSchema.Schema.Basic
import PayloadSchema.Xml.Document

/-!
# Reading schemas

A schema is read from the element that holds it. Attributes whose values are names are resolved in the
scope of the element that carries them. Of several constructs where one has a place the last one counts,
but all of them are read, in document order, and the first mistake is the one that is reported.
-/

namespace PayloadSchema.Schema.Reader

open Xml (Element Scope)

/-! ## Attributes of markup -/

/-- The name that a value stands for: with a prefix, which ends at the first colon, or in the default
namespace. -/
def resolve (scope : Scope) (value : String) : Except Fault QName :=
  match Xml.splitName value with
  | (some label, name) =>
    match scope.find? label with
    | some space => .ok ⟨space, name⟩
    | none => .error (.problem (.undeclaredPrefix label value))
  | (none, name) => .ok ⟨(scope.find? "").getD "", name⟩

def name? (e : Element) (key : String) : Except Fault (Option QName) :=
  match e.attribute? key with
  | none => .ok none
  | some value => (resolve e.scope (Text.trim value)).map some

def bound (value : Option String) : Except Fault (Option Int) :=
  match value with
  | none => .ok (some 1)
  | some "unbounded" => .ok none
  | some text =>
    match Text.readInteger text with
    | .ok n => .ok (some n)
    | .error cause => .error (.badValue (.integer cause))

def occurs (e : Element) : Except Fault Occurs := do
  let min ← bound (e.attribute? "minOccurs")
  let max ← bound (e.attribute? "maxOccurs")
  pure ⟨min, max⟩

def flag (e : Element) (key : String) : Bool :=
  e.attribute? key = some "true" || e.attribute? key = some "1"

def usage (e : Element) : AttributeUse :=
  ⟨e.attribute? "use", e.attribute? "default", e.attribute? "fixed"⟩

def wildcard (e : Element) : Wildcard :=
  ⟨e.attribute? "namespace", e.attribute? "processContents"⟩

def facetNames : List String :=
  ["enumeration", "pattern", "length", "minLength", "maxLength", "minInclusive", "maxInclusive",
    "minExclusive", "maxExclusive", "totalDigits", "fractionDigits", "whiteSpace"]

inductive Construct where
  | element
  | attribute
  | simpleType
  | complexType
  | group
  | attributeGroup
  | ordered (order : Order)
  | any
  | anyAttribute
  | simpleContent
  | complexContent
  | extension
  | restriction
  | list
  | union
  | facet (name : String)
  | other
deriving DecidableEq, Repr

def Construct.ofName (name : String) : Construct :=
  match name with
  | "element" => .element
  | "attribute" => .attribute
  | "simpleType" => .simpleType
  | "complexType" => .complexType
  | "group" => .group
  | "attributeGroup" => .attributeGroup
  | "sequence" => .ordered .sequence
  | "choice" => .ordered .choice
  | "all" => .ordered .all
  | "any" => .any
  | "anyAttribute" => .anyAttribute
  | "simpleContent" => .simpleContent
  | "complexContent" => .complexContent
  | "extension" => .extension
  | "restriction" => .restriction
  | "list" => .list
  | "union" => .union
  | _ => if name ∈ facetNames then .facet name else .other

def construct? (e : Element) : Option Construct :=
  if e.tag.space = xsdSpace ∧ e.tag.name ≠ "annotation" then some (.ofName e.tag.name) else none

def facet? (e : Element) : Option Facet :=
  match construct? e with
  | some (.facet name) => some ⟨name, (e.attribute? "value").getD "", flag e "fixed"⟩
  | _ => none

def facets (es : List Element) : List Node :=
  (es.filterMap facet?).map fun f => ⟨.facet f⟩

def component (e : Element) (topLevel : Bool) : Component :=
  ⟨e.attribute? "name", topLevel⟩

/-! ## Constructs -/

mutual

def element (topLevel : Bool) : Element → Except Fault Node
  | e@(.mk _ _ _ _ inner) => do
    match ← name? e "ref" with
    | some ref => pure ⟨.elementRef (some ref) (← occurs e)⟩
    | none =>
      let typeName ← name? e "type"
      let substitutionGroup ← name? e "substitutionGroup"
      let bounds ← occurs e
      let own ← elementType none inner
      pure ⟨.element (component e topLevel)
        ⟨typeName, substitutionGroup, bounds, flag e "nillable", flag e "abstract",
          e.attribute? "default", e.attribute? "fixed", e.attribute? "form"⟩ own⟩

def elementType (own : Option Node) : List Element → Except Fault (Option Node)
  | [] => pure own
  | e :: es => do
    match construct? e with
    | some .simpleType => elementType (some (← simpleType e)) es
    | some .complexType => elementType (some (← complexType e)) es
    | _ => elementType own es

def attributeOrRef (topLevel : Bool) : Element → Except Fault Node
  | e@(.mk _ _ _ _ inner) => do
    match ← name? e "ref" with
    | some ref => pure ⟨.attributeRef (some ref) (usage e)⟩
    | none =>
      let typeName ← name? e "type"
      let own ← innerSimpleType none inner
      pure ⟨.attribute (component e topLevel) ⟨typeName, usage e, e.attribute? "form"⟩ own⟩

def innerSimpleType (own : Option Node) : List Element → Except Fault (Option Node)
  | [] => pure own
  | e :: es => do
    if construct? e = some .simpleType then innerSimpleType (some (← simpleType e)) es
    else innerSimpleType own es

def simpleTypes : List Element → Except Fault (List Node)
  | [] => pure []
  | e :: es => do
    if construct? e = some .simpleType then
      let t ← simpleType e
      pure (t :: (← simpleTypes es))
    else simpleTypes es

def attributes (any : Option Node) : List Element → Except Fault (List Node × Option Node)
  | [] => pure ([], any)
  | e :: es => do
    match construct? e with
    | some .attribute =>
      let a ← attributeOrRef false e
      let (more, any) ← attributes any es
      pure (a :: more, any)
    | some .attributeGroup =>
      let ref ← name? e "ref"
      let (more, any) ← attributes any es
      pure (⟨.attributeGroupRef ref⟩ :: more, any)
    | some .anyAttribute => attributes (some ⟨.anyAttribute (wildcard e)⟩) es
    | _ => attributes any es

def simpleType : Element → Except Fault Node
  | e@(.mk _ _ _ _ inner) => do
    pure ⟨.simpleType (component e false) (← simpleTypeContent none inner)⟩

def simpleTypeContent (content : Option Node) : List Element → Except Fault (Option Node)
  | [] => pure content
  | e@(.mk _ _ _ _ inner) :: es => do
    match construct? e with
    | some .restriction =>
      let base ← name? e "base"
      let baseType ← innerSimpleType none inner
      simpleTypeContent (some ⟨.simpleRestriction base baseType (facets inner)⟩) es
    | some .list =>
      let item ← name? e "itemType"
      let itemType ← innerSimpleType none inner
      simpleTypeContent (some ⟨.simpleList item itemType⟩) es
    | some .union =>
      let members ← (Text.words ((e.attribute? "memberTypes").getD "")).mapM (resolve e.scope)
      let memberTypes ← simpleTypes inner
      simpleTypeContent (some ⟨.simpleUnion members memberTypes⟩) es
    | _ => simpleTypeContent content es

def particle : Element → Except Fault Node
  | e@(.mk _ _ _ _ inner) => do
    match construct? e with
    | some (.ordered order) =>
      let bounds ← occurs e
      pure ⟨.modelGroup order bounds (← items inner)⟩
    | _ =>
      let ref ← name? e "ref"
      pure ⟨.groupRef ref (← occurs e)⟩

def items : List Element → Except Fault (List Node)
  | [] => pure []
  | e :: es => do
    match construct? e with
    | some .element =>
      let n ← element false e
      pure (n :: (← items es))
    | some (.ordered _) | some .group =>
      let n ← particle e
      pure (n :: (← items es))
    | some .any =>
      let bounds ← occurs e
      pure (⟨.wildcard (wildcard e) bounds⟩ :: (← items es))
    | _ => items es

def innerParticle (groups : Bool) (own : Option Node) : List Element → Except Fault (Option Node)
  | [] => pure own
  | e :: es => do
    match construct? e with
    | some (.ordered _) => innerParticle groups (some (← particle e)) es
    | some .group =>
      if groups then innerParticle groups (some (← particle e)) es
      else innerParticle groups own es
    | _ => innerParticle groups own es

def complexType : Element → Except Fault Node
  | e@(.mk _ _ _ _ inner) => do
    let (members, any) ← attributes none inner
    let (model, own) ← complexParts none none inner
    pure ⟨.complexType (component e false) ⟨flag e "mixed", flag e "abstract"⟩ members any model own⟩

def complexParts (model own : Option Node) :
    List Element → Except Fault (Option Node × Option Node)
  | [] => pure (model, own)
  | e :: es => do
    match construct? e with
    | some (.ordered _) | some .group => complexParts model (some (← particle e)) es
    | some .simpleContent => complexParts (some (← simpleContent e)) own es
    | some .complexContent => complexParts (some (← complexContent e)) own es
    | _ => complexParts model own es

def simpleContent : Element → Except Fault Node
  | .mk _ _ _ _ inner => do
    pure ⟨.simpleContent (← simpleDerivation none inner)⟩

def simpleDerivation (content : Option Node) : List Element → Except Fault (Option Node)
  | [] => pure content
  | e@(.mk _ _ _ _ inner) :: es => do
    if (construct? e).isNone then simpleDerivation content es
    else
      let (members, any) ← attributes none inner
      match construct? e with
      | some .extension =>
        let base ← name? e "base"
        simpleDerivation (some ⟨.simpleContentExtension base members any⟩) es
      | some .restriction =>
        let base ← name? e "base"
        let baseType ← innerSimpleType none inner
        simpleDerivation
          (some ⟨.simpleContentRestriction base baseType (facets inner) members any⟩) es
      | _ => simpleDerivation content es

def complexContent : Element → Except Fault Node
  | e@(.mk _ _ _ _ inner) => do
    let content ← complexDerivation none inner
    pure ⟨.complexContent ((e.attribute? "mixed").map fun _ => flag e "mixed") content⟩

def complexDerivation (content : Option Node) : List Element → Except Fault (Option Node)
  | [] => pure content
  | e@(.mk _ _ _ _ inner) :: es => do
    match construct? e with
    | some .extension =>
      let base ← name? e "base"
      let (members, any) ← attributes none inner
      let own ← innerParticle true none inner
      complexDerivation (some ⟨.complexDerivation .extension base own members any⟩) es
    | some .restriction =>
      let base ← name? e "base"
      let (members, any) ← attributes none inner
      let own ← innerParticle true none inner
      complexDerivation (some ⟨.complexDerivation .restriction base own members any⟩) es
    | _ => complexDerivation content es

end

def group (e : Element) : Except Fault Node := do
  pure ⟨.group (component e true) (← innerParticle false none e.children)⟩

def attributeGroup (e : Element) : Except Fault Node := do
  let (members, any) ← attributes none e.children
  pure ⟨.attributeGroup (component e true) members any⟩

/-! ## Schemas -/

/-- The constructs at the top of a schema that have no part in the shape of a document. -/
def ignored : List String :=
  ["import", "include", "redefine", "notation", "key", "keyref", "unique"]

def addConstruct (s : Schema) (e : Element) : Run Schema := do
  match construct? e with
  | some .element => Run.ofExcept (do s.add .elements (← element true e))
  | some .attribute => Run.ofExcept (do s.add .attributes (← attributeOrRef true e))
  | some .simpleType => Run.ofExcept (do s.add .types (← simpleType e))
  | some .complexType => Run.ofExcept (do s.add .types (← complexType e))
  | some .group => Run.ofExcept (do s.add .groups (← group e))
  | some .attributeGroup => Run.ofExcept (do s.add .attributeGroups (← attributeGroup e))
  | some _ =>
    let name := e.tag.name
    if name ∉ ignored then Run.warn s!"Ignoring unsupported top-level schema construct xs:{name}"
    pure s
  | none => pure s

end PayloadSchema.Schema.Reader

namespace PayloadSchema.Schema

def ofElement (e : Xml.Element) : Run Schema :=
  e.children.foldlM Reader.addConstruct
    (.empty ((e.attribute? "targetNamespace").getD "")
      ((e.attribute? "elementFormDefault").getD defaultForm)
      ((e.attribute? "attributeFormDefault").getD defaultForm))

def ofBytes (bytes : List UInt8) : Run Schema := do
  let root ← Run.ofExcept (Xml.Element.ofBytes bytes)
  if root.tag = xsd "schema" then ofElement root
  else throw (.problem (.notSchema root.tag))

end PayloadSchema.Schema
