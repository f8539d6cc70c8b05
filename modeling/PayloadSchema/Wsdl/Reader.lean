import PayloadSchema.Schema.Reader
import PayloadSchema.Wsdl.Definition

/-!
# Reading service descriptions

A service description is read from the element that holds it. Only constructs in the namespaces of WSDL 1.1
and of its two SOAP bindings count. The first mistake in the order of reading is reported: schemas, messages,
port types, bindings, services.
-/

namespace PayloadSchema.Wsdl.Reader

open Xml (Element)

def wsdlSpace : String := "http://schemas.xmlsoap.org/wsdl/"

def soapSpaces : List String :=
  ["http://schemas.xmlsoap.org/wsdl/soap/", "http://schemas.xmlsoap.org/wsdl/soap12/"]

/-! ## Elements -/

def isWsdl (name : String) (e : Element) : Bool :=
  e.tag = ⟨wsdlSpace, name⟩

def isSoap (name : String) (e : Element) : Bool :=
  e.tag.name = name && e.tag.space ∈ soapSpaces

def children (e : Element) (name : String) : List Element :=
  e.children.filter (isWsdl name)

def child? (e : Element) (name : String) : Option Element :=
  e.children.find? (isWsdl name)

/-! ## Attributes -/

def nameOf (e : Element) : String :=
  (e.attribute? "name").getD ""

/-- A name as written, split at its last colon; without a colon the first part is empty. -/
def splitLast (value : String) : String × String :=
  let back := value.toList.reverse
  match back.dropWhile (· ≠ ':') with
  | _ :: label => (String.ofList label.reverse, String.ofList (back.takeWhile (· ≠ ':')).reverse)
  | [] => ("", value)

/-- The name that an attribute holds, if it is there. Without a default namespace a name without prefix is
in no namespace. -/
def qname? (e : Element) (key : String) : Except Problem (Option QName) :=
  match e.attribute? key with
  | none => .ok none
  | some value =>
    let (label, name) := splitLast value
    match e.scope.find? label with
    | some space => .ok (some ⟨space, name⟩)
    | none =>
      if label = "" then .ok (some ⟨"", name⟩)
      else .error (.undeclaredAttributePrefix label key value)

def qname (e : Element) (key : String) : Except Problem QName := do
  match ← qname? e key with
  | some q => pure q
  | none => throw (.missingAttribute key e.tag.name (e.attribute? "name"))

def style (e : Element) : Except Problem (Option Style) :=
  match e.attribute? "style" with
  | none => .ok none
  | some value =>
    match Style.ofText? value.toLower with
    | some s => .ok (some s)
    | none => .error (.unknownStyle value)

def use (e : Element) : Except Problem Use :=
  match e.attribute? "use" with
  | none => .ok .literal
  | some value =>
    match Use.ofText? value.toLower with
    | some u => .ok u
    | none => .error (.unknownUse value)

/-! ## Constructs -/

def part (e : Element) : Except Problem MessagePart := do
  let element ← qname? e "element"
  let type ← qname? e "type"
  pure ⟨nameOf e, element, type⟩

def message (space : String) (e : Element) : Except Problem AbstractMessage := do
  pure ⟨⟨space, nameOf e⟩, ← (children e "part").mapM part⟩

def messageName (e : Element) (direction : String) : Except Problem (Option QName) :=
  match child? e direction with
  | none => .ok none
  | some child => qname? child "message"

def abstractOperation (e : Element) : Except Problem AbstractOperation := do
  let input ← messageName e "input"
  let output ← messageName e "output"
  pure ⟨nameOf e, input, output⟩

def portType (space : String) (e : Element) :
    Except Problem (QName × Table String AbstractOperation) := do
  let operations ← (children e "operation").mapM abstractOperation
  pure (⟨space, nameOf e⟩, .ofValues (·.name) operations)

/-- Reads one construct inside a bound message. The last body counts, and every header. -/
def boundConstruct (m : BoundMessage) (e : Element) : Except Problem BoundMessage := do
  if isSoap "body" e then
    pure { m with body := ⟨← use e, (e.attribute? "parts").map Text.words, e.attribute? "namespace"⟩ }
  else if isSoap "header" e then
    let name ← qname e "message"
    pure { m with headers := m.headers ++ [⟨name, (e.attribute? "part").getD "", ← use e⟩] }
  else pure m

def boundMessage (e : Element) : Except Problem BoundMessage :=
  e.children.foldlM boundConstruct ⟨.standard, []⟩

def boundDirection (e : Element) (direction : String) : Except Problem (Option BoundMessage) :=
  match child? e direction with
  | none => .ok none
  | some child => (boundMessage child).map some

/-- Reads the style of an operation, which the last of several declarations gives. -/
def operationStyle (e : Element) : Except Problem (Option Style) :=
  (e.children.filter (isSoap "operation")).foldlM (fun _ c => style c) none

def boundOperation (e : Element) : Except Problem BoundOperation := do
  let style ← operationStyle e
  let input ← boundDirection e "input"
  let output ← boundDirection e "output"
  pure ⟨nameOf e, style, input, output⟩

def binding (space : String) (e : Element) : Except Problem Binding := do
  let portType ← qname e "type"
  let (soapSpace, style) ← (e.children.filter (isSoap "binding")).foldlM
    (fun _ c => do pure (some c.tag.space, ← style c)) (none, none)
  let operations ← (children e "operation").mapM boundOperation
  pure ⟨⟨space, nameOf e⟩, portType, soapSpace, style, operations⟩

def port (e : Element) : Except Problem Port := do
  let address := (e.children.find? (isSoap "address")).bind (·.attribute? "location")
  pure ⟨nameOf e, ← qname e "binding", address⟩

def service (space : String) (e : Element) : Except Problem Service := do
  pure ⟨⟨space, nameOf e⟩, ← (children e "port").mapM port⟩

def quiet (r : Except Problem α) : Run α :=
  Run.ofExcept (r.mapError .problem)

end PayloadSchema.Wsdl.Reader

namespace PayloadSchema.Wsdl

open Reader

def Definition.ofElement (e : Xml.Element) : Run Definition := do
  let space := (e.attribute? "targetNamespace").getD ""
  let documentation := ((child? e "documentation").bind (·.text)).map Text.trim
  let embedded := (children e "types").flatMap fun t => t.children.filter (·.tag = xsd "schema")
  let schemas ← embedded.mapM Schema.ofElement
  let messages ← quiet ((children e "message").mapM (Reader.message space))
  let portTypes ← quiet ((children e "portType").mapM (Reader.portType space))
  let bindings ← quiet ((children e "binding").mapM (Reader.binding space))
  let services ← quiet ((children e "service").mapM (Reader.service space))
  pure {
    name := e.attribute? "name"
    space
    documentation
    schemas
    messages := .ofValues (·.name) messages
    portTypes := portTypes.foldl (fun t p => t.put p.1 p.2) []
    bindings := .ofValues (·.name) bindings
    services := .ofValues (·.name) services }

def Definition.ofBytes (bytes : List UInt8) : Run Definition := do
  let root ← Run.ofExcept (Xml.Element.ofBytes bytes)
  if isWsdl "definitions" root then ofElement root
  else throw (.problem (.notDefinitions root.tag))

end PayloadSchema.Wsdl
