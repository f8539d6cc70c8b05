import PayloadSchema.Message.Mode
import PayloadSchema.Schema.Basic

/-!
# Service descriptions

A service description of WSDL 1.1 as far as payloads depend on it: the embedded schemas, the abstract
messages and port types, their bindings, and the services with their ports. All components are named in
the target namespace of the description.
-/

namespace PayloadSchema.Wsdl

structure MessagePart where
  name : String
  element : Option QName
  type : Option QName
deriving DecidableEq, Repr

structure AbstractMessage where
  name : QName
  parts : List MessagePart
deriving DecidableEq, Repr

def AbstractMessage.part? (m : AbstractMessage) (name : String) : Option MessagePart :=
  m.parts.find? (·.name = name)

structure AbstractOperation where
  name : String
  input : Option QName
  output : Option QName
deriving DecidableEq, Repr

/-- How the body of a message is bound. Without a list of parts all of them belong to the body. -/
structure BoundBody where
  use : Use
  parts : Option (List String)
  space : Option String
deriving DecidableEq, Repr

def BoundBody.standard : BoundBody := ⟨.literal, none, none⟩

structure BoundHeader where
  message : QName
  part : String
  use : Use
deriving DecidableEq, Repr

structure BoundMessage where
  body : BoundBody
  headers : List BoundHeader
deriving DecidableEq, Repr

structure BoundOperation where
  name : String
  style : Option Style
  input : Option BoundMessage
  output : Option BoundMessage
deriving DecidableEq, Repr

structure Binding where
  name : QName
  portType : QName
  /-- The namespace of the SOAP version; a binding to anything else has none. -/
  soapSpace : Option String
  style : Option Style
  operations : List BoundOperation
deriving DecidableEq, Repr

def Binding.isSoap (b : Binding) : Bool :=
  b.soapSpace.isSome

structure Port where
  name : String
  binding : QName
  address : Option String
deriving DecidableEq, Repr

structure Service where
  name : QName
  ports : List Port
deriving DecidableEq, Repr

structure Definition where
  name : Option String
  space : String
  documentation : Option String
  schemas : List Schema
  messages : Table QName AbstractMessage
  portTypes : Table QName (Table String AbstractOperation)
  bindings : Table QName Binding
  services : Table QName Service

namespace Definition

def qname? (d : Definition) : Option QName :=
  d.name.map (⟨d.space, ·⟩)

def soapPorts (d : Definition) (service : Service) : List Port :=
  service.ports.filter fun p => (d.bindings.get? p.binding).any Binding.isSoap

/-- The first SOAP port of a name, in a service of a name. -/
def port (d : Definition) (service : QName) (port : String) : Except Problem Port :=
  match d.services.get? service with
  | none => .error (.missingService service)
  | some s =>
    match (d.soapPorts s).find? (·.name = port) with
    | none => .error (.missingPort port service)
    | some p => .ok p

def message (d : Definition) (name : QName) : Except Problem AbstractMessage :=
  match d.messages.get? name with
  | none => .error (.missingMessage name)
  | some m => .ok m

end Definition

end PayloadSchema.Wsdl
