import PayloadSchema.Service.Context
import PayloadSchema.Wsdl.Binding

/-!
# Summaries

What a user is told of a service description before choosing a port: its services and SOAP ports, the
default choice, and the mistakes in the operations of the chosen port.
-/

namespace PayloadSchema.Service

open Wsdl

structure Summary where
  name : Option String
  description : String
  services : List QName
  /-- The SOAP ports of each service. -/
  ports : List (QName × List String)
  defaultService : Option QName
  defaultPort : Option String
  defaultAddress : Option String
  warnings : List Violation
  errors : List Violation

def defaultDescription : String := "Web Services Connector"

def description (d : Definition) : String :=
  match d.documentation.filter (· ≠ ""), d.qname? with
  | some text, _ => text
  | none, some q => defaultDescription ++ " for service " ++ q.toText
  | none, none => defaultDescription

def portWarning (s : Wsdl.Service) : Violation :=
  ⟨"Service " ++ s.name.toText ++ " has no SOAP ports", "missing-soap-port", none⟩

/-- What the chosen port gives: its address, when there is such a port, and the violations met in its
operations. -/
def portDetails (d : Definition) (service : QName) (port : String) :
    Run (Option String × List Violation) := do
  let address := match d.port service port with
    | .ok p => p.address
    | .error _ => none
  match d.portOperations service port with
  | .ok _ => pure (address, [])
  | .error p =>
    Run.warn (s!"Error reading operations of port {port}: " ++ p.message)
    pure (address, [p.violation])

def summary (r : Reading) (service : Option QName) (port : Option String) : Run Summary := do
  match r.definition with
  | none => pure ⟨none, defaultDescription, [], [], none, none, none, [], r.violations⟩
  | some d =>
    let services := d.services.values
    let offered := services.filter fun s => !(d.soapPorts s).isEmpty
    let idle := services.filter fun s => (d.soapPorts s).isEmpty
    let service := r.chosenService service
    let port := r.chosenPort service port
    let (address, errors) ← match service, port with
      | some s, some p => portDetails d s p
      | _, _ => pure (none, [])
    pure {
      name := d.name
      description := description d
      services := offered.map (·.name)
      ports := offered.map fun s => (s.name, (d.soapPorts s).map (·.name))
      defaultService := service
      defaultPort := port
      defaultAddress := address
      warnings := idle.map portWarning
      errors := errors ++ r.violations }

end PayloadSchema.Service
