import PayloadSchema.Payload.Envelope
import PayloadSchema.Service.Context
import PayloadSchema.Wsdl.Binding

/-!
# Operation schemas

The payload schemas of all operations of a port. A message without a payload schema is reported with its
operation and does not keep the other operations from theirs.
-/

namespace PayloadSchema.Service

open Wsdl

structure OperationSchemas where
  operation : QName
  style : Style
  input : Option String
  output : Option String
  errors : List Violation

def messageSchema (settings : Settings) : Option Message → Run (Option String × List Violation)
  | none => pure (none, [])
  | some m =>
    tryCatch (do pure (some (← Payload.synthesize settings m), [])) fun
      | .problem p => do
        Run.warn p.message
        pure (none, [p.violation])
      | f => throw f

def operationSchemas (settings : Settings) (o : PortOperation) : Run OperationSchemas := do
  let (input, inputErrors) ← messageSchema settings o.input
  let (output, outputErrors) ← messageSchema settings o.output
  pure ⟨o.name, o.style, input, output, inputErrors ++ outputErrors⟩

def unreadable (r : Reading) : Problem :=
  match r.violations with
  | v :: _ => .unreadable v.message
  | [] => .unreadable "Missing WSDL specification"

def generate (settings : Settings) (r : Reading) (service : Option QName) (port : Option String) :
    Run (List OperationSchemas) := do
  match r.definition with
  | none => throw (.problem (unreadable r))
  | some d =>
    match r.chosenService service with
    | none => throw (.problem .missingServiceName)
    | some s =>
      match r.chosenPort (some s) port with
      | none => throw (.problem (.missingPortName s))
      | some p =>
        let operations ← Run.ofExcept ((d.portOperations s p).mapError .problem)
        operations.mapM (operationSchemas settings)

end PayloadSchema.Service
