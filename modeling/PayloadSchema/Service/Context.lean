import PayloadSchema.Settings.Basic
import PayloadSchema.Wsdl.Reader

/-!
# Service contexts

The requests that concern one service description share a context, in which the document is read when it is
first needed and at most once, whether reading succeeds or not.
-/

namespace PayloadSchema.Service

open Wsdl

structure Reading where
  definition : Option Definition
  violations : List Violation

structure Context where
  document : List UInt8
  settings : Settings
  reading : Option Reading

namespace Context

def ofDocument (document : List UInt8) (settings : Settings) : Context :=
  ⟨document, settings, none⟩

def violations (c : Context) : List Violation :=
  match c.reading with
  | some r => r.violations
  | none => []

def release (c : Context) : Context :=
  { c with reading := none }

/-- Reads the document. A problem becomes a violation; any other fault leaves a reading without a
description and without violations, and stops the request that needed it. -/
def load (c : Context) : StateM (Array Log.Entry) (Except Fault Reading × Reading) := do
  match ← (Definition.ofBytes c.document).run with
  | .ok d =>
    let r : Reading := ⟨some d, []⟩
    pure (.ok r, r)
  | .error (.problem p) =>
    modify (·.push ⟨.error, "Error parsing WSDL specification: " ++ p.message⟩)
    let r : Reading := ⟨none, [p.violation]⟩
    pure (.ok r, r)
  | .error f => pure (.error f, ⟨none, []⟩)

def ask (c : Context) (request : Reading → Run α) :
    StateM (Array Log.Entry) (Except Fault α × Context) := do
  match c.reading with
  | some r => pure (← (request r).run, c)
  | none =>
    let (result, reading) ← c.load
    let c := { c with reading := some reading }
    match result with
    | .ok r => pure (← (request r).run, c)
    | .error f => pure (.error f, c)

end Context

namespace Reading

def isParsed (r : Reading) : Bool :=
  r.definition.isSome

/-- The only service that has SOAP ports, if it is the only one. -/
def defaultService (r : Reading) : Option QName :=
  match r.definition with
  | none => none
  | some d =>
    match d.services.values.filter fun s => !(d.soapPorts s).isEmpty with
    | [s] => some s.name
    | _ => none

/-- The only SOAP port of a service, if it is the only one. -/
def defaultPort (r : Reading) (service : Option QName) : Option String := do
  let d ← r.definition
  let s ← d.services.get? (← service)
  match d.soapPorts s with
  | [p] => some p.name
  | _ => none

def chosenService (r : Reading) (service : Option QName) : Option QName :=
  service <|> r.defaultService

/-- The port that is asked for, or else the default one of a service. -/
def chosenPort (r : Reading) (service : Option QName) (port : Option String) : Option String :=
  port.filter (· ≠ "") <|> r.defaultPort service

end Reading

end PayloadSchema.Service
