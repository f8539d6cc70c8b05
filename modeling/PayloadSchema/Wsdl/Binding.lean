import PayloadSchema.Message.Basic
import PayloadSchema.Wsdl.Definition

/-!
# Bound operations

The operations of a SOAP port, each with its messages as they are sent. The parts of a message are split:
those bound as headers are sent in the header and not in the body.
-/

namespace PayloadSchema.Wsdl

structure PortOperation where
  name : QName
  style : Style
  input : Option Message
  output : Option Message

namespace Definition

/-! ## Messages -/

/-- A part with its name on the wire. A part that refers to an element is named like it; the others are in
the namespace that the binding gives, or else in that of the description. -/
def wirePart (d : Definition) (space : Option String) (p : MessagePart) : Part :=
  match p.element with
  | some q => ⟨q, some q, none⟩
  | none => ⟨⟨(space.filter (· ≠ "")).getD d.space, p.name⟩, none, p.type⟩

/-- The parts that a body selects, in the order of its list or else of the message. -/
def bodyParts (name : QName) (m : AbstractMessage) (b : BoundBody) : Except Problem (List MessagePart) :=
  match b.parts with
  | none => .ok m.parts
  | some names => names.mapM fun part =>
    match m.part? part with
    | none => .error (.missingPart part name)
    | some p => .ok p

def headerPart (d : Definition) (h : BoundHeader) : Except Problem MessagePart := do
  match (← d.message h.message).part? h.part with
  | none => throw (.missingHeaderPart h.part h.message)
  | some p => pure p

def isHeader (name : QName) (headers : List BoundHeader) (p : MessagePart) : Bool :=
  headers.any fun h => h.message = name ∧ h.part = p.name

/-- The use of a message, which is encoded as soon as its body or one of its headers is. -/
def messageUse (b : BoundMessage) : Use :=
  if b.headers.any (·.use = .encoded) then .encoded else b.body.use

def boundMessage (d : Definition) (operation : QName) (direction : Direction) (style : Style)
    (b : BoundMessage) (name : QName) : Except Problem Message := do
  let m ← d.message name
  let selected ← bodyParts name m b.body
  let headers ← b.headers.mapM d.headerPart
  let wire := d.wirePart b.body.space
  pure {
    operation
    direction
    style
    use := messageUse b
    body := (selected.filter fun p => !isHeader name b.headers p).map wire
    header := headers.map wire
    schemas := d.schemas
    space := d.space }

def boundMessage? (d : Definition) (operation : QName) (direction : Direction) (style : Style)
    (b : Option BoundMessage) (name : Option QName) : Except Problem (Option Message) :=
  match b, name with
  | some b, some name => (d.boundMessage operation direction style b name).map some
  | _, _ => .ok none

/-! ## Operations -/

/-- An operation of a binding. Its own style comes before that of the binding, and without either it is a
document. -/
def portOperation (d : Definition) (b : Binding) (declared : Table String AbstractOperation)
    (o : BoundOperation) : Except Problem PortOperation := do
  match declared.get? o.name with
  | none => throw (.missingOperation o.name b.portType)
  | some a =>
    let style := (o.style <|> b.style).getD .document
    let name : QName := ⟨d.space, o.name⟩
    let input ← d.boundMessage? name .input style o.input a.input
    let output ← d.boundMessage? name .output style o.output a.output
    pure ⟨name, style, input, output⟩

def portOperations (d : Definition) (service : QName) (port : String) :
    Except Problem (List PortOperation) := do
  let p ← d.port service port
  match d.bindings.get? p.binding with
  | none => pure []
  | some b =>
    match d.portTypes.get? b.portType with
    | none => throw (.missingPortType b.portType b.name)
    | some declared => b.operations.mapM (d.portOperation b declared)

end Definition

end PayloadSchema.Wsdl
