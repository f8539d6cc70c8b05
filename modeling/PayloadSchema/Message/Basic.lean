import PayloadSchema.Message.Mode
import PayloadSchema.Schema.Basic

/-!
# Messages

One message of an operation as a SOAP binding sends it: its parts with their names on the wire, split into
header and body, and the schemas of the service description around it.
-/

namespace PayloadSchema

/-- A part of a message. It refers to a global element or to a type. -/
structure Part where
  name : QName
  element : Option QName
  type : Option QName
deriving DecidableEq, Repr

structure Message where
  operation : QName
  direction : Direction
  style : Style
  use : Use
  body : List Part
  header : List Part
  schemas : List Schema
  /-- The target namespace of the service description. -/
  space : String

namespace Message

def hasHeader (m : Message) : Bool :=
  !m.header.isEmpty

/-- The one schema that the parts of a message refer to. A service description without schemas counts as
one with an empty schema in its own namespace. -/
def source (m : Message) : Except Problem Schema :=
  match m.schemas with
  | [] => .ok (.empty m.space Schema.defaultForm Schema.defaultForm)
  | [s] => .ok s
  | _ => .error .multipleSchemas

def wrapper (m : Message) : QName :=
  match m.direction with
  | .input => m.operation
  | .output => ⟨m.operation.space, m.operation.name ++ "Response"⟩

end Message

end PayloadSchema
