/-!
# Modes of a message

How a SOAP binding sends a message: the style of the operation, the use of its parts, and the direction.
-/

namespace PayloadSchema

/-- The style of a SOAP operation: a call with parameters, or a document. -/
inductive Style where
  | rpc
  | document
deriving DecidableEq, Repr

/-- How the parts of a message are written: by their schema, or by an encoding rule. -/
inductive Use where
  | literal
  | encoded
deriving DecidableEq, Repr

inductive Direction where
  | input
  | output
deriving DecidableEq, Repr

def Style.text : Style → String
  | .rpc => "rpc"
  | .document => "document"

def Style.ofText? (s : String) : Option Style :=
  [Style.rpc, .document].find? (·.text == s)

def Use.text : Use → String
  | .literal => "literal"
  | .encoded => "encoded"

def Use.ofText? (s : String) : Option Use :=
  [Use.literal, .encoded].find? (·.text == s)

def Direction.text : Direction → String
  | .input => "input"
  | .output => "output"

def Direction.ofText? (s : String) : Option Direction :=
  [Direction.input, .output].find? (·.text == s)

end PayloadSchema
