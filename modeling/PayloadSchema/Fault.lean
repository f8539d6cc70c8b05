import PayloadSchema.Problem
import PayloadSchema.Text.Integer

/-!
# Faults

A computation of this library stops with a fault. Most faults are problems, which name what is wrong with
the input; the others arise where a text has no value of the expected kind, where a schema holds a node in
a place that has no use for it, and where a document names an encoding that nobody knows.
-/

namespace PayloadSchema

inductive BadValue where
  | integer (cause : Text.IntegerError)
  /-- The text names no member of an enumeration. -/
  | notMember (text enumeration : String)
  | logLevel
  /-- A document declares an encoding with more than one byte to a character. -/
  | multiByteEncoding
  /-- A name opens a brace for its namespace and does not close it. -/
  | unclosedName
deriving DecidableEq, Repr

def BadValue.message : BadValue → String
  | .integer cause => cause.message
  | .notMember text enumeration => Text.quoted text ++ " is not a valid " ++ enumeration
  | .logLevel => "Unable to configure logger 'soap_api'"
  | .multiByteEncoding => "multi-byte encodings are not supported"
  | .unclosedName => "not enough values to unpack (expected 2, got 1)"

/-- The reasons for which a computation stops. -/
inductive Fault where
  | problem (p : Problem)
  | badValue (v : BadValue)
  /-- A component is absent, or a node has no field of the name asked for. -/
  | wrongNode
  /-- A document declares an encoding that is not known. -/
  | unknownEncoding
deriving Repr

def memberOrFault (enumeration text : String) : Option α → Except Fault α
  | some a => .ok a
  | none => .error (.badValue (.notMember text enumeration))

end PayloadSchema
