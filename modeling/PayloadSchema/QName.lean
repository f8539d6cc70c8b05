/-!
# Qualified names

A component is named by a namespace and a local name. The written form puts the namespace in braces in
front of the local name, and leaves it out when it is empty.
-/

namespace PayloadSchema

/-- A name qualified by a namespace; names in no namespace have the empty one. -/
structure QName where
  space : String
  name : String
deriving DecidableEq, Repr, Inhabited

namespace QName

/-- The written form: the namespace in braces, if there is one, and the local name. -/
def toText (q : QName) : String :=
  if q.space = "" then q.name else "\x7b" ++ q.space ++ "\x7d" ++ q.name

/-- Reads the written form. A text that starts with a brace has its namespace up to the first closing
brace, or to its end when there is none; any other text is a local name. -/
def ofText (s : String) : QName :=
  match s.toList with
  | '\x7b' :: cs =>
    ⟨String.ofList (cs.takeWhile (· ≠ '\x7d')),
      String.ofList ((cs.dropWhile (· ≠ '\x7d')).drop 1)⟩
  | _ => ⟨"", s⟩

def optionText : Option QName → String
  | none => "None"
  | some q => q.toText

end QName

def xsdSpace : String := "http://www.w3.org/2001/XMLSchema"

def xsd (name : String) : QName := ⟨xsdSpace, name⟩

def QName.isBuiltin (q : QName) : Bool := q.space == xsdSpace

end PayloadSchema
