import PayloadSchema.Fault
import PayloadSchema.Table
import PayloadSchema.Xml.Tree

/-!
# Expanded names

A name that starts with an opening brace is expanded: its namespace stands in braces in front of its local name. In
the text of a document every namespace of such a name has a prefix, which the root declares.
-/

namespace PayloadSchema.Xml

/-- Whether a name opens a brace at its start and never closes it. -/
def isUnclosed (name : String) : Bool :=
  match name.toList with
  | '\x7b' :: cs => !cs.contains '\x7d'
  | _ => false

/-- The namespace of an expanded name, up to its last closing brace, and its local name. -/
def expanded? (name : String) : Option QName :=
  match name.toList with
  | '\x7b' :: cs =>
    if cs.contains '\x7d' then
      some ⟨String.ofList ((cs.reverse.dropWhile (· ≠ '\x7d')).drop 1).reverse,
        String.ofList (cs.reverse.takeWhile (· ≠ '\x7d')).reverse⟩
    else none
  | _ => none

/-! ## Prefixes -/

abbrev Labels := Table String String

def familiarLabels : Labels :=
  [("http://www.w3.org/XML/1998/namespace", "xml"), ("http://www.w3.org/1999/xhtml", "html"),
    ("http://www.w3.org/1999/02/22-rdf-syntax-ns#", "rdf"), ("http://schemas.xmlsoap.org/wsdl/", "wsdl"),
    (xsdSpace, "xs"), ("http://www.w3.org/2001/XMLSchema-instance", "xsi"), ("http://purl.org/dc/elements/1.1/", "dc")]

namespace Labels

def find? (t : Labels) (space : String) : Option String :=
  (t ++ familiarLabels).get? space

/-- Gives the namespace of a name a prefix. The prefix `xml` needs no declaration and is not kept. -/
def enter (t : Labels) (name : String) : Labels :=
  match expanded? name with
  | none => t
  | some q =>
    let label := (t.find? q.space).getD ("ns" ++ toString t.length)
    if label = "xml" then t else t.put q.space label

def spell (t : Labels) (name : String) : String :=
  match expanded? name with
  | none => name
  | some q => (t.find? q.space).getD "" ++ ":" ++ q.name

/-- Puts an entry in front of the first one with a greater prefix. -/
def insert (e : String × String) : Labels → Labels
  | [] => [e]
  | e' :: t => if e.2 < e'.2 then e :: e' :: t else e' :: insert e t

def declarations (t : Labels) : List (String × String) :=
  (t.foldr insert []).map fun e => ("xmlns:" ++ e.2, e.1)

end Labels

/-! ## Trees -/

mutual

def Tree.names : Tree → List String
  | .mk name attributes _ children => name :: (attributes.map (·.1) ++ Tree.namesAll children)

def Tree.namesAll : List Tree → List String
  | [] => []
  | t :: ts => t.names ++ Tree.namesAll ts

end

mutual

def Tree.respell (spell : String → String) : Tree → Tree
  | .mk name attributes text children =>
    .mk (spell name) (attributes.map fun a => (spell a.1, a.2)) text (Tree.respellAll spell children)

def Tree.respellAll (spell : String → String) : List Tree → List Tree
  | [] => []
  | t :: ts => t.respell spell :: Tree.respellAll spell ts

end

def Tree.declare (more : List (String × String)) : Tree → Tree
  | .mk name attributes text children => .mk name (more ++ attributes) text children

/-- A tree whose expanded names have prefixes, which its root declares. A name with a brace that is not closed has no
namespace and no local name. -/
def Tree.labelled (root : Tree) : Except Fault Tree :=
  if root.names.any isUnclosed then .error (.badValue .unclosedName)
  else
    let labels := root.names.foldl Labels.enter []
    .ok ((root.respell labels.spell).declare labels.declarations)

end PayloadSchema.Xml
