import PayloadSchema.QName
import PayloadSchema.Xml.Tree

/-!
# Namespace scopes

A declaration of a namespace binds a prefix, or the absence of one, for the element that carries it and
for everything inside, until a declaration further inside binds it anew. Every element keeps the scope that
is in force for it, so that names inside attribute values can be resolved later.
-/

namespace PayloadSchema.Xml

/-- The namespaces bound to prefixes; the empty prefix is the absence of one. -/
structure Scope where
  bindings : List (String × String)
deriving DecidableEq, Repr, Inhabited

def xmlSpace : String := "http://www.w3.org/XML/1998/namespace"

def declarationSpace : String := "http://www.w3.org/" ++ "2000/xmlns/"

namespace Scope

def base : Scope := ⟨[("xml", xmlSpace)]⟩

def find? (s : Scope) (label : String) : Option String :=
  s.bindings.lookup label

def bind (s : Scope) (label space : String) : Scope :=
  ⟨(label, space) :: s.bindings.filter (·.1 ≠ label)⟩

def extend (s : Scope) (declared : List (String × String)) : Scope :=
  declared.foldl (fun s d => s.bind d.1 d.2) s

def insertOrdered (b : String × String) : List (String × String) → List (String × String)
  | [] => [b]
  | c :: cs => if b.1 < c.1 then b :: c :: cs else c :: insertOrdered b cs

def ordered (s : Scope) : List (String × String) :=
  s.bindings.foldr insertOrdered []

end Scope

/-- An element with resolved names. The declarations of namespaces are no longer among its attributes. -/
inductive Element where
  | mk (tag : QName) (attributes : List (QName × String)) (text : Option String) (scope : Scope)
    (children : List Element)

namespace Element

def tag : Element → QName
  | mk tag _ _ _ _ => tag

def attributes : Element → List (QName × String)
  | mk _ attributes _ _ _ => attributes

def text : Element → Option String
  | mk _ _ text _ _ => text

def scope : Element → Scope
  | mk _ _ _ scope _ => scope

def children : Element → List Element
  | mk _ _ _ _ children => children

def attribute? (e : Element) (name : String) : Option String :=
  e.attributes.lookup ⟨"", name⟩

mutual

def preorder : Element → List Element
  | mk tag attributes text scope children =>
    mk tag attributes text scope children :: preorderAll children

def preorderAll : List Element → List Element
  | [] => []
  | e :: es => preorder e ++ preorderAll es

end

end Element

def splitName (s : String) : Option String × String :=
  match s.toList.dropWhile (· ≠ ':') with
  | _ :: rest => (some (String.ofList (s.toList.takeWhile (· ≠ ':'))), String.ofList rest)
  | [] => (none, s)

def declaredLabel? (name : String) : Option String :=
  match splitName name with
  | (none, "xmlns") => some ""
  | (some "xmlns", label) => some label
  | _ => none

/-- Whether a prefix may be bound to a namespace. Only the absence of a prefix may be unbound, the two
reserved prefixes and namespaces belong to each other, and a closing brace would confuse written names. -/
def isBindable (label space : String) : Bool :=
  label != "xmlns" && (space != "" || label == "") && ((label == "xml") == (space == xmlSpace)) &&
    space != declarationSpace && !space.toList.contains '\x7d'

def declarations? (attributes : List (String × String)) : Option (List (String × String)) :=
  (attributes.filterMap fun a => (declaredLabel? a.1).map (·, a.2)).mapM fun d =>
    if isBindable d.1 d.2 then some d else none

/-- The name of an element; without a prefix it is in the default namespace. -/
def Scope.elementName? (s : Scope) (written : String) : Option QName :=
  match splitName written with
  | (some label, name) => (s.find? label).map (⟨·, name⟩)
  | (none, name) => some ⟨(s.find? "").getD "", name⟩

/-- The name of an attribute; without a prefix it is in no namespace. -/
def Scope.attributeName? (s : Scope) (written : String) : Option QName :=
  match splitName written with
  | (some label, name) => (s.find? label).map (⟨·, name⟩)
  | (none, name) => some ⟨"", name⟩

/-- The attributes of an element that are not declarations, with their names resolved. No name may occur
twice, neither as written nor when resolved. -/
def Scope.attributes? (s : Scope) (written : List (String × String)) :
    Option (List (QName × String)) := do
  let proper := written.filter fun a => (declaredLabel? a.1).isNone
  let resolved ← proper.mapM fun a => (s.attributeName? a.1).map (·, a.2)
  if (written.map (·.1)).eraseDups.length = written.length ∧
      (resolved.map (·.1)).eraseDups.length = resolved.length then some resolved else none

mutual

def Element.ofTree? (outer : Scope) : Tree → Option Element
  | .mk name attributes text children => do
    let scope := outer.extend (← declarations? attributes)
    let tag ← scope.elementName? name
    let resolved ← scope.attributes? attributes
    let inner ← Element.ofTrees? scope children
    some (.mk tag resolved (if text = "" then none else some text) scope inner)

def Element.ofTrees? (outer : Scope) : List Tree → Option (List Element)
  | [] => some []
  | t :: ts => do
    let e ← Element.ofTree? outer t
    let es ← Element.ofTrees? outer ts
    some (e :: es)

end

end PayloadSchema.Xml
