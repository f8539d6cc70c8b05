import PayloadSchema.Xml.Scope

/-!
# Scopes from a stream of tags

Who reads a document tag by tag has no tree to go down. The scopes of the elements that are open are held on a
stack, and declarations are held back until the tag that carries them starts its element.
-/

namespace PayloadSchema.Xml

/-- What is met while a document is read: the declarations of an element, its start, and its end. -/
inductive Event where
  | declare (label space : String)
  | start (t : Tree)
  | stop

namespace Tree

def name : Tree → String
  | mk name _ _ _ => name

def children : Tree → List Tree
  | mk _ _ _ children => children

def declared : Tree → List (String × String)
  | mk _ attributes _ _ => attributes.filterMap fun a => (declaredLabel? a.1).map (·, a.2)

mutual

/-- The events of a tree. The declarations of an element come before its start. -/
def events : Tree → List Event
  | mk name attributes text children =>
    (mk name attributes text children).declared.map (fun d => .declare d.1 d.2) ++
      .start (mk name attributes text children) :: (eventsAll children ++ [.stop])

def eventsAll : List Tree → List Event
  | [] => []
  | t :: ts => events t ++ eventsAll ts

end

end Tree

/-- What is held between two events: the scopes of the open elements, innermost first, the declarations whose
element has not started, and the scope of each element that has. -/
structure ScopeRecord where
  stack : List Scope
  pending : List (String × String)
  recorded : List (Tree × Scope)

namespace ScopeRecord

/-- Before the first event only the scope outside of the root is open. -/
def initial : ScopeRecord := ⟨[.base], [], []⟩

def step? (r : ScopeRecord) : Event → Option ScopeRecord
  | .declare label space => some { r with pending := r.pending ++ [(label, space)] }
  | .start t =>
    match r.stack with
    | [] => none
    | outer :: rest =>
      let scope := outer.extend r.pending
      some ⟨scope :: outer :: rest, [], r.recorded ++ [(t, scope)]⟩
  | .stop =>
    match r.stack with
    | [] => none
    | _ :: rest => some { r with stack := rest }

end ScopeRecord

end PayloadSchema.Xml
