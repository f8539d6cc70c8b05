import PayloadSchema.Schema.Basic

/-!
# Stores of nodes

A tree that is filled from outside in is kept in a store: each node has a place, and holds the places of
the nodes inside it. A node can be changed at its place as long as someone knows the place.
-/

namespace PayloadSchema.Extraction

open Schema

abbrev Place := Nat

/-- Nodes by place. -/
structure Store where
  shapes : Array (Shape Place)

namespace Store

def empty : Store := ⟨#[]⟩

def get (s : Store) (p : Place) : Shape Place :=
  s.shapes[p]?.getD .schemaNode

def push (s : Store) (shape : Shape Place) : Place × Store :=
  (s.shapes.size, ⟨s.shapes.push shape⟩)

def update (s : Store) (p : Place) (f : Shape Place → Shape Place) : Store :=
  ⟨s.shapes.modify p f⟩

def cutTree (s : Store) : (depth : Nat) → Place → Node
  | 0, _ => default
  | depth + 1, p => ⟨(s.get p).map (s.cutTree depth)⟩

/-- The tree at a place. No tree is deeper than its store has places. -/
def tree (s : Store) (p : Place) : Node :=
  s.cutTree s.shapes.size p

def cutPlaces (s : Store) : (depth : Nat) → Place → List Place
  | 0, _ => []
  | depth + 1, p => p :: (s.get p).children.flatMap (s.cutPlaces depth)

def places (s : Store) (p : Place) : List Place :=
  s.cutPlaces s.shapes.size p

def pushTree (n : Node) : StateM Store Place :=
  n.fold fun shape => do
    let shape ← shape.traverse id
    modifyGet (·.push shape)

end Store

end PayloadSchema.Extraction
