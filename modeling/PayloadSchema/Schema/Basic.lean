import PayloadSchema.Fault
import PayloadSchema.Schema.Node
import PayloadSchema.Table

/-!
# Schemas

A schema has a target namespace, two defaults for the form of local names, and five tables of components
by name.
-/

namespace PayloadSchema.Schema

abbrev Components (α : Type) := Table (Option String) α

inductive TableName where
  | elements
  | attributes
  | types
  | groups
  | attributeGroups
deriving DecidableEq, Repr

end PayloadSchema.Schema

namespace PayloadSchema

open Schema

/-- A schema whose components are given by `α`. -/
structure SchemaOf (α : Type) where
  space : String
  elementForm : String
  attributeForm : String
  elements : Components α
  attributes : Components α
  types : Components α
  groups : Components α
  attributeGroups : Components α
deriving DecidableEq

abbrev Schema := SchemaOf Node

namespace SchemaOf

variable {α β : Type}

def empty (space elementForm attributeForm : String) : SchemaOf α :=
  ⟨space, elementForm, attributeForm, [], [], [], [], []⟩

def table (s : SchemaOf α) : TableName → Components α
  | .elements => s.elements
  | .attributes => s.attributes
  | .types => s.types
  | .groups => s.groups
  | .attributeGroups => s.attributeGroups

def put (s : SchemaOf α) (table : TableName) (name : Option String) (a : α) : SchemaOf α :=
  match table with
  | .elements => { s with elements := s.elements.put name a }
  | .attributes => { s with attributes := s.attributes.put name a }
  | .types => { s with types := s.types.put name a }
  | .groups => { s with groups := s.groups.put name a }
  | .attributeGroups => { s with attributeGroups := s.attributeGroups.put name a }

def find? (s : SchemaOf α) (table : TableName) : Option QName → Option α
  | none => none
  | some q => if q.space = s.space then (s.table table).get? (some q.name) else none

def roots (s : SchemaOf α) : List α :=
  s.elements.values ++ s.attributes.values ++ s.types.values ++ s.groups.values ++
    s.attributeGroups.values

def map (f : α → β) (s : SchemaOf α) : SchemaOf β :=
  let on (t : Components α) : Components β := t.map fun e => (e.1, f e.2)
  ⟨s.space, s.elementForm, s.attributeForm, on s.elements, on s.attributes, on s.types, on s.groups,
    on s.attributeGroups⟩

end SchemaOf

def Schema.defaultForm : String := "unqualified"

/-- Adds a node to a table as a component at the top of the schema. Only a node that can be named fits. -/
def Schema.add (s : Schema) (table : TableName) (n : Node) : Except Fault Schema :=
  match n.shape.component? with
  | none => .error .wrongNode
  | some c => .ok (s.put table c.name ⟨n.shape.withComponent { c with topLevel := true }⟩)

def Schema.Component.qname? (space : String) (c : Component) : Option QName :=
  c.name.map (⟨space, ·⟩)

def Schema.toText (s : Schema) : String :=
  let names (t : Components Node) : String :=
    "[" ++ ", ".intercalate (t.map fun e => Text.quotedOption e.1) ++ "]"
  "Schema(target_namespace=" ++ Text.quoted s.space ++ ", elements=" ++ names s.elements ++
    ", types=" ++ names s.types ++ ")"

end PayloadSchema
