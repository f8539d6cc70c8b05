import PayloadSchema.Schema.Basic

/-!
# Walking through schemas

The nodes of a schema in document order, and the views of a single node that do not depend on where it
stands.
-/

namespace PayloadSchema.Schema

/-! ## Views of a node -/

inductive ComponentKind where
  | element
  | attribute
  | type
  | group
deriving DecidableEq, Repr

def ComponentKind.label : ComponentKind → String
  | .element => "element"
  | .attribute => "attribute"
  | .type => "type"
  | .group => "group"

/-- The key of a component: its kind and its name. -/
structure ComponentKey where
  kind : ComponentKind
  name : QName
deriving DecidableEq, Repr

namespace Shape

variable {α : Type}

def isReference (s : Shape α) : Bool :=
  s.reference?.isSome

def isNamed (s : Shape α) : Bool :=
  match s.component? with
  | some c => c.name.isSome
  | none => false

def isTopLevel (s : Shape α) : Bool :=
  match s.component? with
  | some c => c.topLevel
  | none => false

/-- The kind of component that a construct is. Attribute groups have no key. -/
def componentKind? : Shape α → Option ComponentKind
  | element .. => some .element
  | .attribute .. => some .attribute
  | simpleType .. | complexType .. => some .type
  | group .. => some .group
  | _ => none

def key? (space : String) (s : Shape α) : Option ComponentKey := do
  let kind ← s.componentKind?
  let c ← s.component?
  if c.topLevel then c.name.map fun name => ⟨kind, ⟨space, name⟩⟩ else none

end Shape

def Node.children (n : Node) : List Node :=
  n.shape.children

/-- The items of the sequence of a complex type, if a construct is a complex type with one. -/
def Shape.sequence? (shapeOf : α → Shape α) : Shape α → Option (List α)
  | complexType _ _ _ _ _ (some p) =>
    match shapeOf p with
    | modelGroup .sequence _ items => some items
    | _ => none
  | _ => none

def Node.sequenceChildren (n : Node) : List Node :=
  match n.shape.ownType? with
  | some (some t) =>
    ((t.shape.sequence? Node.shape).getD []).filter fun i => i.shape.kind = .element
  | _ => []

/-! ## Document order -/

noncomputable def stackSize : List Node → Nat
  | [] => 0
  | n :: rest => sizeOf n + stackSize rest

theorem stackSize_append (l r : List Node) : stackSize (l ++ r) = stackSize l + stackSize r := by
  induction l with
  | nil => simp [stackSize]
  | cons n l ih => simp [stackSize, ih, Nat.add_assoc]

theorem Node.stackSize_children (n : Node) : stackSize n.children < sizeOf n := by
  have toList (o : Option Node) : stackSize o.toList ≤ sizeOf o := by
    cases o <;> simp [stackSize]
  have ofList (l : List Node) : stackSize l ≤ sizeOf l := by
    induction l with
    | nil => simp [stackSize]
    | cons a l ih => simp [stackSize]; omega
  obtain ⟨s⟩ := n
  cases s <;> simp only [children, Node.shape, Shape.children, stackSize_append, stackSize,
    Node.mk.sizeOf_spec, Shape.simpleRestriction.sizeOf_spec, Shape.simpleList.sizeOf_spec,
    Shape.simpleUnion.sizeOf_spec, Shape.simpleType.sizeOf_spec, Shape.attribute.sizeOf_spec,
    Shape.attributeGroup.sizeOf_spec, Shape.modelGroup.sizeOf_spec, Shape.group.sizeOf_spec,
    Shape.simpleContentExtension.sizeOf_spec, Shape.simpleContentRestriction.sizeOf_spec,
    Shape.complexDerivation.sizeOf_spec, Shape.simpleContent.sizeOf_spec,
    Shape.complexContent.sizeOf_spec, Shape.complexType.sizeOf_spec, Shape.element.sizeOf_spec] <;> grind

def walk : List Node → List Node
  | [] => []
  | n :: rest => n :: walk (n.children ++ rest)
termination_by stack => stackSize stack
decreasing_by
  have := n.stackSize_children
  simp only [stackSize_append, stackSize]
  omega

end PayloadSchema.Schema

namespace PayloadSchema

def Schema.nodes (s : Schema) : List Schema.Node :=
  Schema.walk s.roots

end PayloadSchema
