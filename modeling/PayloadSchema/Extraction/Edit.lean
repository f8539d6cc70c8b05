import PayloadSchema.Schema.Walk

/-!
# Edits

What the copy of a node still needs, after its place has been made, is a list of edits: children to be
copied in turn, plain fields to be set, warnings, and the point where copying has to stop. An edit does not
say in which order children are copied later.
-/

namespace PayloadSchema.Extraction

open Schema

/-- The places inside a node that a copied child can take. -/
inductive Slot where
  | type
  | content
  | model
  | particle
  | attribute
  | item
  | memberType
deriving DecidableEq, Repr

/-- Puts a child into a slot. A type of its own takes the place of a named one. -/
def Slot.fill {α : Type} (child : α) : Slot → Shape α → Shape α
  | .type, .element c d _ => .element c { d with typeName := none } (some child)
  | .type, .attribute c d _ => .attribute c { d with typeName := none } (some child)
  | .type, .simpleRestriction _ _ fs => .simpleRestriction none (some child) fs
  | .type, .simpleList _ _ => .simpleList none (some child)
  | .type, .simpleContentRestriction b _ fs as a => .simpleContentRestriction b (some child) fs as a
  | .content, .simpleType c _ => .simpleType c (some child)
  | .content, .simpleContent _ => .simpleContent (some child)
  | .content, .complexContent m _ => .complexContent m (some child)
  | .model, .complexType c d as a _ p => .complexType c d as a (some child) p
  | .particle, .complexType c d as a m _ => .complexType c d as a m (some child)
  | .particle, .complexDerivation h b _ as a => .complexDerivation h b (some child) as a
  | .attribute, s => s.addAttribute child
  | .item, .modelGroup k o is => .modelGroup k o (is ++ [child])
  | .memberType, .simpleUnion ms ts => .simpleUnion ms (ts ++ [child])
  | _, s => s

/-- A node to be copied as a child. -/
structure Child where
  origin : Node
  /-- The component that the node stands for, when it is not the node itself. -/
  key : Option ComponentKey
  /-- The occurrence bounds of a reference that the node takes the place of. -/
  bounds : Option Occurs

inductive Change where
  | name (name : Option String)
  | form (form : String)
  /-- A named type, or the absence of any type. -/
  | typeName (name : Option QName)
  | base (name : Option QName)
  | member (name : QName)
  /-- What the declaration of an element adds to another one of the same element. -/
  | element (decl : ElementDecl)
  /-- What the declaration of an attribute adds to another one of the same attribute. -/
  | attribute (usage : AttributeUse)

def Change.apply {α : Type} : Change → Shape α → Shape α
  | .name n, .element c d t => .element { c with name := n } d t
  | .name n, .attribute c d t => .attribute { c with name := n } d t
  | .form f, .element c d t => .element c { d with form := some f } t
  | .form f, .attribute c d t => .attribute c { d with form := some f } t
  | .typeName q, .element c d _ => .element c { d with typeName := q } none
  | .typeName q, .attribute c d _ => .attribute c { d with typeName := q } none
  | .typeName q, .simpleRestriction _ _ fs => .simpleRestriction q none fs
  | .typeName q, .simpleList _ _ => .simpleList q none
  | .base q, .simpleContentExtension _ as a => .simpleContentExtension q as a
  | .base q, .simpleContentRestriction _ t fs as a => .simpleContentRestriction q t fs as a
  | .base q, .complexDerivation h _ p as a => .complexDerivation h q p as a
  | .member q, .simpleUnion ms ts => .simpleUnion (ms ++ [q]) ts
  | .element e, .element c d t =>
    .element c
      { d with
        nillable := d.nillable || e.nillable
        default := d.default <|> e.default
        fixed := d.fixed <|> e.fixed
        abstract := if c.topLevel then e.abstract else d.abstract } t
  | .attribute u, .attribute c d t =>
    .attribute c
      { d with
        usage := ⟨d.usage.use <|> u.use, d.usage.default <|> u.default, d.usage.fixed <|> u.fixed⟩ } t
  | _, s => s

/-- One step of a copy. -/
inductive Edit where
  /-- Copies a child into a slot. -/
  | attach (slot : Slot) (child : Child)
  /-- Copies two children as the items of a new sequence, which is the particle. -/
  | attachSequence (first second : Child)
  /-- Copies a child that has no slot, and that nobody will see. -/
  | discard (child : Child)
  /-- Copies another node into the same place. -/
  | follow (origin : Node)
  | change (change : Change)
  | wildcard (wildcard : Wildcard)
  | warn (text : String)
  | stop (fault : Fault)

def Edit.fail (p : Problem) : Edit := .stop (.problem p)

def Child.plain (n : Node) : Child := ⟨n, none, none⟩

/-! ## The start of a copy -/

def outlineAny : Option Node → Except Fault (Option Node)
  | none => .ok none
  | some n =>
    match n.shape.wildcard? with
    | some w => .ok (some ⟨.anyAttribute w⟩)
    | none => .error .wrongNode

def outlineFacets (ns : List Node) : Except Fault (List Node) :=
  ns.mapM fun n =>
    match n.shape.facet? with
    | some f => .ok ⟨.facet f⟩
    | none => .error .wrongNode

/-- The copy of a node before its children are copied: a declaration in place of a reference, and the node
itself without its name, if it is a type, and without what its edits add. -/
def outline (n : Node) : Except Fault (Shape Node) :=
  match n.shape with
  | .elementRef _ o => .ok (.element ⟨none, false⟩ ⟨none, none, o, false, false, none, none, none⟩ none)
  | .attributeRef _ u => .ok (.attribute ⟨none, false⟩ ⟨none, u, none⟩ none)
  | .element c d _ =>
    .ok (.element ⟨c.name, false⟩ ⟨none, none, d.occurs, d.nillable, false, d.default, d.fixed, d.form⟩
      none)
  | .attribute c d _ => .ok (.attribute ⟨c.name, false⟩ ⟨none, d.usage, d.form⟩ none)
  | .simpleType .. => .ok (.simpleType ⟨none, false⟩ none)
  | .complexType _ d _ any _ _ => do
    pure (.complexType ⟨none, false⟩ ⟨d.mixed, false⟩ [] (← outlineAny any) none none)
  | .simpleRestriction _ _ fs => do pure (.simpleRestriction none none (← outlineFacets fs))
  | .simpleList .. => .ok (.simpleList none none)
  | .simpleUnion .. => .ok (.simpleUnion [] [])
  | .simpleContent _ => .ok (.simpleContent none)
  | .complexContent mixed _ => .ok (.complexContent mixed none)
  | .simpleContentExtension _ _ any => do
    pure (.simpleContentExtension none [] (← outlineAny any))
  | .simpleContentRestriction _ _ fs _ any => do
    let limits ← outlineFacets fs
    pure (.simpleContentRestriction none none limits [] (← outlineAny any))
  | .complexDerivation how _ _ _ any => do
    pure (.complexDerivation how none none [] (← outlineAny any))
  | .modelGroup .unspecified _ _ => .error (.problem (.noTarget n.shape.kind))
  | .modelGroup order o _ => .ok (.modelGroup order o [])
  | .wildcard w o => .ok (.wildcard w o)
  | .schemaNode | .facet _ | .anyAttribute _ | .attributeGroupRef _ | .attributeGroup .. | .groupRef ..
  | .group .. => .error (.problem (.noTarget n.shape.kind))

def Child.outline (child : Child) : Except Fault (Shape Node) := do
  let shape ← Extraction.outline child.origin
  pure (match child.bounds with
    | some o => shape.withOccurs o
    | none => shape)

/-- The key under which the copy of a child is checked for circles, in a schema with the given namespace. -/
def Child.key? (space : String) (child : Child) : Option ComponentKey :=
  child.key <|> child.origin.shape.key? space

end PayloadSchema.Extraction
