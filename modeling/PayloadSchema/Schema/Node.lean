import PayloadSchema.QName
import PayloadSchema.Schema.Kind

/-!
# Schema nodes

The constructs of a schema. `Shape` is one construct whose inner constructs are given by a type of one's
choice: by nodes themselves, which makes a tree, or by places in a store, which makes a tree that can be
filled later. References between components are kept by name. A shape does not say which kinds its inner
constructs have, so a tree can hold a node in a place where no document would put it.
-/

namespace PayloadSchema.Schema

/-- How often a construct may occur. Without an upper bound it may occur any number of times. -/
structure Occurs where
  min : Option Int
  max : Option Int
deriving DecidableEq, Repr

def Occurs.once : Occurs := ⟨some 1, some 1⟩

/-- The name of a component, and whether it stands at the top of its schema. -/
structure Component where
  name : Option String
  topLevel : Bool
deriving DecidableEq, Repr

structure Facet where
  kind : String
  value : String
  fixed : Bool
deriving DecidableEq, Repr

structure Wildcard where
  space : Option String
  processing : Option String
deriving DecidableEq, Repr

structure AttributeUse where
  use : Option String
  default : Option String
  fixed : Option String
deriving DecidableEq, Repr

/-- What the declaration of an attribute says beside its name and its own type. -/
structure AttributeDecl where
  typeName : Option QName
  usage : AttributeUse
  form : Option String
deriving DecidableEq, Repr

/-- What the declaration of an element says beside its name and its own type. -/
structure ElementDecl where
  typeName : Option QName
  substitutionGroup : Option QName
  occurs : Occurs
  nillable : Bool
  abstract : Bool
  default : Option String
  fixed : Option String
  form : Option String
deriving DecidableEq, Repr

structure ComplexDecl where
  mixed : Bool
  abstract : Bool
deriving DecidableEq, Repr

inductive Order where
  /-- No order has been chosen. -/
  | unspecified
  | sequence
  | choice
  | all
deriving DecidableEq, Repr

inductive Derivation where
  | extension
  | restriction
deriving DecidableEq, Repr

/-- One construct of a schema, with inner constructs given by `α`. -/
inductive Shape (α : Type) where
  | schemaNode
  | facet (facet : Facet)
  | anyAttribute (wildcard : Wildcard)
  | wildcard (wildcard : Wildcard) (occurs : Occurs)
  | simpleRestriction (base : Option QName) (baseType : Option α) (facets : List α)
  | simpleList (item : Option QName) (itemType : Option α)
  | simpleUnion (members : List QName) (memberTypes : List α)
  | simpleType (component : Component) (content : Option α)
  | attribute (component : Component) (decl : AttributeDecl) (type : Option α)
  | attributeRef (ref : Option QName) (usage : AttributeUse)
  | attributeGroupRef (ref : Option QName)
  | attributeGroup (component : Component) (attributes : List α) (any : Option α)
  | modelGroup (order : Order) (occurs : Occurs) (items : List α)
  | groupRef (ref : Option QName) (occurs : Occurs)
  | group (component : Component) (particle : Option α)
  | simpleContentExtension (base : Option QName) (attributes : List α) (any : Option α)
  | simpleContentRestriction (base : Option QName) (baseType : Option α) (facets : List α)
    (attributes : List α) (any : Option α)
  | complexDerivation (how : Derivation) (base : Option QName) (particle : Option α)
    (attributes : List α) (any : Option α)
  | simpleContent (content : Option α)
  | complexContent (mixed : Option Bool) (content : Option α)
  | complexType (component : Component) (decl : ComplexDecl) (attributes : List α) (any : Option α)
    (model : Option α) (particle : Option α)
  | element (component : Component) (decl : ElementDecl) (type : Option α)
  | elementRef (ref : Option QName) (occurs : Occurs)

/-- A construct with all that it contains. -/
inductive Node where
  | mk (shape : Shape Node)

instance : Inhabited Node := ⟨⟨.schemaNode⟩⟩

def Node.shape : Node → Shape Node
  | mk shape => shape

namespace Shape

variable {α β : Type}

def kind : Shape α → Kind
  | schemaNode => .schemaNode
  | facet _ => .facet
  | anyAttribute _ => .anyAttribute
  | wildcard .. => .wildcard
  | simpleRestriction .. => .simpleTypeRestriction
  | simpleList .. => .simpleTypeList
  | simpleUnion .. => .simpleTypeUnion
  | simpleType .. => .simpleType
  | .attribute .. => .attribute
  | attributeRef .. => .attributeRef
  | attributeGroupRef _ => .attributeGroupRef
  | attributeGroup .. => .attributeGroup
  | modelGroup .unspecified _ _ => .groupParticle
  | modelGroup .sequence _ _ => .sequence
  | modelGroup .choice _ _ => .choice
  | modelGroup .all _ _ => .all
  | groupRef .. => .groupRef
  | group .. => .group
  | simpleContentExtension .. => .simpleContentExtension
  | simpleContentRestriction .. => .simpleContentRestriction
  | complexDerivation .extension _ _ _ _ => .complexContentExtension
  | complexDerivation .restriction _ _ _ _ => .complexContentRestriction
  | simpleContent _ => .simpleContent
  | complexContent .. => .complexContent
  | complexType .. => .complexType
  | element .. => .element
  | elementRef .. => .elementRef

def children : Shape α → List α
  | simpleRestriction _ baseType facets => baseType.toList ++ facets
  | simpleList _ itemType => itemType.toList
  | simpleUnion _ memberTypes => memberTypes
  | simpleType _ content => content.toList
  | .attribute _ _ type => type.toList
  | attributeGroup _ attributes any => attributes ++ any.toList
  | modelGroup _ _ items => items
  | group _ particle => particle.toList
  | simpleContentExtension _ attributes any => attributes ++ any.toList
  | simpleContentRestriction _ baseType facets attributes any =>
    baseType.toList ++ facets ++ attributes ++ any.toList
  | complexDerivation _ _ particle attributes any => particle.toList ++ attributes ++ any.toList
  | simpleContent content => content.toList
  | complexContent _ content => content.toList
  | complexType _ _ attributes any model particle =>
    model.toList ++ particle.toList ++ attributes ++ any.toList
  | element _ _ type => type.toList
  | schemaNode | facet _ | anyAttribute _ | wildcard .. | attributeRef .. | attributeGroupRef _
  | groupRef .. | elementRef .. => []

def map (f : α → β) : Shape α → Shape β
  | schemaNode => .schemaNode
  | facet x => .facet x
  | anyAttribute w => .anyAttribute w
  | wildcard w o => .wildcard w o
  | simpleRestriction b t fs => .simpleRestriction b (t.map f) (fs.map f)
  | simpleList i t => .simpleList i (t.map f)
  | simpleUnion ms ts => .simpleUnion ms (ts.map f)
  | simpleType c t => .simpleType c (t.map f)
  | .attribute c d t => .attribute c d (t.map f)
  | attributeRef r u => .attributeRef r u
  | attributeGroupRef r => .attributeGroupRef r
  | attributeGroup c as a => .attributeGroup c (as.map f) (a.map f)
  | modelGroup k o is => .modelGroup k o (is.map f)
  | groupRef r o => .groupRef r o
  | group c p => .group c (p.map f)
  | simpleContentExtension b as a => .simpleContentExtension b (as.map f) (a.map f)
  | simpleContentRestriction b t fs as a =>
    .simpleContentRestriction b (t.map f) (fs.map f) (as.map f) (a.map f)
  | complexDerivation h b p as a => .complexDerivation h b (p.map f) (as.map f) (a.map f)
  | simpleContent c => .simpleContent (c.map f)
  | complexContent m c => .complexContent m (c.map f)
  | complexType c d as a m p => .complexType c d (as.map f) (a.map f) (m.map f) (p.map f)
  | element c d t => .element c d (t.map f)
  | elementRef r o => .elementRef r o

def traverse {m : Type → Type} [Monad m] (f : α → m β) : Shape α → m (Shape β)
  | schemaNode => pure .schemaNode
  | facet x => pure (.facet x)
  | anyAttribute w => pure (.anyAttribute w)
  | wildcard w o => pure (.wildcard w o)
  | simpleRestriction b t fs => do pure (.simpleRestriction b (← t.mapM f) (← fs.mapM f))
  | simpleList i t => do pure (.simpleList i (← t.mapM f))
  | simpleUnion ms ts => do pure (.simpleUnion ms (← ts.mapM f))
  | simpleType c t => do pure (.simpleType c (← t.mapM f))
  | .attribute c d t => do pure (.attribute c d (← t.mapM f))
  | attributeRef r u => pure (.attributeRef r u)
  | attributeGroupRef r => pure (.attributeGroupRef r)
  | attributeGroup c as a => do pure (.attributeGroup c (← as.mapM f) (← a.mapM f))
  | modelGroup k o is => do pure (.modelGroup k o (← is.mapM f))
  | groupRef r o => pure (.groupRef r o)
  | group c p => do pure (.group c (← p.mapM f))
  | simpleContentExtension b as a => do
    pure (.simpleContentExtension b (← as.mapM f) (← a.mapM f))
  | simpleContentRestriction b t fs as a => do
    pure (.simpleContentRestriction b (← t.mapM f) (← fs.mapM f) (← as.mapM f) (← a.mapM f))
  | complexDerivation h b p as a => do
    pure (.complexDerivation h b (← p.mapM f) (← as.mapM f) (← a.mapM f))
  | simpleContent c => do pure (.simpleContent (← c.mapM f))
  | complexContent m c => do pure (.complexContent m (← c.mapM f))
  | complexType c d as a m p => do
    pure (.complexType c d (← as.mapM f) (← a.mapM f) (← m.mapM f) (← p.mapM f))
  | element c d t => do pure (.element c d (← t.mapM f))
  | elementRef r o => pure (.elementRef r o)

def component? : Shape α → Option Component
  | simpleType c _ | .attribute c _ _ | attributeGroup c _ _ | group c _ | complexType c _ _ _ _ _
  | element c _ _ => some c
  | _ => none

def withComponent (c : Component) : Shape α → Shape α
  | simpleType _ t => .simpleType c t
  | .attribute _ d t => .attribute c d t
  | attributeGroup _ as a => .attributeGroup c as a
  | group _ p => .group c p
  | complexType _ d as a m p => .complexType c d as a m p
  | element _ d t => .element c d t
  | s => s

/-- The name that a reference refers to; the outer `none` says that the construct is no reference. -/
def reference? : Shape α → Option (Option QName)
  | elementRef r _ | attributeRef r _ | groupRef r _ | attributeGroupRef r => some r
  | _ => none

def attributes? : Shape α → Option (List α)
  | attributeGroup _ as _ | simpleContentExtension _ as _ | simpleContentRestriction _ _ _ as _
  | complexDerivation _ _ _ as _ | complexType _ _ as _ _ _ => some as
  | _ => none

def any? : Shape α → Option (Option α)
  | attributeGroup _ _ a | simpleContentExtension _ _ a | simpleContentRestriction _ _ _ _ a
  | complexDerivation _ _ _ _ a | complexType _ _ _ a _ _ => some a
  | _ => none

def content? : Shape α → Option (Option α)
  | simpleType _ t | simpleContent t | complexContent _ t => some t
  | _ => none

def particle? : Shape α → Option (Option α)
  | group _ p | complexDerivation _ _ p _ _ | complexType _ _ _ _ _ p => some p
  | _ => none

def base? : Shape α → Option (Option QName)
  | simpleRestriction b _ _ | simpleContentExtension b _ _ | simpleContentRestriction b _ _ _ _
  | complexDerivation _ b _ _ _ => some b
  | _ => none

def ownType? : Shape α → Option (Option α)
  | element _ _ t | .attribute _ _ t => some t
  | _ => none

def withOwnType (t : Option α) : Shape α → Shape α
  | element c d _ => .element c d t
  | .attribute c d _ => .attribute c d t
  | s => s

def facet? : Shape α → Option Facet
  | facet f => some f
  | _ => none

def wildcard? : Shape α → Option Wildcard
  | anyAttribute w | wildcard w _ => some w
  | _ => none

def withOccurs (o : Occurs) : Shape α → Shape α
  | wildcard w _ => .wildcard w o
  | modelGroup k _ is => .modelGroup k o is
  | groupRef r _ => .groupRef r o
  | element c d t => .element c { d with occurs := o } t
  | elementRef r _ => .elementRef r o
  | s => s

def addAttribute (x : α) : Shape α → Shape α
  | attributeGroup c as a => .attributeGroup c (as ++ [x]) a
  | simpleContentExtension b as a => .simpleContentExtension b (as ++ [x]) a
  | simpleContentRestriction b t fs as a => .simpleContentRestriction b t fs (as ++ [x]) a
  | complexDerivation h b p as a => .complexDerivation h b p (as ++ [x]) a
  | complexType c d as a m p => .complexType c d (as ++ [x]) a m p
  | s => s

def withAny (x : Option α) : Shape α → Shape α
  | attributeGroup c as _ => .attributeGroup c as x
  | simpleContentExtension b as _ => .simpleContentExtension b as x
  | simpleContentRestriction b t fs as _ => .simpleContentRestriction b t fs as x
  | complexDerivation h b p as _ => .complexDerivation h b p as x
  | complexType c d as _ m p => .complexType c d as x m p
  | s => s

end Shape

/-! ## Folding a tree -/

mutual

def Node.fold {β : Type} (f : Shape β → β) : Node → β
  | ⟨shape⟩ => f (Shape.fold f shape)

def Shape.fold {β : Type} (f : Shape β → β) : Shape Node → Shape β
  | .schemaNode => .schemaNode
  | .facet x => .facet x
  | .anyAttribute w => .anyAttribute w
  | .wildcard w o => .wildcard w o
  | .simpleRestriction b t fs => .simpleRestriction b (Node.foldOption f t) (Node.foldAll f fs)
  | .simpleList i t => .simpleList i (Node.foldOption f t)
  | .simpleUnion ms ts => .simpleUnion ms (Node.foldAll f ts)
  | .simpleType c t => .simpleType c (Node.foldOption f t)
  | .attribute c d t => .attribute c d (Node.foldOption f t)
  | .attributeRef r u => .attributeRef r u
  | .attributeGroupRef r => .attributeGroupRef r
  | .attributeGroup c as a => .attributeGroup c (Node.foldAll f as) (Node.foldOption f a)
  | .modelGroup k o is => .modelGroup k o (Node.foldAll f is)
  | .groupRef r o => .groupRef r o
  | .group c p => .group c (Node.foldOption f p)
  | .simpleContentExtension b as a =>
    .simpleContentExtension b (Node.foldAll f as) (Node.foldOption f a)
  | .simpleContentRestriction b t fs as a =>
    .simpleContentRestriction b (Node.foldOption f t) (Node.foldAll f fs) (Node.foldAll f as)
      (Node.foldOption f a)
  | .complexDerivation h b p as a =>
    .complexDerivation h b (Node.foldOption f p) (Node.foldAll f as) (Node.foldOption f a)
  | .simpleContent c => .simpleContent (Node.foldOption f c)
  | .complexContent m c => .complexContent m (Node.foldOption f c)
  | .complexType c d as a m p =>
    .complexType c d (Node.foldAll f as) (Node.foldOption f a) (Node.foldOption f m)
      (Node.foldOption f p)
  | .element c d t => .element c d (Node.foldOption f t)
  | .elementRef r o => .elementRef r o

def Node.foldOption {β : Type} (f : Shape β → β) : Option Node → Option β
  | none => none
  | some n => some (Node.fold f n)

def Node.foldAll {β : Type} (f : Shape β → β) : List Node → List β
  | [] => []
  | n :: ns => Node.fold f n :: Node.foldAll f ns

end

end PayloadSchema.Schema
