/-!
# Kinds of schema nodes

Every construct of a schema document has a kind, and messages name a construct by it.
-/

namespace PayloadSchema.Schema

inductive Kind where
  | schemaNode
  | facet
  | anyAttribute
  | wildcard
  | simpleTypeRestriction
  | simpleTypeList
  | simpleTypeUnion
  | simpleType
  | attribute
  | attributeRef
  | attributeGroupRef
  | attributeGroup
  | groupParticle
  | sequence
  | choice
  | all
  | groupRef
  | group
  | simpleContentExtension
  | simpleContentRestriction
  | complexContentExtension
  | complexContentRestriction
  | simpleContent
  | complexContent
  | complexType
  | element
  | elementRef
deriving DecidableEq, Repr

def Kind.label : Kind → String
  | .schemaNode => "SchemaNode"
  | .facet => "Facet"
  | .anyAttribute => "AnyAttribute"
  | .wildcard => "Wildcard"
  | .simpleTypeRestriction => "SimpleTypeRestriction"
  | .simpleTypeList => "SimpleTypeList"
  | .simpleTypeUnion => "SimpleTypeUnion"
  | .simpleType => "SimpleType"
  | .attribute => "Attribute"
  | .attributeRef => "AttributeRef"
  | .attributeGroupRef => "AttributeGroupRef"
  | .attributeGroup => "AttributeGroup"
  | .groupParticle => "GroupParticle"
  | .sequence => "Sequence"
  | .choice => "Choice"
  | .all => "All"
  | .groupRef => "GroupRef"
  | .group => "Group"
  | .simpleContentExtension => "SimpleContentExtension"
  | .simpleContentRestriction => "SimpleContentRestriction"
  | .complexContentExtension => "ComplexContentExtension"
  | .complexContentRestriction => "ComplexContentRestriction"
  | .simpleContent => "SimpleContent"
  | .complexContent => "ComplexContent"
  | .complexType => "ComplexType"
  | .element => "Element"
  | .elementRef => "ElementRef"

end PayloadSchema.Schema
