import PayloadSchema.Proofs.Schema.InnerConstructs

/-!
# Roles

A shape does not say which kinds its inner constructs have, but what a document can hold does.  Each inner
construct plays a role, and a tree is well-formed when every role in it is played by a construct of a kind
that the role admits.
-/

namespace PayloadSchema.Schema

inductive Role where
  /-- The type of an element. -/
  | elementType
  /-- The type of an attribute, or a simple type that another one is made of. -/
  | simpleType
  | facet
  /-- What a simple type is made of. -/
  | simpleVariety
  | attribute
  | anyAttribute
  /-- The content model of a complex type. -/
  | model
  | simpleDerivation
  | complexDerivation
  | particle
  | item
  /-- The content of a named group. -/
  | groupContent
deriving DecidableEq, Repr

def Role.admits : Role → Kind → Bool
  | .elementType, .simpleType | .elementType, .complexType => true
  | .simpleType, .simpleType => true
  | .facet, .facet => true
  | .simpleVariety, .simpleTypeRestriction | .simpleVariety, .simpleTypeList
  | .simpleVariety, .simpleTypeUnion => true
  | .attribute, .attribute | .attribute, .attributeRef | .attribute, .attributeGroupRef => true
  | .anyAttribute, .anyAttribute => true
  | .model, .simpleContent | .model, .complexContent => true
  | .simpleDerivation, .simpleContentExtension | .simpleDerivation, .simpleContentRestriction => true
  | .complexDerivation, .complexContentExtension
  | .complexDerivation, .complexContentRestriction => true
  | .particle, .sequence | .particle, .choice | .particle, .all | .particle, .groupRef => true
  | .item, .element | .item, .elementRef | .item, .sequence | .item, .choice | .item, .all
  | .item, .groupRef | .item, .wildcard => true
  | .groupContent, .sequence | .groupContent, .choice | .groupContent, .all => true
  | _, _ => false

variable {α β : Type}

namespace Shape

/-- The inner constructs with the roles that they play. -/
def parts : Shape α → List (Role × α)
  | simpleRestriction _ baseType facets =>
    baseType.toList.map (.simpleType, ·) ++ facets.map (.facet, ·)
  | simpleList _ itemType => itemType.toList.map (.simpleType, ·)
  | simpleUnion _ memberTypes => memberTypes.map (.simpleType, ·)
  | simpleType _ content => content.toList.map (.simpleVariety, ·)
  | .attribute _ _ type => type.toList.map (.simpleType, ·)
  | attributeGroup _ attributes any =>
    attributes.map (.attribute, ·) ++ any.toList.map (.anyAttribute, ·)
  | modelGroup _ _ items => items.map (.item, ·)
  | group _ particle => particle.toList.map (.groupContent, ·)
  | simpleContentExtension _ attributes any =>
    attributes.map (.attribute, ·) ++ any.toList.map (.anyAttribute, ·)
  | simpleContentRestriction _ baseType facets attributes any =>
    baseType.toList.map (.simpleType, ·) ++ facets.map (.facet, ·) ++
      attributes.map (.attribute, ·) ++ any.toList.map (.anyAttribute, ·)
  | complexDerivation _ _ particle attributes any =>
    particle.toList.map (.particle, ·) ++ attributes.map (.attribute, ·) ++
      any.toList.map (.anyAttribute, ·)
  | simpleContent content => content.toList.map (.simpleDerivation, ·)
  | complexContent _ content => content.toList.map (.complexDerivation, ·)
  | complexType _ _ attributes any model particle =>
    model.toList.map (.model, ·) ++ particle.toList.map (.particle, ·) ++
      attributes.map (.attribute, ·) ++ any.toList.map (.anyAttribute, ·)
  | element _ _ type => type.toList.map (.elementType, ·)
  | schemaNode | facet _ | anyAttribute _ | wildcard .. | attributeRef .. | attributeGroupRef _
  | groupRef .. | elementRef .. => []

theorem children_eq_parts (s : Shape α) : s.children = s.parts.map (·.2) := by
  cases s <;> simp [children, parts, Function.comp_def]

theorem mem_children_of_mem_parts {s : Shape α} {part : Role × α} (h : part ∈ s.parts) :
    part.2 ∈ s.children := by
  rw [children_eq_parts]
  exact List.mem_map_of_mem h

@[simp] theorem parts_map (f : α → β) (s : Shape α) :
    (s.map f).parts = s.parts.map fun part => (part.1, f part.2) := by
  have htoList (o : Option α) : (o.map f).toList = o.toList.map f := by
    cases o <;> rfl
  cases s <;> simp [map, parts, htoList, Function.comp_def]

@[simp] theorem parts_withComponent (c : Component) (s : Shape α) :
    (s.withComponent c).parts = s.parts := by
  cases s <;> rfl

theorem exists_of_kind_attributeGroupRef {s : Shape α} (h : s.kind = .attributeGroupRef) :
    ∃ ref, s = .attributeGroupRef ref := by
  cases s with
  | attributeGroupRef ref => exact ⟨ref, rfl⟩
  | modelGroup order _ _ => cases order <;> cases h
  | complexDerivation how _ _ _ _ => cases how <;> cases h
  | _ => cases h

theorem exists_of_kind_element {s : Shape α} (h : s.kind = .element) : ∃ c d type, s = .element c d type := by
  cases s with
  | element c d type => exact ⟨c, d, type, rfl⟩
  | modelGroup order _ _ => cases order <;> cases h
  | complexDerivation how _ _ _ _ => cases how <;> cases h
  | _ => cases h

theorem exists_of_kind_attribute {s : Shape α} (h : s.kind = .attribute) : ∃ c d type, s = .attribute c d type := by
  cases s with
  | «attribute» c d type => exact ⟨c, d, type, rfl⟩
  | modelGroup order _ _ => cases order <;> cases h
  | complexDerivation how _ _ _ _ => cases how <;> cases h
  | _ => cases h

/-- A construct that refers to no component, in a role that it can play. -/
inductive Suits : Role → Shape α → Prop where
  | ownSimpleType (c content) : Suits .elementType (.simpleType c content)
  | complexType (c d attributes any model particle) :
    Suits .elementType (.complexType c d attributes any model particle)
  | simpleType (c content) : Suits .simpleType (.simpleType c content)
  | facet (f) : Suits .facet (.facet f)
  | simpleRestriction (base own facets) : Suits .simpleVariety (.simpleRestriction base own facets)
  | simpleList (item own) : Suits .simpleVariety (.simpleList item own)
  | simpleUnion (members types) : Suits .simpleVariety (.simpleUnion members types)
  | attribute (c d type) : Suits .attribute (.attribute c d type)
  | anyAttribute (w) : Suits .anyAttribute (.anyAttribute w)
  | simpleContent (content) : Suits .model (.simpleContent content)
  | complexContent (mixed content) : Suits .model (.complexContent mixed content)
  | simpleContentExtension (base attributes any) :
    Suits .simpleDerivation (.simpleContentExtension base attributes any)
  | simpleContentRestriction (base own facets attributes any) :
    Suits .simpleDerivation (.simpleContentRestriction base own facets attributes any)
  | complexDerivation (how base own attributes any) :
    Suits .complexDerivation (.complexDerivation how base own attributes any)
  | particle (order bounds items) (h : order ≠ .unspecified) : Suits .particle (.modelGroup order bounds items)
  | item (order bounds items) (h : order ≠ .unspecified) : Suits .item (.modelGroup order bounds items)
  | groupContent (order bounds items) (h : order ≠ .unspecified) :
    Suits .groupContent (.modelGroup order bounds items)
  | element (c d type) : Suits .item (.element c d type)
  | wildcard (w bounds) : Suits .item (.wildcard w bounds)

theorem suits_of_admits {role : Role} {s : Shape α} (h : role.admits s.kind) (hreference : s.isReference = false) :
    s.Suits role := by
  cases s with
  | modelGroup order _ _ =>
    cases order <;> cases role <;>
      first
        | exact .particle _ _ _ (by decide)
        | exact .item _ _ _ (by decide)
        | exact .groupContent _ _ _ (by decide)
        | cases h
  | complexDerivation how _ _ _ _ => cases how <;> cases role <;> first | constructor | cases h
  | _ => cases role <;> first | constructor | (cases hreference; done) | cases h

end Shape

/-! ## Well-formed trees -/

/-- A tree all of whose shapes have a property, and in which every role is played by a construct that the
role admits.  No inner construct is a component at the top of a schema. -/
inductive Node.Built (good : Shape Node → Prop) : Node → Prop where
  | intro (n : Node) (here : good n.shape)
      (fits : ∀ part ∈ n.shape.parts,
        part.1.admits part.2.shape.kind ∧ part.2.shape.isTopLevel = false)
      (inner : ∀ part ∈ n.shape.parts, Built good part.2) :
      Built good n

/-- A well-formed tree that can play a role. -/
structure Fits (good : Shape Node → Prop) (role : Role) (n : Node) : Prop where
  admits : role.admits n.shape.kind
  inner : n.shape.isTopLevel = false
  built : n.Built good

section Built

variable {good : Shape Node → Prop} {n : Node} {s : Shape Node} {role : Role}

theorem built_iff : Node.Built good ⟨s⟩ ↔ good s ∧ ∀ part ∈ s.parts, Fits good part.1 part.2 := by
  constructor
  · intro h
    cases h with
    | intro _ here fits inner =>
      exact ⟨here, fun part hpart => ⟨(fits part hpart).1, (fits part hpart).2, inner part hpart⟩⟩
  · rintro ⟨here, hparts⟩
    exact .intro _ here (fun part hpart => ⟨(hparts part hpart).admits, (hparts part hpart).inner⟩)
      fun part hpart => (hparts part hpart).built

theorem Node.Built.here (h : n.Built good) : good n.shape := by
  cases h with
  | intro _ here _ _ => exact here

theorem Node.Built.part (h : n.Built good) {part : Role × Node} (hpart : part ∈ n.shape.parts) :
    Fits good part.1 part.2 := by
  obtain ⟨s⟩ := n
  exact (built_iff.1 h).2 part hpart

theorem Node.Built.child (h : n.Built good) {m : Node} (hm : m ∈ n.children) : m.Built good := by
  rw [Node.children, Shape.children_eq_parts] at hm
  obtain ⟨part, hpart, rfl⟩ := List.mem_map.1 hm
  exact (h.part hpart).built

theorem Fits.suits (h : Fits good role n) (hreference : n.shape.isReference = false) : n.shape.Suits role :=
  Shape.suits_of_admits h.admits hreference

/-- What holds of a construct in a role, when it holds of its parts in theirs, holds of every well-formed tree. -/
theorem Fits.induction {motive : Role → Node → Prop}
    (step : ∀ role s, Fits good role ⟨s⟩ → (∀ r m, (r, m) ∈ s.parts → motive r m) → motive role ⟨s⟩)
    (h : Fits good role n) : motive role n := by
  induction n using Node.induction generalizing role with
  | _ n ih =>
    obtain ⟨s⟩ := n
    refine step role s h fun r m hm => ?_
    exact ih m (Shape.mem_children_of_mem_parts hm) (h.built.part hm)

/-- A well-formed tree, whatever its shapes say. -/
abbrev Node.Proper (n : Node) : Prop := n.Built fun _ => True

abbrev Node.Plays (n : Node) (role : Role) : Prop := Fits (fun _ => True) role n

end Built

end PayloadSchema.Schema

namespace PayloadSchema

open Schema

def Schema.TableName.admits : TableName → Kind → Bool
  | .elements, .element => true
  | .attributes, .attribute => true
  | .types, .simpleType | .types, .complexType => true
  | .groups, .group => true
  | .attributeGroups, .attributeGroup => true
  | _, _ => false

/-- An entry of a table that is a well-formed component at the top of a schema, under its own name. -/
structure Schema.ProperEntry (table : TableName) (name : Option String) (n : Node) : Prop where
  admits : table.admits n.shape.kind
  component : n.shape.component? = some ⟨name, true⟩
  proper : n.Proper

theorem Schema.ProperEntry.element {name : Option String} {n : Node}
    (h : ProperEntry .elements name n) : ∃ c d own, n = ⟨.element c d own⟩ := by
  have hadmits := h.admits
  obtain ⟨s⟩ := n
  cases s with
  | element c d own => exact ⟨c, d, own, rfl⟩
  | modelGroup order _ _ => cases order <;> cases hadmits
  | complexDerivation how _ _ _ _ => cases how <;> cases hadmits
  | _ => cases hadmits

theorem Schema.ProperEntry.attribute {name : Option String} {n : Node}
    (h : ProperEntry .attributes name n) : ∃ c d own, n = ⟨.attribute c d own⟩ := by
  have hadmits := h.admits
  obtain ⟨s⟩ := n
  cases s with
  | «attribute» c d own => exact ⟨c, d, own, rfl⟩
  | modelGroup order _ _ => cases order <;> cases hadmits
  | complexDerivation how _ _ _ _ => cases how <;> cases hadmits
  | _ => cases hadmits

theorem Schema.ProperEntry.group {name : Option String} {n : Node}
    (h : ProperEntry .groups name n) : ∃ c content, n = ⟨.group c content⟩ := by
  have hadmits := h.admits
  obtain ⟨s⟩ := n
  cases s with
  | group c content => exact ⟨c, content, rfl⟩
  | modelGroup order _ _ => cases order <;> cases hadmits
  | complexDerivation how _ _ _ _ => cases how <;> cases hadmits
  | _ => cases hadmits

theorem Schema.ProperEntry.attributeGroup {name : Option String} {n : Node}
    (h : ProperEntry .attributeGroups name n) :
    ∃ c members any, n = ⟨.attributeGroup c members any⟩ := by
  have hadmits := h.admits
  obtain ⟨s⟩ := n
  cases s with
  | attributeGroup c members any => exact ⟨c, members, any, rfl⟩
  | modelGroup order _ _ => cases order <;> cases hadmits
  | complexDerivation how _ _ _ _ => cases how <;> cases hadmits
  | _ => cases hadmits

structure Schema.Proper (s : Schema) : Prop where
  entry : ∀ table, ∀ e ∈ s.table table, ProperEntry table e.1 e.2
  keyed : ∀ table, ((s.table table).map (·.1)).Nodup

theorem SchemaOf.mem_of_find? {α : Type} {s : SchemaOf α} {table : TableName} {q : QName} {a : α}
    (h : s.find? table (some q) = some a) : q.space = s.space ∧ (some q.name, a) ∈ s.table table := by
  by_cases hspace : q.space = s.space
  · simp only [SchemaOf.find?, hspace, if_true] at h
    exact ⟨hspace, Table.mem_of_get? h⟩
  · simp [SchemaOf.find?, hspace] at h

theorem Schema.Proper.find {s : Schema} (h : s.Proper) {table : TableName} {q : QName} {n : Node}
    (hfind : s.find? table (some q) = some n) :
    q.space = s.space ∧ ProperEntry table (some q.name) n := by
  obtain ⟨hspace, hentry⟩ := SchemaOf.mem_of_find? hfind
  exact ⟨hspace, h.entry table _ hentry⟩

theorem Table.get?_of_mem {κ α : Type} [DecidableEq κ] {t : Table κ α} {k : κ} {a : α}
    (hkeys : (t.map (·.1)).Nodup) (h : (k, a) ∈ t) : t.get? k = some a := by
  induction t with
  | nil => cases h
  | cons e t ih =>
    rw [List.map_cons, List.nodup_cons] at hkeys
    rcases List.mem_cons.1 h with rfl | h
    · simp [Table.get?]
    · have hne : k ≠ e.1 := by
        rintro rfl
        exact hkeys.1 (List.mem_map.2 ⟨_, h, rfl⟩)
      have hrest := ih hkeys.2 h
      rw [Table.get?] at hrest ⊢
      rw [List.lookup_cons, beq_false_of_ne hne]
      exact hrest

/-- A component that stands in a table under a name is what the name refers to. -/
theorem Schema.Proper.find?_of_mem {s : Schema} (h : s.Proper) {table : TableName} {name : String}
    {n : Node} (hentry : (some name, n) ∈ s.table table) :
    s.find? table (some ⟨s.space, name⟩) = some n := by
  simp only [SchemaOf.find?, if_true]
  exact Table.get?_of_mem (h.keyed table) hentry

end PayloadSchema
