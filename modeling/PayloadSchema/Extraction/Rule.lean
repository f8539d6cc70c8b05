import PayloadSchema.Extraction.Attributes

/-!
# Rules of copying

For every kind of node there is one rule that says by which edits its copy is completed. The rules replace
references by what they refer to, named types by types of their own, groups by their content, members of a
substitution group by its head, and bases by what is inherited from them.
-/

namespace PayloadSchema.Extraction

open Schema

/-- What an extraction is given: the schema it copies from, the forms of local names in the schema it
copies to, and how many nodes it may copy. -/
structure Context where
  source : Schema
  elementForm : String
  attributeForm : String
  limit : Nat

def qualified : String := "qualified"

def anyType : QName := xsd "anyType"

/-! ## Types -/

/-- The edits that copy a type given by name or in place. The name counts where both are given, and built-in
types stay names. -/
def typeEdits (s : Schema) (simpleOnly : Bool) : Option QName → Option Node → List Edit
  | some q, _ =>
    if q.isBuiltin then [.change (.typeName (some q))]
    else
      match s.find? .types (some q) with
      | none => [.fail (.missingType q)]
      | some t =>
        if simpleOnly && t.shape.kind ≠ .simpleType then [.fail (.notSimpleType q)]
        else [.attach .type (.plain t)]
  | none, some own => [.attach .type (.plain own)]
  | none, none => [.change (.typeName none)]

def memberEdits (s : Schema) (q : QName) : List Edit :=
  if q.isBuiltin then [.change (.member q)]
  else
    match s.find? .types (some q) with
    | none => [.fail (.missingSimpleType q)]
    | some t =>
      match t.shape with
      | .simpleType .. => [.attach .memberType (.plain t)]
      | _ => [.fail (.missingSimpleType q)]

/-! ## Particles -/

/-- The child that a particle is copied as. A reference to a group stands for the particle of the group
with the bounds of the reference. -/
def particleChild (s : Schema) (key : Option ComponentKey) (n : Node) : Except Fault Child :=
  match n.shape with
  | .groupRef none _ => .error (.problem (.missingGroup none))
  | .groupRef (some q) bounds =>
    match s.find? .groups (some q) with
    | none => .error (.problem (.missingGroup (some q)))
    | some g =>
      match g.shape.particle? with
      | none => .error .wrongNode
      | some none => .error (.problem (.missingGroup (some q)))
      | some (some particle) => .ok ⟨particle, some ⟨.group, q⟩, some bounds⟩
  | .modelGroup .unspecified _ _ => .error (.problem (.unsupportedParticle n.shape.kind))
  | .modelGroup .. | .element .. | .elementRef .. | .wildcard .. => .ok ⟨n, key, none⟩
  | _ => .error (.problem (.unsupportedParticle n.shape.kind))

def particleChild? (s : Schema) (key : Option ComponentKey) : Option Node → Except Fault (Option Child)
  | none => .ok none
  | some n => (particleChild s key n).map some

theorem exists_of_particleChild? {s : Schema} {key : Option ComponentKey} {particle : Option Node}
    {child : Option Child} (h : particleChild? s key particle = .ok child) {a : Child} (ha : a ∈ child) :
    ∃ m ∈ particle, particleChild s key m = .ok a := by
  cases particle with
  | none =>
    cases h
    cases ha
  | some m =>
    rw [particleChild?] at h
    cases hchild : particleChild s key m with
    | error f =>
      rw [hchild] at h
      cases h
    | ok b =>
      rw [hchild] at h
      cases h
      cases ha
      exact ⟨m, rfl, hchild⟩

theorem exists_of_particleChild?_eq_error {s : Schema} {key : Option ComponentKey} {particle : Option Node}
    {f : Fault} (h : particleChild? s key particle = .error f) : ∃ m ∈ particle, particleChild s key m = .error f := by
  cases particle with
  | none => cases h
  | some m =>
    rw [particleChild?] at h
    cases hchild : particleChild s key m with
    | error g =>
      rw [hchild] at h
      cases h
      exact ⟨m, rfl, hchild⟩
    | ok b =>
      rw [hchild] at h
      cases h

def particleEdits (s : Schema) (use : Child → Edit) (particle : Option Node) : List Edit :=
  match particleChild? s none particle with
  | .error f => [.stop f]
  | .ok child => child.toList.map use

/-- The edits that copy an inherited particle and one of its own; where there are both, they follow each
other in a new sequence. -/
def mergedParticleEdits (s : Schema) (key : ComponentKey) (inherited own : Option Node) : List Edit :=
  match particleChild? s (some key) inherited with
  | .error f => [.stop f]
  | .ok first =>
    match first, particleChild? s none own with
    | _, .error f => first.toList.map Edit.discard ++ [.stop f]
    | some a, .ok (some b) => [.attachSequence a b]
    | some a, .ok none => [.attach .particle a]
    | none, .ok second => second.toList.map (.attach .particle)

/-! ## Derivations of complex content -/

structure Inherited where
  particle : Option Node
  attributes : List Node
  any : Option Node
  /-- The base of the base, when what it would give is dropped. -/
  dropped : Option (Option QName)

/-- What a complex type gives to its extensions: its own particle and attributes, and those of its
derivation, but not what that inherits in turn. -/
def inherited (outer : List Node) (any : Option Node) (model particle : Option Node) :
    Except Fault Inherited :=
  match model with
  | none => .ok ⟨particle, outer, any, none⟩
  | some m =>
    match m.shape.content? with
    | none => .error .wrongNode
    | some none => .ok ⟨particle, outer, any, none⟩
    | some (some content) =>
      let shape := content.shape
      match particle.map some <|> shape.particle?, shape.attributes?, shape.base? with
      | some particle, some inner, some base =>
        let builtin := base.any QName.isBuiltin
        .ok ⟨particle, outer ++ inner, any, if builtin then none else some base⟩
      | _, _, _ => .error .wrongNode

def mergeEdits (s : Schema) (base : QName) (given : Inherited) (particle : Option Node)
    (attributes : List Node) (hasAny : Bool) : List Edit :=
  let key : ComponentKey := ⟨.type, base⟩
  let warning : List Edit := given.dropped.toList.map fun b =>
    .warn ("Only one level of inheritance is merged for " ++ base.toText ++ ", content inherited from " ++
      QName.optionText b ++ " is dropped")
  let members := attributeListEdits s hasAny [(some key, given.attributes), (none, attributes)]
  let wild := if hasAny || givesWildcard members then [] else wildcardEdits given.any
  warning ++ .change (.base (some anyType)) :: members ++ wild ++
    mergedParticleEdits s key given.particle particle

def extensionEdits (s : Schema) (base : Option QName) (particle : Option Node)
    (attributes : List Node) (hasAny : Bool) : List Edit :=
  match base with
  | none =>
    .change (.base (some anyType)) :: attributeEdits s true none [] hasAny attributes ++
      particleEdits s (.attach .particle) particle
  | some q =>
    if q.isBuiltin then
      .change (.base (some q)) :: attributeEdits s true none [] hasAny attributes ++
        particleEdits s (.attach .particle) particle
    else
      match s.find? .types (some q) with
      | none => [.fail (.missingType q)]
      | some t =>
        match t.shape with
        | .complexType _ _ _ _ (some ⟨.simpleContent _⟩) _ => [.fail (.unsupportedBase q)]
        | .complexType _ _ outer any model own =>
          match inherited outer any model own with
          | .error f => [.stop f]
          | .ok given => mergeEdits s q given particle attributes hasAny
        | _ => [.fail (.unsupportedBase q)]

def restrictionEdits (s : Schema) (base : Option QName) (particle : Option Node)
    (attributes : List Node) (hasAny : Bool) : List Edit :=
  let base := if base.any QName.isBuiltin then base else some anyType
  attributeEdits s true none [] hasAny attributes ++ particleEdits s (.attach .particle) particle ++
    [.change (.base base)]

/-! ## Derivations of simple content -/

def rootEdits (c : BaseChain) : List Edit :=
  match c.root with
  | .error f => [.stop f]
  | .ok base => [.change (.base base)]

/-- The edits that copy an extension of simple content: the attributes of its bases come first. -/
def simpleExtensionEdits (s : Schema) (base : Option QName) (attributes : List Node) (hasAny : Bool) :
    List Edit :=
  let chain := baseChain s true [] base
  let early := attributeListEdits s hasAny (chain.inherited.map fun e => (some ⟨.type, e.1⟩, e.2))
  early ++ rootEdits chain ++
    attributeEdits s true none [] (hasAny || givesWildcard early) attributes

def simpleRestrictionEdits (s : Schema) (base : Option QName) (baseType : Option Node)
    (attributes : List Node) (hasAny : Bool) : List Edit :=
  attributeEdits s true none [] hasAny attributes ++
    baseType.toList.map (fun t => .attach .type (.plain t)) ++ rootEdits (baseChain s false [] base)

/-! ## Declarations -/

/-- The edits that copy a component into the place of a declaration. An element takes from an element, and
an attribute from an attribute. -/
def followEdits (target : Kind) (n : Node) : List Edit :=
  match n.shape with
  | .element _ d _ =>
    if target = .element then [.change (.element d), .follow n] else [.stop .wrongNode]
  | .attribute _ d _ =>
    if target = .attribute then [.change (.attribute d.usage), .follow n] else [.stop .wrongNode]
  | .complexType _ _ _ any _ _ =>
    match outlineAny any with
    | .ok _ => [.follow n]
    | .error f => [.stop f]
  | _ => [.follow n]

/-- The edits that copy the component that a reference refers to. A component at the top of a schema is
always in the target namespace, so its form is stated where it is not the default. -/
def referenceEdits (s : Schema) (table : TableName) (target : Kind) (formDefault : String)
    (ref : Option QName) : List Edit :=
  match s.find? table ref with
  | none => [.fail (.missingRefTarget ref)]
  | some n =>
    let name := (n.shape.component?.bind (·.name))
    let form := if formDefault = qualified then [] else [.change (.form qualified)]
    .change (.name name) :: form ++ followEdits target n

/-- The edits that copy the declaration of an element. A member of a substitution group is replaced by the
head of the group. -/
def elementEdits (s : Schema) (target : Kind) (d : ElementDecl) (own : Option Node) : List Edit :=
  match d.substitutionGroup with
  | none => typeEdits s false d.typeName own
  | some q =>
    match s.find? .elements (some q) with
    | none => [.fail (.missingSubstitutionHead q)]
    | some head => followEdits target head

def contentEdits (kind : Kind) : Option Node → List Edit
  | none => [.fail (.emptyContentModel kind)]
  | some content => [.attach .content (.plain content)]

/-- The edits that copy a complex type. In the place of a declaration it finds no place for its parts. -/
def complexTypeEdits (s : Schema) (accepts : Bool) (attributes : List Node)
    (any model particle : Option Node) : List Edit :=
  let put (slot : Slot) (child : Child) : Edit := if accepts then .attach slot child else .discard child
  attributeEdits s accepts none [] any.isSome attributes ++
    model.toList.map (fun m => put .model (.plain m)) ++ particleEdits s (put .particle) particle

/-- The edits that complete the copy of a node at a place that holds a construct of kind `target`. -/
def edits (c : Context) (target : Kind) (n : Node) : List Edit :=
  let s := c.source
  match n.shape with
  | .elementRef ref _ => referenceEdits s .elements target c.elementForm ref
  | .attributeRef ref _ => referenceEdits s .attributes target c.attributeForm ref
  | .element _ d own => elementEdits s target d own
  | .attribute _ d own => typeEdits s true d.typeName own
  | .simpleType _ content =>
    content.toList.map fun n =>
      if target = .simpleType then .attach .content (.plain n) else .discard (.plain n)
  | .simpleRestriction base own _ => typeEdits s true base own
  | .simpleList item own => typeEdits s true item own
  | .simpleUnion members types =>
    types.map (fun t => .attach .memberType (.plain t)) ++ members.flatMap (memberEdits s)
  | .complexType _ _ attributes any model particle =>
    complexTypeEdits s (target = .complexType) attributes any model particle
  | .simpleContent content | .complexContent _ content => contentEdits n.shape.kind content
  | .simpleContentExtension base attributes any => simpleExtensionEdits s base attributes any.isSome
  | .simpleContentRestriction base own _ attributes any =>
    simpleRestrictionEdits s base own attributes any.isSome
  | .complexDerivation .extension base particle attributes any =>
    extensionEdits s base particle attributes any.isSome
  | .complexDerivation .restriction base particle attributes any =>
    restrictionEdits s base particle attributes any.isSome
  | .modelGroup .unspecified _ _ => [.fail (.uncopiedKind n.shape.kind)]
  | .modelGroup _ _ items =>
    items.flatMap fun i => particleEdits s (.attach .item) (some i)
  | .wildcard .. => []
  | .schemaNode | .facet _ | .anyAttribute _ | .attributeGroupRef _ | .attributeGroup .. | .groupRef ..
  | .group .. => [.fail (.uncopiedKind n.shape.kind)]

end PayloadSchema.Extraction
