import PayloadSchema.Proofs.Written.Elements

/-!
# What is read again is written again

Reading loses of what was written only what writing does not look at, so a tree that has been read again is written as
before.
-/

namespace PayloadSchema.Schema.Writer

variable {ok : Char → Prop} {label : String}

def Repeats (label : String) : Role → Node → Prop
  | .elementType, n => elementType label (some n.asRead) = elementType label (some n)
  | .simpleType, n => simpleType label n.asRead = simpleType label n
  | .facet, n => n.asRead.shape.facet? = n.shape.facet?
  | .simpleVariety, n => simpleTypeContent label (some n.asRead) = simpleTypeContent label (some n)
  | .attribute, n => n.shape.kind = .attribute ∧ n.asRead.shape.kind = .attribute ∧
      attributeDecl label n.asRead = attributeDecl label n
  | .anyAttribute, n => n.asRead.shape.wildcard? = n.shape.wildcard?
  | .model, n => ∀ own, typeContent label (some n.asRead) none = typeContent label (some n) own
  | .simpleDerivation, n => simpleDerivation label (some n.asRead) = simpleDerivation label (some n)
  | .complexDerivation, n => complexDerivation label (some n.asRead) = complexDerivation label (some n)
  | .particle, n | .item, n | .groupContent, n => particle label n.asRead = particle label n

/-! ## Parts -/

section Parts

variable {ns members : List Node} {own any model : Option Node} {role : Role}

theorem mapM_asRead {write : Node → Except Fault Xml.Tree} (h : ∀ n ∈ ns, write n.asRead = write n) :
    (ns.map Node.asRead).mapM write = ns.mapM write := by
  induction ns with
  | nil => rfl
  | cons n ns ih =>
    rw [List.map_cons, List.mapM_cons, List.mapM_cons, h n List.mem_cons_self,
      ih fun m hm => h m (List.mem_cons_of_mem n hm)]

theorem facets_asRead (h : ∀ m ∈ ns, Repeats label .facet m) :
    facets label (ns.map Node.asRead) = facets label ns :=
  mapM_asRead fun m hm => by rw [show m.asRead.shape.facet? = m.shape.facet? from h m hm]

theorem attributes_asRead (hmembers : ∀ m ∈ members, Repeats label .attribute m)
    (hany : ∀ m ∈ any, Repeats label .anyAttribute m) :
    attributes label (members.map Node.asRead) (any.map Node.asRead) = attributes label members any := by
  have hwildcard : anyAttribute label (any.map Node.asRead) = anyAttribute label any := by
    cases any with
    | none => rfl
    | some m => rw [Option.map_some, anyAttribute, anyAttribute, show _ = m.shape.wildcard? from hany m rfl]
  rw [attributes, attributes, hwildcard, mapM_asRead fun m hm => ?_]
  obtain ⟨hkind, hkind', hdecl⟩ := hmembers m hm
  obtain ⟨c, d, type, hs⟩ := Shape.exists_of_kind_attribute hkind
  obtain ⟨c', d', type', hs'⟩ := Shape.exists_of_kind_attribute hkind'
  rw [hs, hs']
  exact hdecl

theorem ownSimpleType_asRead (h : ∀ m ∈ own, Repeats label .simpleType m) :
    ownSimpleType label (own.map Node.asRead) = ownSimpleType label own := by
  cases own with
  | none => rfl
  | some m => rw [Option.map_some, ownSimpleType, ownSimpleType, show _ = simpleType label m from h m rfl]

theorem simpleTypes_asRead (h : ∀ m ∈ ns, Repeats label .simpleType m) :
    simpleTypes label (ns.map Node.asRead) = simpleTypes label ns := by
  induction ns with
  | nil => rfl
  | cons n ns ih =>
    rw [List.map_cons, simpleTypes, simpleTypes, show _ = simpleType label n from h n List.mem_cons_self,
      ih fun m hm => h m (List.mem_cons_of_mem n hm)]

theorem ownParticle_asRead (h : ∀ m ∈ own, Repeats label .particle m) :
    ownParticle label (own.map Node.asRead) = ownParticle label own := by
  cases own with
  | none => rfl
  | some m => rw [Option.map_some, ownParticle, ownParticle, show _ = particle label m from h m rfl]

theorem particles_asRead (h : ∀ m ∈ ns, Repeats label .item m) :
    particles label (ns.map Node.asRead) = particles label ns := by
  induction ns with
  | nil => rfl
  | cons n ns ih =>
    rw [List.map_cons, particles, particles, show _ = particle label n from h n List.mem_cons_self,
      ih fun m hm => h m (List.mem_cons_of_mem n hm)]

theorem option_asRead {write : Option Node → Except Fault (List Xml.Tree)}
    (h : ∀ m ∈ own, write (some m.asRead) = write (some m)) : write (own.map Node.asRead) = write own := by
  cases own with
  | none => rfl
  | some m => exact h m rfl

theorem typeContent_asRead (hmodel : ∀ m ∈ model, Repeats label .model m)
    (hown : ∀ m ∈ own, Repeats label .particle m) :
    typeContent label (model.map Node.asRead) (if model.isSome then none else own.map Node.asRead) =
      typeContent label model own := by
  cases model with
  | none => exact ownParticle_asRead hown
  | some m => exact hmodel m rfl own

end Parts

/-! ## Constructs by their roles -/

section Roles

variable {s : Shape Node} {n : Node} {ns members : List Node} {any model own : Option Node}

theorem asRead_complexType (c : Component) (d : ComplexDecl) (members : List Node) (any model own : Option Node) :
    Node.asRead ⟨.complexType c d members any model own⟩ =
      ⟨.complexType c d (members.map Node.asRead) (any.map Node.asRead) (model.map Node.asRead)
        (if model.isSome then none else own.map Node.asRead)⟩ := by
  rw [Node.asRead_eq]
  cases model <;> rfl

theorem elementDecl_repeats {c : Component} {d : ElementDecl} {type : Option Node}
    (htype : ∀ m ∈ type, Repeats label .elementType m) :
    elementDecl label (Node.asRead ⟨.element c d type⟩) = elementDecl label ⟨.element c d type⟩ := by
  have hwritten : elementType label (type.map Node.asRead) = elementType label type := option_asRead htype
  rw [Node.asRead_eq]
  simp only [Node.shape, Shape.map, Shape.asRead, elementDecl, hwritten, Option.getD_some]

theorem simpleType_repeats {c : Component} {content : Option Node}
    (hcontent : ∀ m ∈ content, Repeats label .simpleVariety m) :
    simpleType label (Node.asRead ⟨.simpleType c content⟩) = simpleType label ⟨.simpleType c content⟩ := by
  have hwritten : simpleTypeContent label (content.map Node.asRead) = simpleTypeContent label content :=
    option_asRead hcontent
  rw [Node.asRead_eq]
  simp only [Node.shape, Shape.map, Shape.asRead, simpleType, hwritten]

theorem ownSimpleType_repeats {c : Component} {content : Option Node}
    (hcontent : ∀ m ∈ content, Repeats label .simpleVariety m) :
    Repeats label .elementType ⟨.simpleType c content⟩ := by
  have htype := simpleType_repeats (c := c) hcontent
  rw [Repeats]
  rw [Node.asRead_eq] at htype ⊢
  simp only [Node.shape, Shape.map, Shape.asRead] at htype ⊢
  rw [elementType, elementType, htype]

theorem complexType_repeats {c : Component} {d : ComplexDecl} (hmembers : ∀ m ∈ members, Repeats label .attribute m)
    (hany : ∀ m ∈ any, Repeats label .anyAttribute m) (hmodel : ∀ m ∈ model, Repeats label .model m)
    (hown : ∀ m ∈ own, Repeats label .particle m) :
    Repeats label .elementType ⟨.complexType c d members any model own⟩ := by
  rw [Repeats, asRead_complexType, elementType_complexType, elementType_complexType, typeContent_asRead hmodel hown,
    attributes_asRead hmembers hany]

theorem simpleRestriction_repeats {base : Option QName} (hown : ∀ m ∈ own, Repeats label .simpleType m)
    (hfacets : ∀ m ∈ ns, Repeats label .facet m) :
    Repeats label .simpleVariety ⟨.simpleRestriction base own ns⟩ := by
  rw [Repeats, Node.asRead_eq]
  simp only [Node.shape, Shape.map, Shape.asRead, simpleTypeContent, ownSimpleType_asRead hown, facets_asRead hfacets]

theorem simpleList_repeats {item : Option QName} (hown : ∀ m ∈ own, Repeats label .simpleType m) :
    Repeats label .simpleVariety ⟨.simpleList item own⟩ := by
  rw [Repeats, Node.asRead_eq]
  simp only [Node.shape, Shape.map, Shape.asRead, simpleTypeContent, ownSimpleType_asRead hown]

theorem simpleUnion_repeats {names : List QName} (htypes : ∀ m ∈ ns, Repeats label .simpleType m) :
    Repeats label .simpleVariety ⟨.simpleUnion names ns⟩ := by
  rw [Repeats, Node.asRead_eq]
  simp only [Node.shape, Shape.map, Shape.asRead, simpleTypeContent, simpleTypes_asRead htypes]

theorem attribute_repeats {c : Component} {d : AttributeDecl} (hown : ∀ m ∈ own, Repeats label .simpleType m) :
    Repeats label .attribute ⟨.attribute c d own⟩ := by
  refine ⟨rfl, by rw [Node.asRead_eq]; rfl, ?_⟩
  rw [Node.asRead_eq]
  simp only [Node.shape, Shape.map, Shape.asRead, attributeDecl, ownSimpleType_asRead hown, Option.getD_some]

theorem simpleContent_repeats (hcontent : ∀ m ∈ own, Repeats label .simpleDerivation m) :
    Repeats label .model ⟨.simpleContent own⟩ := by
  have hwritten : simpleDerivation label (own.map Node.asRead) = simpleDerivation label own := option_asRead hcontent
  intro particle
  rw [Node.asRead_eq]
  simp only [Node.shape, Shape.map, Shape.asRead, typeContent, simpleContent_eq, hwritten]

theorem complexContent_repeats {mixed : Option Bool} (hcontent : ∀ m ∈ own, Repeats label .complexDerivation m) :
    Repeats label .model ⟨.complexContent mixed own⟩ := by
  have hwritten : complexDerivation label (own.map Node.asRead) = complexDerivation label own := option_asRead hcontent
  intro particle
  rw [Node.asRead_eq]
  simp only [Node.shape, Shape.map, Shape.asRead, typeContent, hwritten]

theorem simpleContentExtension_repeats {base : Option QName} (hmembers : ∀ m ∈ members, Repeats label .attribute m)
    (hany : ∀ m ∈ any, Repeats label .anyAttribute m) :
    Repeats label .simpleDerivation ⟨.simpleContentExtension base members any⟩ := by
  rw [Repeats, Node.asRead_eq]
  simp only [Node.shape, Shape.map, Shape.asRead, simpleDerivation, Option.map_some, attributes_asRead hmembers hany]

theorem simpleContentRestriction_repeats {base : Option QName} (hown : ∀ m ∈ own, Repeats label .simpleType m)
    (hfacets : ∀ m ∈ ns, Repeats label .facet m) (hmembers : ∀ m ∈ members, Repeats label .attribute m)
    (hany : ∀ m ∈ any, Repeats label .anyAttribute m) :
    Repeats label .simpleDerivation ⟨.simpleContentRestriction base own ns members any⟩ := by
  rw [Repeats, Node.asRead_eq]
  simp only [Node.shape, Shape.map, Shape.asRead, simpleDerivation, Option.map_some, attributes_asRead hmembers hany,
    ownSimpleType_asRead hown, facets_asRead hfacets]

theorem complexDerivation_repeats {how : Derivation} {base : Option QName}
    (hown : ∀ m ∈ own, Repeats label .particle m) (hmembers : ∀ m ∈ members, Repeats label .attribute m)
    (hany : ∀ m ∈ any, Repeats label .anyAttribute m) :
    Repeats label .complexDerivation ⟨.complexDerivation how base own members any⟩ := by
  rw [Repeats, Node.asRead_eq]
  simp only [Node.shape, Shape.map, Shape.asRead, complexDerivation, attributes_asRead hmembers hany,
    ownParticle_asRead hown]

theorem element_repeats {c : Component} {d : ElementDecl} (htype : ∀ m ∈ own, Repeats label .elementType m) :
    Repeats label .item ⟨.element c d own⟩ := by
  have hdecl := elementDecl_repeats (c := c) (d := d) htype
  rw [Repeats]
  rw [Node.asRead_eq] at hdecl ⊢
  simp only [Node.shape, Shape.map, Shape.asRead] at hdecl ⊢
  rw [particle, particle, hdecl]

theorem modelGroup_repeats {order : Order} {bounds : Occurs} (hitems : ∀ m ∈ ns, Repeats label .item m) :
    particle label (Node.asRead ⟨.modelGroup order bounds ns⟩) = particle label ⟨.modelGroup order bounds ns⟩ := by
  rw [Node.asRead_eq]
  simp only [Node.shape, Shape.map, Shape.asRead, particle, particles_asRead hitems]
  cases order <;> rfl

/-- A construct is written the same in its role after it has been read, if its parts are in theirs. -/
theorem repeats_step {role : Role} (hsuits : s.Suits role) (hparts : ∀ r m, (r, m) ∈ s.parts → Repeats label r m) :
    Repeats label role ⟨s⟩ := by
  have hall {r : Role} {ns : List Node} (h : ∀ m ∈ ns, (r, m) ∈ s.parts) : ∀ m ∈ ns, Repeats label r m :=
    fun m hm => hparts r m (h m hm)
  have hone {r : Role} {own : Option Node} (h : ∀ m ∈ own, (r, m) ∈ s.parts) : ∀ m ∈ own, Repeats label r m :=
    fun m hm => hparts r m (h m hm)
  cases hsuits with
  | ownSimpleType => exact ownSimpleType_repeats (hone (by simp [Shape.parts]))
  | complexType =>
    exact complexType_repeats (hall (by simp [Shape.parts])) (hone (by simp [Shape.parts]))
      (hone (by simp [Shape.parts])) (hone (by simp [Shape.parts]))
  | simpleType => exact simpleType_repeats (hone (by simp [Shape.parts]))
  | facet | anyAttribute | wildcard =>
    rw [Repeats, Node.asRead_eq]
    rfl
  | simpleRestriction => exact simpleRestriction_repeats (hone (by simp [Shape.parts])) (hall (by simp [Shape.parts]))
  | simpleList => exact simpleList_repeats (hone (by simp [Shape.parts]))
  | simpleUnion => exact simpleUnion_repeats (hall (by simp [Shape.parts]))
  | «attribute» => exact attribute_repeats (hone (by simp [Shape.parts]))
  | simpleContent => exact simpleContent_repeats (hone (by simp [Shape.parts]))
  | complexContent => exact complexContent_repeats (hone (by simp [Shape.parts]))
  | simpleContentExtension =>
    exact simpleContentExtension_repeats (hall (by simp [Shape.parts])) (hone (by simp [Shape.parts]))
  | simpleContentRestriction =>
    exact simpleContentRestriction_repeats (hone (by simp [Shape.parts])) (hall (by simp [Shape.parts]))
      (hall (by simp [Shape.parts])) (hone (by simp [Shape.parts]))
  | complexDerivation =>
    exact complexDerivation_repeats (hone (by simp [Shape.parts])) (hall (by simp [Shape.parts]))
      (hone (by simp [Shape.parts]))
  | particle | item | groupContent => exact modelGroup_repeats (hall (by simp [Shape.parts]))
  | element c d type => exact element_repeats (hone (by simp [Shape.parts]))

/-- A settled tree is written the same in every role that it can play after it has been read. -/
theorem repeats {role : Role} (h : Ready ok role n) : Repeats label role n :=
  h.induction fun _ _ hready hparts => repeats_step (hready.suits hready.built.here.reference) hparts

theorem elementDecl_asRead (hkind : n.shape.kind = .element) (h : n.Built (Shape.Settled ok)) :
    elementDecl label n.asRead = elementDecl label n := by
  obtain ⟨s⟩ := n
  obtain ⟨c, d, type, rfl⟩ := Shape.exists_of_kind_element hkind
  refine elementDecl_repeats fun m hm => ?_
  have hready : Ready ok .elementType m := (built_iff.1 h).2 (.elementType, m) (by simpa [Shape.parts] using hm)
  exact repeats hready

end Roles

end PayloadSchema.Schema.Writer
