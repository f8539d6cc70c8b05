import PayloadSchema.Proofs.Rules.LawfulAttributes

/-!
# Lawful rules

Every rule asks for lawful edits, and goes on with another node only where that is of the kind of the copy.
-/

namespace PayloadSchema.Extraction

open Schema

variable {s : Schema} {target : Kind} {n : Node}

/-- A part is copied into the slot for its role, if every construct that can play the role is copied as what it is. -/
theorem lawful_part (hn : n.Proper) {slot : Slot} {role : Role} {m : Node} (hslot : slot.role? target = some role)
    (hcopy : ∀ k, role.admits k → k.copy? = some k) (hpart : (role, m) ∈ n.shape.parts) :
    (Edit.attach slot (.plain m)).Lawful s target n := by
  have hadmits := (hn.part hpart).admits
  exact .attach hslot hadmits (apt_part hn hpart (hcopy _ hadmits))

/-! ## Simple content -/

section SimpleContent

variable {base : Option QName} {own any : Option Node} {facets attributes : List Node} {hasAny : Bool}

theorem lawful_rootEdits {chain : BaseChain} (h : Sourced s n chain) :
    AllLawful s target n (rootEdits chain) := by
  unfold rootEdits
  split
  · rename_i f hf
    exact .single (.stop (h.error f hf))
  · rename_i root hroot
    exact .single (.change (h.root root hroot))

private theorem pursued_base (hbase : ∀ q ∈ base, q ∈ n.shape.typeNames) :
    Pursued s n [] base :=
  ⟨fun q hq _ _ ha => ha.typeName (hbase q hq), by simp⟩

theorem lawful_simpleExtensionEdits (hs : s.Proper) (hn : n.Proper)
    (hshape : n.shape = .simpleContentExtension base attributes any) :
    AllLawful s .simpleContentExtension n (simpleExtensionEdits s base attributes hasAny) := by
  have hstratum : n.shape.kind.stratum = 1 := by rw [hshape]; rfl
  have hchain : Sourced s n (baseChain s true [] base) :=
    sourced_baseChain hs (pursued_base (by simp [hshape, Shape.typeNames]))
  unfold simpleExtensionEdits
  refine (AllLawful.append ?_ (lawful_rootEdits hchain)).append ?_
  · refine lawful_attributeListEdits fun l hl hasAny => ?_
    obtain ⟨e, he, rfl⟩ := List.mem_map.1 hl
    obtain ⟨⟨t, hfind⟩, hreaches, hmembers⟩ := hchain.inherited e he
    have hfind' : s.find? (ComponentKey.component ⟨.type, e.1⟩).table
        (some (ComponentKey.component ⟨.type, e.1⟩).name) = some t := hfind
    exact lawful_keyedAttributes hs rfl hstratum hfind' hreaches hmembers
  · exact lawful_ownAttributes hs hn rfl hstratum (by simp [hshape, Shape.parts])

theorem lawful_simpleRestrictionEdits (hs : s.Proper) (hn : n.Proper)
    (hshape : n.shape = .simpleContentRestriction base own facets attributes any) :
    AllLawful s .simpleContentRestriction n (simpleRestrictionEdits s base own attributes hasAny) := by
  have hstratum : n.shape.kind.stratum = 1 := by rw [hshape]; rfl
  have hchain : Sourced s n (baseChain s false [] base) :=
    sourced_baseChain hs (pursued_base (by simp [hshape, Shape.typeNames]))
  unfold simpleRestrictionEdits
  refine (AllLawful.append ?_ ?_).append (lawful_rootEdits hchain)
  · exact lawful_ownAttributes hs hn rfl hstratum (by simp [hshape, Shape.parts])
  · cases own with
    | none => exact .nil
    | some t =>
      have hcopy : ∀ k, Role.simpleType.admits k → k.copy? = some k := fun _ => @copy?_of_typeRole true _
      exact .single (lawful_part hn rfl hcopy (by simp [hshape, Shape.parts]))

end SimpleContent

/-! ## Complex content -/

section ComplexContent

variable {base : Option QName} {particle own any : Option Node} {attributes : List Node}
  {hasAny : Bool} {q : QName}

/-- What an extension takes over from a base that it can reach. -/
structure Bequeathed (s : Schema) (q : QName) (given : Inherited) : Prop where
  particle : ∀ m ∈ given.particle, m.Plays .particle ∧ Covers s ⟨.types, q⟩ m
  attributes : ∀ m ∈ given.attributes, m.Plays .attribute ∧ Covers s ⟨.types, q⟩ m
  any : ∀ m ∈ given.any, m.Plays .anyAttribute

theorem derivation_parts {m : Node} (h : m.Plays .complexDerivation) :
    ∃ how base particle members any, m = ⟨.complexDerivation how base particle members any⟩ := by
  have hadmits := h.admits
  obtain ⟨shape⟩ := m
  cases shape with
  | complexDerivation how base particle members any => exact ⟨how, base, particle, members, any, rfl⟩
  | modelGroup order _ _ => cases order <;> cases hadmits
  | _ => cases hadmits

theorem model_cases {m : Node} (h : m.Plays .model) :
    (∃ content, m = ⟨.simpleContent content⟩) ∨ ∃ mixed content, m = ⟨.complexContent mixed content⟩ := by
  have hadmits := h.admits
  obtain ⟨shape⟩ := m
  cases shape with
  | simpleContent content => exact .inl ⟨content, rfl⟩
  | complexContent mixed content => exact .inr ⟨mixed, content, rfl⟩
  | modelGroup order _ _ => cases order <;> cases hadmits
  | complexDerivation how _ _ _ _ => cases how <;> cases hadmits
  | _ => cases hadmits

/-- A complex type without simple content gives what it holds to its extensions. -/
theorem bequeathed_inherited (hs : s.Proper) {c : Component} {d : ComplexDecl} {outer : List Node}
    {model : Option Node} {t : Node} (hfind : s.find? .types (some q) = some t)
    (hshape : t.shape = .complexType c d outer any model own)
    (hmodel : ∀ content, model ≠ some ⟨.simpleContent content⟩) :
    ∃ given, inherited outer any model own = .ok given ∧ Bequeathed s q given := by
  have hself : Covers s ⟨.types, q⟩ t := covers_self hfind
  have hproper := (hs.find hfind).2.proper
  have hplays {role : Role} {m : Node} (hm : (role, m) ∈ t.shape.parts) :
      m.Plays role ∧ Covers s ⟨.types, q⟩ m :=
    ⟨hproper.part hm, hself.part hm⟩
  have hown (m : Node) (hm : m ∈ own) : m.Plays .particle ∧ Covers s ⟨.types, q⟩ m :=
    hplays (by simpa [hshape, Shape.parts] using hm)
  have houter (m : Node) (hm : m ∈ outer) : m.Plays .attribute ∧ Covers s ⟨.types, q⟩ m :=
    hplays (by simpa [hshape, Shape.parts] using hm)
  have hany (m : Node) (hm : m ∈ any) : m.Plays .anyAttribute := by
    have hpart : (Role.anyAttribute, m) ∈ t.shape.parts := by
      simpa [hshape, Shape.parts] using hm
    exact hproper.part hpart
  cases model with
  | none => exact ⟨_, rfl, hown, houter, hany⟩
  | some m =>
    have hm : (Role.model, m) ∈ t.shape.parts := by simp [hshape, Shape.parts]
    obtain ⟨content, rfl⟩ | ⟨mixed, content, rfl⟩ := model_cases (hplays hm).1
    · exact absurd rfl (hmodel content)
    · cases content with
      | none => exact ⟨_, rfl, hown, houter, hany⟩
      | some content =>
        have hcontent : (Role.complexDerivation, content) ∈
            (Shape.complexContent mixed (some content)).parts := by
          simp [Shape.parts]
        have hderivation := (hplays hm).1.built.part hcontent
        have hcovers := (hplays hm).2.part hcontent
        obtain ⟨how, base, particle, members, innerAny, rfl⟩ := derivation_parts hderivation
        have hmembers (a : Node) (ha : a ∈ outer ++ members) :
            a.Plays .attribute ∧ Covers s ⟨.types, q⟩ a := by
          rcases List.mem_append.1 ha with ha | ha
          · exact houter a ha
          · have hpart : (Role.attribute, a) ∈
                (Shape.complexDerivation how base particle members innerAny).parts := by
              simp [Shape.parts, ha]
            exact ⟨hderivation.built.part hpart, hcovers.part hpart⟩
        have hparticle (a : Node) (ha : a ∈ particle) :
            a.Plays .particle ∧ Covers s ⟨.types, q⟩ a := by
          have hpart : (Role.particle, a) ∈
              (Shape.complexDerivation how base particle members innerAny).parts := by
            simpa [Shape.parts] using ha
          exact ⟨hderivation.built.part hpart, hcovers.part hpart⟩
        cases own with
        | none => exact ⟨_, rfl, hparticle, hmembers, hany⟩
        | some p => exact ⟨_, rfl, hown, hmembers, hany⟩

theorem lawful_mergeEdits (hs : s.Proper) (hn : n.Proper) {given : Inherited}
    (hshape : n.shape = .complexDerivation .extension (some q) particle attributes any) {t : Node}
    (hfind : s.find? .types (some q) = some t) (hgiven : Bequeathed s q given) :
    AllLawful s .complexContentExtension n (mergeEdits s q given particle attributes hasAny) := by
  have hstratum : n.shape.kind.stratum = 1 := by rw [hshape]; rfl
  have hreaches (a : ComponentName) (ha : Covers s a n) : Reaches s a ⟨.types, q⟩ :=
    ha.typeName (by simp [hshape, Shape.typeNames])
  have hfind' : s.find? (ComponentKey.component ⟨.type, q⟩).table
      (some (ComponentKey.component ⟨.type, q⟩).name) = some t := hfind
  have hmembers : AllLawful s .complexContentExtension n (attributeListEdits s hasAny
      [(some ⟨.type, q⟩, given.attributes), (none, attributes)]) := by
    refine lawful_attributeListEdits fun l hl hasAny => ?_
    simp only [List.mem_cons, List.not_mem_nil, or_false] at hl
    rcases hl with rfl | rfl
    · exact lawful_keyedAttributes hs rfl hstratum hfind' hreaches hgiven.attributes
    · exact lawful_ownAttributes hs hn rfl hstratum (by simp [hshape, Shape.parts])
  have hparticle : AllLawful s .complexContentExtension n
      (mergedParticleEdits s ⟨.type, q⟩ given.particle particle) := by
    refine lawful_mergedParticleEdits hs rfl (fun m hm => ?_) (fun m hm => ?_)
    · obtain ⟨hplays, hcovers⟩ := hgiven.particle m hm
      exact ⟨hplays, descends_keyed hplays.built hfind' hcovers hreaches⟩
    · have hpart : (Role.particle, m) ∈ n.shape.parts := by
        simpa [hshape, Shape.parts] using hm
      exact below_part hn hpart
  unfold mergeEdits
  refine (((AllLawful.append ?_ (.cons ?_ hmembers)).append ?_).append hparticle)
  · intro e he
    obtain ⟨b, -, rfl⟩ := List.mem_map.1 he
    exact .warn
  · exact .change (by simp [Change.Lawful, Change.Builtin, anyType, xsd, QName.isBuiltin])
  · split
    · exact .nil
    · exact lawful_wildcardEdits hgiven.any

private theorem lawful_ownParticle (hs : s.Proper) (hn : n.Proper)
    (hslot : Slot.particle.role? target = some .particle)
    (hparticle : ∀ m ∈ particle, (Role.particle, m) ∈ n.shape.parts) :
    AllLawful s target n (particleEdits s (.attach .particle) particle) :=
  lawful_particleEdits hs (.inl rfl) (fun m hm => below_part hn (hparticle m hm))
    fun _ _ hadmits hapt => .attach hslot hadmits hapt

theorem lawful_extensionEdits (hs : s.Proper) (hn : n.Proper)
    (hshape : n.shape = .complexDerivation .extension base particle attributes any) :
    AllLawful s .complexContentExtension n
      (extensionEdits s base particle attributes hasAny) := by
  have hstratum : n.shape.kind.stratum = 1 := by rw [hshape]; rfl
  have hattributes : AllLawful s .complexContentExtension n
      (attributeEdits s true none [] hasAny attributes) :=
    lawful_ownAttributes hs hn rfl hstratum (by simp [hshape, Shape.parts])
  have hparticle : AllLawful s .complexContentExtension n
      (particleEdits s (.attach .particle) particle) :=
    lawful_ownParticle hs hn rfl (by simp [hshape, Shape.parts])
  have hplain {b : QName} (hb : b.isBuiltin) :
      AllLawful s .complexContentExtension n (.change (.base (some b)) ::
        attributeEdits s true none [] hasAny attributes ++
          particleEdits s (.attach .particle) particle) :=
    (AllLawful.cons (.change (by simpa [Change.Lawful, Change.Builtin] using hb)) hattributes).append hparticle
  unfold extensionEdits
  split
  · exact hplain rfl
  · rename_i q
    split
    · rename_i hbuiltin
      exact hplain hbuiltin
    · split
      · exact .single (lawful_fail (by simp) (by simp [Problem.errorClass]))
      · rename_i t hfind
        split
        · exact .single (lawful_fail (by simp) (by simp [Problem.errorClass]))
        · rename_i c d outer any' model own hsimple htype
          obtain ⟨given, hgiven, hbequeathed⟩ := bequeathed_inherited hs hfind htype
            (fun content hmodel => hsimple content hmodel)
          rw [hgiven]
          exact lawful_mergeEdits hs hn hshape hfind hbequeathed
        · exact .single (lawful_fail (by simp) (by simp [Problem.errorClass]))

theorem lawful_restrictionEdits (hs : s.Proper) (hn : n.Proper)
    (hshape : n.shape = .complexDerivation .restriction base particle attributes any) :
    AllLawful s .complexContentRestriction n
      (restrictionEdits s base particle attributes hasAny) := by
  have hstratum : n.shape.kind.stratum = 1 := by rw [hshape]; rfl
  unfold restrictionEdits
  refine (AllLawful.append ?_ ?_).append (.single (.change ?_))
  · exact lawful_ownAttributes hs hn rfl hstratum (by simp [hshape, Shape.parts])
  · exact lawful_ownParticle hs hn rfl (by simp [hshape, Shape.parts])
  · have hanyType : Change.Lawful s .complexContentRestriction (.base (some anyType)) := by rintro _ ⟨⟩; rfl
    cases base with
    | none => exact hanyType
    | some q =>
      by_cases hq : q.isBuiltin
      · simp [hq, Change.Lawful, Change.Builtin]
      · simpa [hq] using hanyType

end ComplexContent

/-! ## Declarations -/

section Declarations

def Follows (s : Schema) (target : Kind) (n : Node) (last : List Edit) : Prop :=
  last = [] ∨ ∃ m, last = [.follow m] ∧ m.shape.kind.copy? = some target ∧
    Descends s n (m.shape.key? s.space) m

/-- Lawful edits, the last of which may be to go on with another node. -/
def LawfulRule (s : Schema) (target : Kind) (n : Node) (es : List Edit) : Prop :=
  ∃ front last, es = front ++ last ∧ AllLawful s target n front ∧ Follows s target n last

theorem AllLawful.rule {es : List Edit} (h : AllLawful s target n es) : LawfulRule s target n es :=
  ⟨es, [], by simp, h, .inl rfl⟩

/-- The head of a table of declarations is copied into the place of a declaration of its kind. -/
theorem lawful_followEdits (hs : s.Proper) {table : TableName} {q : QName} {m : Node}
    (htable : table = .elements ∧ target = .element ∨ table = .attributes ∧ target = .attribute)
    (hfind : s.find? table (some q) = some m)
    (hreaches : ∀ a, Covers s a n → Reaches s a ⟨table, q⟩) :
    LawfulRule s target n (followEdits target m) := by
  have hadmits := (hs.find hfind).2.admits
  have hdescends := descends_found (n := n) hs hfind (by rcases htable with ⟨rfl, -⟩ | ⟨rfl, -⟩ <;> simp)
    hreaches
  obtain ⟨shape⟩ := m
  rcases htable with ⟨rfl, rfl⟩ | ⟨rfl, rfl⟩ <;> cases shape with
    | element c d own =>
      first
      | exact ⟨[_], [_], rfl, .single (.change trivial), .inr ⟨_, rfl, rfl, hdescends⟩⟩
      | cases hadmits
    | «attribute» c d own =>
      first
      | exact ⟨[_], [_], rfl, .single (.change trivial), .inr ⟨_, rfl, rfl, hdescends⟩⟩
      | cases hadmits
    | modelGroup order _ _ => cases order <;> cases hadmits
    | complexDerivation how _ _ _ _ => cases how <;> cases hadmits
    | _ => cases hadmits

theorem lawful_referenceEdits (hs : s.Proper) {table : TableName} {form : String} {ref : Option QName}
    (htable : table = .elements ∧ target = .element ∨ table = .attributes ∧ target = .attribute)
    (href : ∀ q ∈ ref, ∀ a, Covers s a n → Reaches s a ⟨table, q⟩) :
    LawfulRule s target n (referenceEdits s table target form ref) := by
  unfold referenceEdits
  split
  · exact (AllLawful.single (lawful_fail (by simp) (by simp [Problem.errorClass]))).rule
  · rename_i m hfind
    cases ref with
    | none => cases hfind
    | some q =>
      obtain ⟨front, last, heq, hfront, hlast⟩ := lawful_followEdits hs htable hfind (href q rfl)
      have hform : AllLawful s target n
          (if form = qualified then [] else [.change (.form qualified)]) := by
        have hqualified : Change.Lawful s target (.form qualified) := trivial
        split
        · exact .nil
        · exact .single (.change hqualified)
      have hkind : m.shape.kind = target := by
        have hadmits := (hs.find hfind).2.admits
        rcases htable with ⟨rfl, rfl⟩ | ⟨rfl, rfl⟩ <;> revert hadmits <;>
          cases m.shape.kind <;> decide
      have hname : Change.Lawful s target (.name (m.shape.component?.bind (·.name))) :=
        ⟨m, contains_of_find? hfind, hkind, rfl⟩
      rw [heq]
      exact ⟨_, last, (List.append_assoc _ front last).symm,
        (AllLawful.cons (.change hname) hform).append hfront, hlast⟩

theorem lawful_elementEdits (hs : s.Proper) (hn : n.Proper) {c : Component} {d : ElementDecl}
    {own : Option Node} (hshape : n.shape = .element c d own) :
    LawfulRule s .element n (elementEdits s .element d own) := by
  unfold elementEdits
  split
  · have hslot : Slot.type.role? .element = some (typeRole false) := rfl
    refine (lawful_typeEdits hs hn hslot ?_ ?_).rule
    · simp [hshape, Shape.typeNames]
    · simp [hshape, Shape.parts, typeRole]
  · rename_i q hq
    split
    · exact (AllLawful.single (lawful_fail (by simp) (by simp [Problem.errorClass]))).rule
    · rename_i head hfind
      refine lawful_followEdits hs (.inl ⟨rfl, rfl⟩) hfind fun a ha => ha.reaches ?_
      simp [hshape, Shape.references, hq]

theorem lawful_contentEdits (hn : n.Proper) {role : Role} {kind : Kind} {content : Option Node}
    (hslot : Slot.content.role? target = some role)
    (hcopy : ∀ k, role.admits k → k.copy? = some k)
    (hcontent : ∀ m ∈ content, (role, m) ∈ n.shape.parts) :
    AllLawful s target n (contentEdits kind content) := by
  cases content with
  | none => exact .single (lawful_fail (by simp) (by simp [Problem.errorClass]))
  | some m => exact .single (lawful_part hn hslot hcopy (hcontent m rfl))

theorem lawful_complexTypeEdits (hs : s.Proper) (hn : n.Proper) {c : Component} {d : ComplexDecl}
    {attributes : List Node} {any model particle : Option Node}
    (hshape : n.shape = .complexType c d attributes any model particle) :
    AllLawful s .complexType n (complexTypeEdits s true attributes any model particle) := by
  have hstratum : n.shape.kind.stratum = 1 := by rw [hshape]; rfl
  unfold complexTypeEdits
  refine (AllLawful.append ?_ ?_).append ?_
  · exact lawful_ownAttributes hs hn rfl hstratum (by simp [hshape, Shape.parts])
  · cases model with
    | none => exact .nil
    | some m =>
      have hcopy (k : Kind) : Role.model.admits k → k.copy? = some k := by
        cases k <;> simp [Role.admits, Kind.copy?]
      exact .single (lawful_part hn rfl hcopy (by simp [hshape, Shape.parts]))
  · refine lawful_particleEdits hs (.inl rfl) (fun m hm => ?_)
      fun _ _ hadmits hapt => .attach rfl hadmits hapt
    have hpart : (Role.particle, m) ∈ n.shape.parts := by
      simpa [hshape, Shape.parts] using hm
    exact below_part hn hpart

end Declarations

/-! ## All rules -/

section Rules

variable {c : Context} {base item : Option QName} {own content : Option Node} {facets items types : List Node}
  {members : List QName} {ownName : Component}

theorem lawful_elementRef {ref : Option QName} {bounds : Occurs} (hs : c.source.Proper) :
    LawfulRule c.source .element ⟨.elementRef ref bounds⟩ (edits c .element ⟨.elementRef ref bounds⟩) := by
  refine lawful_referenceEdits hs (.inl ⟨rfl, rfl⟩) fun q hq a ha => ha.reaches ?_
  simpa [Node.shape, Shape.references, Shape.typeNames] using hq

theorem lawful_attributeRef {ref : Option QName} {usage : AttributeUse} (hs : c.source.Proper) :
    LawfulRule c.source .attribute ⟨.attributeRef ref usage⟩ (edits c .attribute ⟨.attributeRef ref usage⟩) := by
  refine lawful_referenceEdits hs (.inr ⟨rfl, rfl⟩) fun q hq a ha => ha.reaches ?_
  simpa [Node.shape, Shape.references, Shape.typeNames] using hq

theorem lawful_attribute {d : AttributeDecl} (hs : c.source.Proper) (hn : (⟨.attribute ownName d own⟩ : Node).Proper) :
    AllLawful c.source .attribute ⟨.attribute ownName d own⟩ (edits c .attribute ⟨.attribute ownName d own⟩) := by
  refine lawful_typeEdits hs hn rfl ?_ ?_
  · simp [Node.shape, Shape.typeNames]
  · simp [Node.shape, Shape.parts, typeRole]

theorem lawful_simpleType (hn : (⟨.simpleType ownName content⟩ : Node).Proper) :
    AllLawful c.source .simpleType ⟨.simpleType ownName content⟩
      (edits c .simpleType ⟨.simpleType ownName content⟩) := by
  have hcopy (k : Kind) : Role.simpleVariety.admits k → k.copy? = some k := by
    cases k <;> simp [Role.admits, Kind.copy?]
  cases content with
  | none => exact .nil
  | some m => exact .single (lawful_part hn rfl hcopy (by simp [Node.shape, Shape.parts]))

theorem lawful_simpleRestriction (hs : c.source.Proper) (hn : (⟨.simpleRestriction base own facets⟩ : Node).Proper) :
    AllLawful c.source .simpleTypeRestriction ⟨.simpleRestriction base own facets⟩
      (edits c .simpleTypeRestriction ⟨.simpleRestriction base own facets⟩) := by
  refine lawful_typeEdits hs hn rfl ?_ ?_
  · simp [Node.shape, Shape.typeNames]
  · simp [Node.shape, Shape.parts, typeRole]

theorem lawful_simpleList (hs : c.source.Proper) (hn : (⟨.simpleList item own⟩ : Node).Proper) :
    AllLawful c.source .simpleTypeList ⟨.simpleList item own⟩ (edits c .simpleTypeList ⟨.simpleList item own⟩) := by
  refine lawful_typeEdits hs hn rfl ?_ ?_
  · simp [Node.shape, Shape.typeNames]
  · simp [Node.shape, Shape.parts, typeRole]

theorem lawful_simpleUnion (hs : c.source.Proper) (hn : (⟨.simpleUnion members types⟩ : Node).Proper) :
    AllLawful c.source .simpleTypeUnion ⟨.simpleUnion members types⟩
      (edits c .simpleTypeUnion ⟨.simpleUnion members types⟩) := by
  have hcopy : ∀ k, Role.simpleType.admits k → k.copy? = some k := fun _ => @copy?_of_typeRole true _
  refine AllLawful.append (fun e he => ?_) fun e he => ?_
  · obtain ⟨t, ht, rfl⟩ := List.mem_map.1 he
    exact lawful_part hn rfl hcopy (by simpa [Node.shape, Shape.parts] using ht)
  · obtain ⟨q, hq, he⟩ := List.mem_flatMap.1 he
    exact lawful_memberEdits hs rfl (by simpa [Node.shape, Shape.typeNames] using hq) e he

theorem lawful_simpleContent (hn : (⟨.simpleContent content⟩ : Node).Proper) :
    AllLawful c.source .simpleContent ⟨.simpleContent content⟩ (edits c .simpleContent ⟨.simpleContent content⟩) := by
  have hslot : Slot.content.role? .simpleContent = some .simpleDerivation := rfl
  refine lawful_contentEdits hn hslot ?_ ?_
  · intro k
    cases k <;> simp [Role.admits, Kind.copy?]
  · simp [Node.shape, Shape.parts]

theorem lawful_complexContent {mixed : Option Bool} (hn : (⟨.complexContent mixed content⟩ : Node).Proper) :
    AllLawful c.source .complexContent ⟨.complexContent mixed content⟩
      (edits c .complexContent ⟨.complexContent mixed content⟩) := by
  have hslot : Slot.content.role? .complexContent = some .complexDerivation := rfl
  refine lawful_contentEdits hn hslot ?_ ?_
  · intro k
    cases k <;> simp [Role.admits, Kind.copy?]
  · simp [Node.shape, Shape.parts]

theorem lawful_modelGroup {order : Order} {bounds : Occurs} (hs : c.source.Proper)
    (hn : (⟨.modelGroup order bounds items⟩ : Node).Proper)
    (hcopy : (⟨.modelGroup order bounds items⟩ : Node).shape.kind.copy? = some target) :
    AllLawful c.source target ⟨.modelGroup order bounds items⟩
      (edits c target ⟨.modelGroup order bounds items⟩) := by
  have hitems (hslot : Slot.item.role? target = some .item) :
      AllLawful c.source target ⟨.modelGroup order bounds items⟩
        (items.flatMap fun i => particleEdits c.source (.attach .item) (some i)) := by
    intro e he
    obtain ⟨i, hi, he⟩ := List.mem_flatMap.1 he
    have hpart : (Role.item, i) ∈ (Shape.modelGroup order bounds items).parts := by
      simpa [Shape.parts] using hi
    refine lawful_particleEdits hs (.inr rfl) ?_ (fun _ _ hadmits hapt => .attach hslot hadmits hapt) e he
    rintro _ ⟨rfl⟩
    exact below_part hn hpart
  cases order with
  | unspecified => cases hcopy
  | sequence | choice | all =>
    cases hcopy
    exact hitems rfl

/-- The rules ask for lawful edits of every well-formed node that can be copied, at a place of the kind of
its copy. -/
theorem lawful_edits (hs : c.source.Proper) (hn : n.Proper) (hcopy : n.shape.kind.copy? = some target) :
    LawfulRule c.source target n (edits c target n) := by
  obtain ⟨shape⟩ := n
  cases shape with
  | schemaNode | facet | anyAttribute | attributeGroupRef | attributeGroup | groupRef | group => cases hcopy
  | elementRef =>
    cases hcopy
    exact lawful_elementRef hs
  | attributeRef =>
    cases hcopy
    exact lawful_attributeRef hs
  | element =>
    cases hcopy
    exact lawful_elementEdits hs hn rfl
  | «attribute» =>
    cases hcopy
    exact (lawful_attribute hs hn).rule
  | simpleType =>
    cases hcopy
    exact (lawful_simpleType hn).rule
  | simpleRestriction =>
    cases hcopy
    exact (lawful_simpleRestriction hs hn).rule
  | simpleList =>
    cases hcopy
    exact (lawful_simpleList hs hn).rule
  | simpleUnion =>
    cases hcopy
    exact (lawful_simpleUnion hs hn).rule
  | complexType =>
    cases hcopy
    exact (lawful_complexTypeEdits hs hn rfl).rule
  | simpleContent =>
    cases hcopy
    exact (lawful_simpleContent hn).rule
  | complexContent =>
    cases hcopy
    exact (lawful_complexContent hn).rule
  | simpleContentExtension =>
    cases hcopy
    exact (lawful_simpleExtensionEdits hs hn rfl).rule
  | simpleContentRestriction =>
    cases hcopy
    exact (lawful_simpleRestrictionEdits hs hn rfl).rule
  | complexDerivation how =>
    cases how with
    | extension =>
      cases hcopy
      exact (lawful_extensionEdits hs hn rfl).rule
    | restriction =>
      cases hcopy
      exact (lawful_restrictionEdits hs hn rfl).rule
  | modelGroup => exact (lawful_modelGroup hs hn hcopy).rule
  | wildcard => exact AllLawful.nil.rule

end Rules

end PayloadSchema.Extraction
