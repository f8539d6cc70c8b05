import PayloadSchema.Proofs.Extraction.AcceptedDocuments
import PayloadSchema.Proofs.Inlining.CanonicalTrees

/-!
# Canonical trees are copied as they are

A finished tree that is canonical refers to nothing, so its copy does not depend on the schema that it stands in.  The
copy is the tree itself.
-/

namespace PayloadSchema.Extraction

open Schema Copying

/-! ## Parts that are their own copies -/

section Parts

variable {c : Context} {s : Schema} {path : List ComponentKey} {rest : List Edit} {r : Shape Node} {slot : Slot}

/-- What stands in a list is copied into a slot that takes one after the other. -/
theorem gives_fillAll (f : List Node → Shape Node) (hf : ∀ ns n, slot.fill n (f ns) = f (ns ++ [n]))
    {before ns : List Node} (hns : ∀ n ∈ ns, (inlineChild c path (.plain n)).Gives n)
    (h : (inlineEdits c path rest (f (before ++ ns))).Gives r) :
    (inlineEdits c path (ns.map (fun n => .attach slot (.plain n)) ++ rest) (f before)).Gives r := by
  induction ns generalizing before with
  | nil => simpa using h
  | cons n ns ih =>
    obtain ⟨hn, hns⟩ := List.forall_mem_cons.1 hns
    refine gives_attach.2 ⟨n, hn, ?_⟩
    rw [hf]
    exact ih hns (by simpa using h)

theorem gives_fillOption (f : Option Node → Shape Node) (hf : ∀ n, slot.fill n (f none) = f (some n))
    {o : Option Node} (ho : ∀ n ∈ o, (inlineChild c path (.plain n)).Gives n)
    (h : (inlineEdits c path rest (f o)).Gives r) :
    (inlineEdits c path (o.toList.map (fun n => .attach slot (.plain n)) ++ rest) (f none)).Gives r := by
  cases o with
  | none => exact h
  | some n =>
    refine gives_attach.2 ⟨n, ho n rfl, ?_⟩
    rwa [hf]

/-- A type that is built in is named, and a type of its own is copied. -/
theorem gives_typeEdits_own (f : Option QName → Option Node → Shape Node) {simpleOnly : Bool} {q : Option QName}
    {own : Option Node} (hnamed : ∀ q, (Change.typeName q).apply (f none none) = f q none)
    (hf : ∀ n, Slot.type.fill n (f none none) = f none (some n)) (hq : ∀ t ∈ q, t.isBuiltin)
    (hone : q.isSome → own = none) (hown : ∀ n ∈ own, (inlineChild c path (.plain n)).Gives n) :
    (inlineEdits c path (typeEdits s simpleOnly q own) (f none none)).Gives (f q own) := by
  cases q with
  | some q =>
    obtain rfl := hone rfl
    rw [typeEdits, if_pos (hq q rfl), inlineEdits_change, inlineEdits_nil, gives_pure, hnamed]
  | none =>
    cases own with
    | none => rw [typeEdits, inlineEdits_change, inlineEdits_nil, gives_pure, hnamed]
    | some n =>
      refine gives_attach.2 ⟨n, hown n rfl, ?_⟩
      rw [inlineEdits_nil, gives_pure, hf]

theorem attributeEdits_own {met : List QName} {hasAny : Bool} {ns : List Node}
    (hns : ∀ n ∈ ns, n.shape.Suits .attribute) :
    attributeEdits s true none met hasAny ns = ns.map fun n => .attach .attribute (.plain n) := by
  induction ns with
  | nil => rw [attributeEdits, List.map_nil]
  | cons n ns ih =>
    obtain ⟨hn, hrest⟩ := List.forall_mem_cons.1 hns
    obtain ⟨shape⟩ := n
    cases hn with
    | «attribute» c d type =>
      rw [attributeEdits, if_pos rfl, ih hrest]
      rfl

theorem particleEdits_own {o : Option Node} (ho : ∀ n ∈ o, n.shape.Suits .particle ∨ n.shape.Suits .item) :
    particleEdits s (.attach slot) o = o.toList.map fun n => .attach slot (.plain n) := by
  cases o with
  | none => rfl
  | some n =>
    have hchild : particleChild s none n = .ok (.plain n) := by
      obtain ⟨shape⟩ := n
      have hgroup {order : Order} {bounds : Occurs} {items : List Node} (horder : order ≠ .unspecified) :
          particleChild s none ⟨.modelGroup order bounds items⟩ = .ok (.plain ⟨.modelGroup order bounds items⟩) := by
        cases order with
        | unspecified => exact absurd rfl horder
        | _ => rfl
      rcases ho _ rfl with h | h
      · cases h with
        | particle _ _ _ horder => exact hgroup horder
      · cases h with
        | item _ _ _ horder => exact hgroup horder
        | element | wildcard => rfl
    rw [particleEdits, particleChild?, hchild]
    rfl

theorem rootEdits_own (s : Schema) (withAttributes : Bool) {base : Option QName} (hbase : ∀ q ∈ base, q.isBuiltin) :
    (baseChain s withAttributes [] base).inherited = [] ∧
      rootEdits (baseChain s withAttributes [] base) = [.change (.base base)] := by
  cases base with
  | none =>
    rw [baseChain]
    exact ⟨rfl, rfl⟩
  | some q =>
    rw [baseChain, if_pos (hbase q rfl)]
    exact ⟨rfl, rfl⟩

theorem outlineAny_own {any : Option Node} (hany : ∀ m ∈ any, m.shape.Suits .anyAttribute) :
    outlineAny any = .ok any := by
  cases any with
  | none => rfl
  | some m =>
    obtain ⟨shape⟩ := m
    cases hany _ rfl
    rfl

theorem outlineFacets_own {facets : List Node} (hfacets : ∀ m ∈ facets, m.shape.Suits .facet) :
    outlineFacets facets = .ok facets := by
  induction facets with
  | nil => rfl
  | cons m facets ih =>
    obtain ⟨hm, hrest⟩ := List.forall_mem_cons.1 hfacets
    have hothers := ih hrest
    rw [outlineFacets] at hothers ⊢
    obtain ⟨shape⟩ := m
    cases hm
    rw [List.mapM_cons, hothers]
    rfl

end Parts

/-! ## Trees that are their own copies -/

section Trees

variable {c : Context} {path : List ComponentKey} {role : Role} {n : Node} {s : Shape Node}

structure Fixed (s : Shape Node) : Prop extends s.Plain, s.Canonical

structure OwnParts (c : Context) (path : List ComponentKey) (s : Shape Node) : Prop where
  suits : ∀ r m, (r, m) ∈ s.parts → m.shape.Suits r
  gives : ∀ r m, (r, m) ∈ s.parts → r ≠ .facet ∧ r ≠ .anyAttribute → (inlineChild c path (.plain m)).Gives m

theorem gives_copy (start : Shape Node) {es : List Edit} (hinner : s.isTopLevel = false)
    (hstart : outline ⟨s⟩ = .ok start) (hedits : edits c start.kind ⟨s⟩ = es)
    (h : (inlineEdits c path es start).Gives s) : (inlineChild c path (.plain ⟨s⟩)).Gives ⟨s⟩ := by
  have henter : enter path ((⟨s⟩ : Node).shape.key? c.source.space) = .ok path := by
    rw [Node.shape, key?_of_inner hinner]
    rfl
  refine gives_plain hstart henter ?_
  rwa [inlineNode, hedits]

theorem gives_done : (inlineEdits c path [] s).Gives s := by
  rw [inlineEdits_nil, gives_pure]

/-- What is inside of a tree does not stand at the top, and a type has no name. -/
theorem eq_of_inner {co : Component} (htop : co.topLevel = false) (hname : co.name.isSome = false) :
    co = ⟨none, false⟩ := by
  obtain ⟨name, topLevel⟩ := co
  simp_all

section Constructs

variable {base : Option QName} {own any model particle : Option Node} {facets members types items : List Node}

private theorem gives_own_simpleUnion {names : List QName} (hnames : ∀ q ∈ names, q.isBuiltin)
    (htypes : ∀ m ∈ types, (inlineChild c path (.plain m)).Gives m) :
    (inlineChild c path (.plain ⟨.simpleUnion names types⟩)).Gives ⟨.simpleUnion names types⟩ := by
  have hmembers : names.flatMap (memberEdits c.source) = names.map fun q => .change (.member q) := by
    have heach (q : QName) (hq : q ∈ names) : memberEdits c.source q = [.change (.member q)] := by
      rw [memberEdits, if_pos (hnames q hq)]
    rw [List.flatMap_congr heach, ← List.map_eq_flatMap]
  have hnamed (before after : List QName) : (inlineEdits c path (after.map fun q => .change (.member q))
      (.simpleUnion before types)).Gives (.simpleUnion (before ++ after) types) := by
    induction after generalizing before with
    | nil => simp
    | cons q after ih =>
      rw [List.map_cons, inlineEdits_change]
      simpa [Change.apply] using ih (before ++ [q])
  have hedits : edits c .simpleTypeUnion ⟨.simpleUnion names types⟩ =
      types.map (fun m => .attach .memberType (.plain m)) ++ names.map fun q => .change (.member q) := by
    rw [← hmembers]
    rfl
  refine gives_copy _ rfl rfl hedits ?_
  exact gives_fillAll (fun ts => .simpleUnion [] ts) (fun _ _ => rfl) htypes (hnamed [] names)

private theorem gives_own_modelGroup {order : Order} {bounds : Occurs} (horder : order ≠ .unspecified)
    (hsuits : ∀ i ∈ items, i.shape.Suits .item) (hitems : ∀ i ∈ items, (inlineChild c path (.plain i)).Gives i) :
    (inlineChild c path (.plain ⟨.modelGroup order bounds items⟩)).Gives ⟨.modelGroup order bounds items⟩ := by
  have hedits : (items.flatMap fun i => particleEdits c.source (.attach .item) (some i)) =
      items.map (fun i => .attach .item (.plain i)) ++ [] := by
    have heach (i : Node) (hi : i ∈ items) :
        particleEdits c.source (.attach .item) (some i) = [.attach .item (.plain i)] :=
      particleEdits_own (by rintro _ ⟨⟩; exact .inr (hsuits i hi))
    rw [List.append_nil, List.flatMap_congr heach, ← List.map_eq_flatMap]
  have hfilled : (inlineEdits c path (items.map (fun i => .attach .item (.plain i)) ++ [])
      (.modelGroup order bounds [])).Gives (.modelGroup order bounds items) :=
    gives_fillAll (fun is => .modelGroup order bounds is) (fun _ _ => rfl) hitems gives_done
  cases order with
  | unspecified => exact absurd rfl horder
  | sequence | choice | all => exact gives_copy _ rfl rfl hedits hfilled

private theorem gives_own_simpleExtension (hbase : ∀ q ∈ base, q.isBuiltin)
    (hparts : OwnParts c path (.simpleContentExtension base members any)) :
    (inlineChild c path (.plain ⟨.simpleContentExtension base members any⟩)).Gives
      ⟨.simpleContentExtension base members any⟩ := by
  obtain ⟨hsuits, hgives⟩ := hparts
  have hmembers (m : Node) (hm : m ∈ members) := hsuits .attribute m (by simp [Shape.parts, hm])
  have hany : outlineAny any = .ok any :=
    outlineAny_own fun m hm => hsuits .anyAttribute m (by simp [Shape.parts, Option.mem_def.1 hm])
  obtain ⟨hinherited, hroot⟩ := rootEdits_own c.source true hbase
  have hedits : simpleExtensionEdits c.source base members any.isSome =
      .change (.base base) :: (members.map (fun m => .attach .attribute (.plain m)) ++ []) := by
    simp [simpleExtensionEdits, hinherited, hroot, attributeListEdits, attributeEdits_own hmembers]
  refine gives_copy (.simpleContentExtension none [] any) rfl (by simp [outline, Node.shape, hany]) hedits ?_
  rw [inlineEdits_change]
  refine gives_fillAll (fun ms => .simpleContentExtension base ms any) (fun _ _ => rfl) (fun m hm => ?_) gives_done
  exact hgives .attribute m (by simp [Shape.parts, hm]) (by simp)

private theorem gives_own_simpleRestriction (hbase : ∀ q ∈ base, q.isBuiltin)
    (hparts : OwnParts c path (.simpleContentRestriction base own facets members any)) :
    (inlineChild c path (.plain ⟨.simpleContentRestriction base own facets members any⟩)).Gives
      ⟨.simpleContentRestriction base own facets members any⟩ := by
  obtain ⟨hsuits, hgives⟩ := hparts
  have hmembers (m : Node) (hm : m ∈ members) := hsuits .attribute m (by simp [Shape.parts, hm])
  have hfacets : outlineFacets facets = .ok facets :=
    outlineFacets_own fun m hm => hsuits .facet m (by simp [Shape.parts, hm])
  have hany : outlineAny any = .ok any :=
    outlineAny_own fun m hm => hsuits .anyAttribute m (by simp [Shape.parts, Option.mem_def.1 hm])
  have hstart : outline ⟨.simpleContentRestriction base own facets members any⟩ =
      .ok (.simpleContentRestriction none none facets [] any) := by
    simp only [outline, Node.shape, hfacets, hany]
    rfl
  obtain ⟨-, hroot⟩ := rootEdits_own c.source false hbase
  have hedits : simpleRestrictionEdits c.source base own members any.isSome =
      members.map (fun m => .attach .attribute (.plain m)) ++
        (own.toList.map (fun m => .attach .type (.plain m)) ++ [.change (.base base)]) := by
    rw [simpleRestrictionEdits, hroot, attributeEdits_own hmembers, List.append_assoc]
  refine gives_copy _ rfl hstart hedits ?_
  refine gives_fillAll (fun ms => .simpleContentRestriction none none facets ms any) (fun _ _ => rfl)
    (fun m hm => hgives .attribute m (by simp [Shape.parts, hm]) (by simp)) ?_
  refine gives_fillOption (fun o => .simpleContentRestriction none o facets members any) (fun _ => rfl)
    (fun m hm => hgives .simpleType m (by simp [Shape.parts, Option.mem_def.1 hm]) (by simp)) ?_
  rw [inlineEdits_change]
  exact gives_done

private theorem gives_own_derivation {how : Derivation} (hsome : base.isSome) (hbase : ∀ q ∈ base, q.isBuiltin)
    (hparts : OwnParts c path (.complexDerivation how base particle members any)) :
    (inlineChild c path (.plain ⟨.complexDerivation how base particle members any⟩)).Gives
      ⟨.complexDerivation how base particle members any⟩ := by
  obtain ⟨hsuits, hgives⟩ := hparts
  obtain ⟨q, rfl⟩ := Option.isSome_iff_exists.1 hsome
  have hq : q.isBuiltin := hbase q rfl
  have hmembers (m : Node) (hm : m ∈ members) := hsuits .attribute m (by simp [Shape.parts, hm])
  have hparticle (m : Node) (hm : m ∈ particle) := hsuits .particle m (by simp [Shape.parts, Option.mem_def.1 hm])
  have hany : outlineAny any = .ok any :=
    outlineAny_own fun m hm => hsuits .anyAttribute m (by simp [Shape.parts, Option.mem_def.1 hm])
  have hstart : outline ⟨.complexDerivation how (some q) particle members any⟩ =
      .ok (.complexDerivation how none none [] any) := by
    simp [outline, Node.shape, hany]
  have hfilled {base : Option QName} {rest : List Edit} {r : Shape Node}
      (h : (inlineEdits c path rest (.complexDerivation how base particle members any)).Gives r) :
      (inlineEdits c path (members.map (fun m => .attach .attribute (.plain m)) ++
        (particle.toList.map (fun m => .attach .particle (.plain m)) ++ rest))
        (.complexDerivation how base none [] any)).Gives r := by
    refine gives_fillAll (fun ms => .complexDerivation how base none ms any) (fun _ _ => rfl)
      (fun m hm => hgives .attribute m (by simp [Shape.parts, hm]) (by simp)) ?_
    exact gives_fillOption (fun o => .complexDerivation how base o members any) (fun _ => rfl)
      (fun m hm => hgives .particle m (by simp [Shape.parts, Option.mem_def.1 hm]) (by simp)) h
  cases how with
  | extension =>
    have hedits : extensionEdits c.source (some q) particle members any.isSome =
        .change (.base (some q)) :: (members.map (fun m => .attach .attribute (.plain m)) ++
          (particle.toList.map (fun m => .attach .particle (.plain m)) ++ [])) := by
      simp [extensionEdits, hq, attributeEdits_own hmembers, particleEdits_own fun m hm => .inl (hparticle m hm)]
    refine gives_copy _ rfl hstart hedits ?_
    rw [inlineEdits_change]
    exact hfilled gives_done
  | restriction =>
    have hedits : restrictionEdits c.source (some q) particle members any.isSome =
        members.map (fun m => .attach .attribute (.plain m)) ++
          (particle.toList.map (fun m => .attach .particle (.plain m)) ++ [.change (.base (some q))]) := by
      simp [restrictionEdits, hq, attributeEdits_own hmembers, particleEdits_own fun m hm => .inl (hparticle m hm)]
    refine gives_copy _ rfl hstart hedits (hfilled ?_)
    rw [inlineEdits_change]
    exact gives_done

private theorem gives_own_complexType {mixed : Bool}
    (hparts : OwnParts c path (.complexType ⟨none, false⟩ ⟨mixed, false⟩ members any model particle)) :
    (inlineChild c path (.plain ⟨.complexType ⟨none, false⟩ ⟨mixed, false⟩ members any model particle⟩)).Gives
      ⟨.complexType ⟨none, false⟩ ⟨mixed, false⟩ members any model particle⟩ := by
  obtain ⟨hsuits, hgives⟩ := hparts
  have hmembers (m : Node) (hm : m ∈ members) := hsuits .attribute m (by simp [Shape.parts, hm])
  have hparticle (m : Node) (hm : m ∈ particle) := hsuits .particle m (by simp [Shape.parts, Option.mem_def.1 hm])
  have hany : outlineAny any = .ok any :=
    outlineAny_own fun m hm => hsuits .anyAttribute m (by simp [Shape.parts, Option.mem_def.1 hm])
  have hstart : outline ⟨.complexType ⟨none, false⟩ ⟨mixed, false⟩ members any model particle⟩ =
      .ok (.complexType ⟨none, false⟩ ⟨mixed, false⟩ [] any none none) := by
    simp [outline, Node.shape, hany]
  have hedits : complexTypeEdits c.source true members any model particle =
      members.map (fun m => .attach .attribute (.plain m)) ++
        (model.toList.map (fun m => .attach .model (.plain m)) ++
          (particle.toList.map (fun m => .attach .particle (.plain m)) ++ [])) := by
    simp [complexTypeEdits, attributeEdits_own hmembers, particleEdits_own fun m hm => .inl (hparticle m hm)]
  refine gives_copy _ rfl hstart hedits ?_
  refine gives_fillAll (fun ms => .complexType ⟨none, false⟩ ⟨mixed, false⟩ ms any none none) (fun _ _ => rfl)
    (fun m hm => hgives .attribute m (by simp [Shape.parts, hm]) (by simp)) ?_
  refine gives_fillOption (fun o => .complexType ⟨none, false⟩ ⟨mixed, false⟩ members any o none) (fun _ => rfl)
    (fun m hm => hgives .model m (by simp [Shape.parts, Option.mem_def.1 hm]) (by simp)) ?_
  exact gives_fillOption (fun o => .complexType ⟨none, false⟩ ⟨mixed, false⟩ members any model o) (fun _ => rfl)
    (fun m hm => hgives .particle m (by simp [Shape.parts, Option.mem_def.1 hm]) (by simp)) gives_done

end Constructs

theorem gives_own (hs : Fixed s) (hinner : s.isTopLevel = false) (hcopy : s.kind.copy?.isSome)
    (hparts : OwnParts c path s) : (inlineChild c path (.plain ⟨s⟩)).Gives ⟨s⟩ := by
  have hgives := hparts.gives
  obtain ⟨⟨hreference, hunnamed, hbuiltin⟩, ⟨hexplicit, honeType⟩, hwhole⟩ := hs
  cases s with
  | schemaNode | facet | anyAttribute | attributeGroupRef | attributeGroup | groupRef | group => cases hcopy
  | elementRef | attributeRef => cases hreference
  | wildcard w bounds => exact gives_copy _ rfl rfl rfl gives_done
  | simpleType co content =>
    obtain rfl := eq_of_inner hinner (hunnamed rfl)
    refine gives_copy _ rfl rfl (List.append_nil _).symm ?_
    refine gives_fillOption (fun o => .simpleType ⟨none, false⟩ o) (fun _ => rfl) (fun m hm => ?_) gives_done
    exact hgives .simpleVariety m (by simpa [Shape.parts] using hm) (by simp)
  | «attribute» co d own =>
    obtain ⟨name, topLevel⟩ := co
    obtain rfl : topLevel = false := hinner
    refine gives_copy _ rfl rfl rfl ?_
    refine gives_typeEdits_own (fun q own => .attribute ⟨name, false⟩ ⟨q, d.usage, d.form⟩ own) (fun _ => rfl)
      (fun _ => rfl) (by simpa [Shape.typeNames] using hbuiltin) honeType fun m hm => ?_
    exact hgives .simpleType m (by simpa [Shape.parts] using hm) (by simp)
  | element co d own =>
    obtain ⟨name, topLevel⟩ := co
    obtain rfl : topLevel = false := hinner
    obtain ⟨typeName, head, bounds, nillable, abstract, default, fixed, form⟩ := d
    obtain ⟨rfl, rfl⟩ : head = none ∧ abstract = false := hexplicit
    refine gives_copy _ rfl rfl rfl ?_
    refine gives_typeEdits_own (fun q own =>
      .element ⟨name, false⟩ ⟨q, none, bounds, nillable, false, default, fixed, form⟩ own) (fun _ => rfl)
      (fun _ => rfl) (by simpa [Shape.typeNames] using hbuiltin) honeType fun m hm => ?_
    exact hgives .elementType m (by simpa [Shape.parts] using hm) (by simp)
  | simpleRestriction base own facets =>
    have hfacets : outlineFacets facets = .ok facets :=
      outlineFacets_own fun m hm => hparts.suits .facet m (by simp [Shape.parts, hm])
    refine gives_copy (.simpleRestriction none none facets) rfl (by simp [outline, Node.shape, hfacets]) rfl ?_
    refine gives_typeEdits_own (fun q own => .simpleRestriction q own facets) (fun _ => rfl)
      (fun _ => rfl) (by simpa [Shape.typeNames] using hbuiltin) honeType fun m hm => ?_
    exact hgives .simpleType m (by simp_all [Shape.parts]) (by simp)
  | simpleList item own =>
    refine gives_copy _ rfl rfl rfl ?_
    refine gives_typeEdits_own (fun q own => .simpleList q own) (fun _ => rfl)
      (fun _ => rfl) (by simpa [Shape.typeNames] using hbuiltin) honeType fun m hm => ?_
    exact hgives .simpleType m (by simpa [Shape.parts] using hm) (by simp)
  | simpleUnion names types =>
    refine gives_own_simpleUnion (by simpa [Shape.typeNames] using hbuiltin) fun m hm => ?_
    exact hgives .simpleType m (by simpa [Shape.parts] using hm) (by simp)
  | simpleContent content =>
    obtain ⟨m, rfl⟩ := Option.isSome_iff_exists.1 hwhole
    have hm := hgives .simpleDerivation m (by simp [Shape.parts]) (by simp)
    exact gives_copy _ rfl rfl rfl (gives_attach.2 ⟨m, hm, gives_done⟩)
  | complexContent mixed content =>
    obtain ⟨m, rfl⟩ := Option.isSome_iff_exists.1 hwhole
    have hm := hgives .complexDerivation m (by simp [Shape.parts]) (by simp)
    exact gives_copy _ rfl rfl rfl (gives_attach.2 ⟨m, hm, gives_done⟩)
  | simpleContentExtension base members any =>
    exact gives_own_simpleExtension (by simpa [Shape.typeNames] using hbuiltin) hparts
  | simpleContentRestriction base own facets members any =>
    exact gives_own_simpleRestriction (by simpa [Shape.typeNames] using hbuiltin) hparts
  | complexDerivation how base own members any =>
    exact gives_own_derivation hwhole (by simpa [Shape.typeNames] using hbuiltin) hparts
  | modelGroup order bounds items =>
    refine gives_own_modelGroup (by rintro rfl; cases hcopy) (fun i hi => ?_) fun i hi => ?_
    · exact hparts.suits .item i (by simpa [Shape.parts] using hi)
    · exact hgives .item i (by simpa [Shape.parts] using hi) (by simp)
  | complexType co d members any model particle =>
    obtain rfl := eq_of_inner hinner (hunnamed rfl)
    obtain ⟨mixed, abstract⟩ := d
    obtain rfl : abstract = false := hexplicit
    exact gives_own_complexType hparts

theorem copy?_of_suits (hsuits : s.Suits role) (hrole : role ≠ .facet ∧ role ≠ .anyAttribute) :
    s.kind.copy?.isSome := by
  have hgroup {order : Order} {bounds : Occurs} {items : List Node} (horder : order ≠ .unspecified) :
      (Shape.modelGroup order bounds items).kind.copy?.isSome := by
    cases order with
    | unspecified => exact absurd rfl horder
    | _ => rfl
  cases hsuits with
  | facet => exact absurd rfl hrole.1
  | anyAttribute => exact absurd rfl hrole.2
  | particle _ _ _ horder | item _ _ _ horder | groupContent _ _ _ horder => exact hgroup horder
  | complexDerivation how => cases how <;> rfl
  | _ => rfl

theorem gives_fixed (h : Fits Fixed role n) (hrole : role ≠ .facet ∧ role ≠ .anyAttribute) (c : Context)
    (path : List ComponentKey) : (inlineChild c path (.plain n)).Gives n := by
  refine Fits.induction (motive := fun role n => role ≠ .facet ∧ role ≠ .anyAttribute →
    (inlineChild c path (.plain n)).Gives n) (fun role s h ih hrole => ?_) h hrole
  have hsuits := h.suits h.built.here.reference
  refine gives_own h.built.here h.inner (copy?_of_suits hsuits hrole) ⟨fun r m hm => ?_, fun r m hm hr => ih r m hm hr⟩
  have hpart := h.built.part hm
  exact hpart.suits hpart.built.here.reference

theorem exists_enter_nil (key : Option ComponentKey) : ∃ inside, enter [] key = .ok inside := by
  cases key with
  | none => exact ⟨[], rfl⟩
  | some k => exact ⟨[k], by simp [enter]⟩

/-- An element of fixed constructs that stands at the top is what comes of asking for it. -/
theorem Seed.gives_fixed (h : n.Built Fixed) (hkind : n.shape.kind = .element) (htop : n.shape.isTopLevel)
    (c : Context) : ((Seed.element n true).inline c).Gives n := by
  obtain ⟨s⟩ := n
  obtain ⟨co, d, own, rfl⟩ := Shape.exists_of_kind_element hkind
  obtain ⟨name, topLevel⟩ := co
  obtain rfl : topLevel = true := htop
  obtain ⟨typeName, head, bounds, nillable, abstract, default, fixed, form⟩ := d
  have hfixed := h.here
  obtain ⟨rfl, rfl, rfl⟩ : head = none ∧ bounds = .once ∧ form = none := hfixed.explicit
  have hown (m : Node) (hm : m ∈ own) (path : List ComponentKey) : (inlineChild c path (.plain m)).Gives m := by
    have hpart := h.part (show (Role.elementType, m) ∈ _ by simp [Node.shape, Shape.parts, Option.mem_def.1 hm])
    exact Extraction.gives_fixed hpart (by simp) c path
  refine gives_bind.2 ⟨_, ?_, gives_pure.2 rfl⟩
  change (inlineEdits c [] [.change (.element _), .follow ⟨.element ⟨name, true⟩ _ own⟩] _).Gives _
  rw [inlineEdits_change]
  obtain ⟨inside, henter⟩ := exists_enter_nil ((⟨.element ⟨name, true⟩
    ⟨typeName, none, .once, nillable, abstract, default, fixed, none⟩ own⟩ : Node).shape.key? c.source.space)
  refine gives_follow.2 ⟨inside, henter, _, ?_, gives_done⟩
  exact gives_typeEdits_own (fun q own =>
    .element ⟨name, true⟩ ⟨q, none, .once, nillable, abstract, default, fixed, none⟩ own) (fun _ => rfl) (fun _ => rfl)
    (by simpa [Node.shape, Shape.typeNames] using hfixed.builtin) hfixed.oneType fun m hm => hown m hm inside

end Trees

end PayloadSchema.Extraction
