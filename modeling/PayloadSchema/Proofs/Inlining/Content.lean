import PayloadSchema.Proofs.Inlining.Acceptance

/-!
# What the rules make of content

Every rule for a construct that takes elements is followed to its end.  Where the children that it asks for are
copied to trees that take the same elements, the copy takes the same elements as its node.
-/

namespace PayloadSchema.Extraction

open Schema Copying

variable {c : Context} {path : List ComponentKey} {t : Schema} {rest : List Edit} {shape r : Shape Node}

/-! ## Particles -/

section Particles

variable {slot : Slot} {particle : Option Node}

/-- A particle is copied to one that takes the same elements, and goes into its slot. -/
theorem gives_particleEdits (hs : c.source.Proper)
    (hkept : AllKept c path t (particleEdits c.source (.attach slot) particle))
    (h : (inlineEdits c path (particleEdits c.source (.attach slot) particle ++ rest) shape).Gives r) :
    ∃ particle', Option.Rel (AgreeOccurring c.source t) particle particle' ∧
      (inlineEdits c path rest (particle'.elim shape (slot.fill · shape))).Gives r := by
  cases particle with
  | none => exact ⟨none, .none, h⟩
  | some n =>
    cases hchild : particleChild c.source none n with
    | error f =>
      have hedits : particleEdits c.source (.attach slot) (some n) = [.stop f] := by
        simp [particleEdits, particleChild?, hchild, Except.map]
      rw [hedits, List.singleton_append, inlineEdits_stop] at h
      exact absurd h gives_throw
    | ok child =>
      have hedits : particleEdits c.source (.attach slot) (some n) = [.attach slot child] := by
        simp [particleEdits, particleChild?, hchild, Except.map]
      rw [hedits] at hkept h
      obtain ⟨m, hm, h⟩ := gives_attach.1 h
      have hchildKept := hkept _ List.mem_cons_self child List.mem_cons_self m hm
      exact ⟨some m, .some (hchildKept.occurring hs hchild), h⟩

theorem gives_itemEdits (hs : c.source.Proper) {order : Order} {o : Occurs} {items before : List Node}
    (hkept : AllKept c path t (items.flatMap fun i => particleEdits c.source (.attach .item) (some i)))
    (h : (inlineEdits c path (items.flatMap fun i => particleEdits c.source (.attach .item) (some i))
      (.modelGroup order o before)).Gives r) :
    ∃ items', List.Forall₂ (AgreeOccurring c.source t) items items' ∧
      r = .modelGroup order o (before ++ items') := by
  induction items generalizing before with
  | nil =>
    rw [List.flatMap_nil, inlineEdits_nil, gives_pure] at h
    exact ⟨[], .nil, by rw [← h, List.append_nil]⟩
  | cons n items ih =>
    rw [List.flatMap_cons] at hkept h
    obtain ⟨hfirst, hothers⟩ := allKept_append.1 hkept
    obtain ⟨_, hrel, h⟩ := gives_particleEdits hs hfirst h
    cases hrel with
    | some hm =>
      obtain ⟨items', hitems, hr⟩ := ih hothers h
      exact ⟨_ :: items', .cons hm hitems, by rw [hr, List.append_assoc]; rfl⟩

/-- Where two particles are merged, what the first one takes is followed by what the second one takes. -/
theorem gives_mergedParticleEdits (hs : c.source.Proper) {base : ComponentKey} {inherited own : Option Node}
    (hkept : AllKept c path t (mergedParticleEdits c.source base inherited own))
    (h : (inlineEdits c path (mergedParticleEdits c.source base inherited own) shape).Gives r) :
    ∃ particle, r = particle.elim shape (Slot.particle.fill · shape) ∧ ∀ builtin word,
      Holding builtin t particle word ↔ ∃ first second, Holding builtin c.source inherited first ∧
        Holding builtin c.source own second ∧ word = first ++ second := by
  have hchildKept {key : Option ComponentKey} {n m : Node} {child : Child} {e : Edit}
      (he : e ∈ mergedParticleEdits c.source base inherited own) (hmem : child ∈ e.children)
      (hchild : particleChild c.source key n = .ok child) (hm : (inlineChild c path child).Gives m) :
      AgreeOccurring c.source t n m :=
    (hkept e he child hmem m hm).occurring hs hchild
  cases inherited with
  | none =>
    have hedits : mergedParticleEdits c.source base none own =
        particleEdits c.source (.attach .particle) own := by
      unfold mergedParticleEdits particleEdits
      cases particleChild? c.source none own with
      | error f => rfl
      | ok second => cases second <;> rfl
    rw [hedits] at hkept h
    rw [← List.append_nil (particleEdits c.source (.attach .particle) own)] at h
    obtain ⟨particle, hparticle, h⟩ := gives_particleEdits hs hkept h
    rw [inlineEdits_nil, gives_pure] at h
    refine ⟨particle, h.symm, fun builtin word => ?_⟩
    simp [← holding_congr hparticle, holding_none]
  | some n =>
    cases hfirst : particleChild c.source (some base) n with
    | error f =>
      have hedits : mergedParticleEdits c.source base (some n) own = [.stop f] := by
        simp [mergedParticleEdits, particleChild?, hfirst, Except.map]
      rw [hedits, inlineEdits_stop] at h
      exact absurd h gives_throw
    | ok first =>
      cases own with
      | none =>
        have hedits : mergedParticleEdits c.source base (some n) none = [.attach .particle first] := by
          simp [mergedParticleEdits, particleChild?, hfirst, Except.map]
        rw [hedits] at hchildKept h
        obtain ⟨m, hm, h⟩ := gives_attach.1 h
        rw [inlineEdits_nil, gives_pure] at h
        refine ⟨some m, h.symm, fun builtin word => ?_⟩
        have hagree := hchildKept List.mem_cons_self List.mem_cons_self hfirst hm
        rw [← holding_congr (.some hagree)]
        simp [holding_none]
      | some n' =>
        cases hsecond : particleChild c.source none n' with
        | error f =>
          have hedits : mergedParticleEdits c.source base (some n) (some n') =
              [.discard first, .stop f] := by
            simp [mergedParticleEdits, particleChild?, hfirst, hsecond, Except.map]
          rw [hedits] at h
          have hstop := (gives_discard.1 h).2
          rw [inlineEdits_stop] at hstop
          exact absurd hstop gives_throw
        | ok second =>
          have hedits : mergedParticleEdits c.source base (some n) (some n') =
              [.attachSequence first second] := by
            simp [mergedParticleEdits, particleChild?, hfirst, hsecond, Except.map]
          rw [hedits] at hchildKept h
          obtain ⟨a, ha, b, hb, h⟩ := gives_attachSequence.1 h
          rw [inlineEdits_nil, gives_pure] at h
          have hagree := hchildKept List.mem_cons_self (by simp [Edit.children]) hfirst ha
          have hagree' := hchildKept List.mem_cons_self (by simp [Edit.children]) hsecond hb
          refine ⟨some ⟨.modelGroup .sequence .once [a, b]⟩, h.symm, fun builtin word => ?_⟩
          simp only [holding_iff, occurring_pair, hagree builtin, hagree' builtin]

end Particles

/-! ## Declarations -/

section Declarations

theorem gives_typeEdits {q : Option QName} {own own' : Option Node} {co : Component} {d : ElementDecl}
    (hkept : AllKept c path t (typeEdits c.source false q own))
    (h : (inlineEdits c path (typeEdits c.source false q own) (.element co d own')).Gives r) :
    ∃ name type, r = .element co { d with typeName := name } type ∧ ∀ builtin word,
      Typed builtin c.source q own word ↔ Typed builtin t name type word := by
  have hattach {n : Node} (hkept : AllKept c path t [.attach .type (.plain n)])
      (h : (inlineEdits c path [.attach .type (.plain n)] (.element co d own')).Gives r) :
      ∃ m, r = .element co { d with typeName := none } (some m) ∧ Agree c.source t n m := by
    obtain ⟨m, hm, h⟩ := gives_attach.1 h
    rw [inlineEdits_nil, gives_pure] at h
    exact ⟨m, h.symm, (hkept _ List.mem_cons_self _ List.mem_cons_self m hm).agree⟩
  cases q with
  | some q =>
    cases hq : q.isBuiltin with
    | true =>
      rw [typeEdits, if_pos hq, inlineEdits_change, inlineEdits_nil, gives_pure] at h
      exact ⟨some q, none, h.symm, fun builtin word => by rw [typed_builtin hq, typed_builtin hq]⟩
    | false =>
      simp only [typeEdits, hq, Bool.false_eq_true, if_false, Bool.false_and] at hkept h
      cases hfind : c.source.find? .types (some q) with
      | none =>
        rw [hfind] at h
        simp only [Edit.fail, inlineEdits_stop] at h
        exact absurd h gives_throw
      | some n =>
        rw [hfind] at hkept h
        obtain ⟨m, hr, hagree⟩ := hattach hkept h
        refine ⟨none, some m, hr, fun builtin word => ?_⟩
        rw [typed_named hq hfind, typed_own, hagree]
  | none =>
    cases own with
    | some n =>
      obtain ⟨m, hr, hagree⟩ := hattach hkept h
      exact ⟨none, some m, hr, fun builtin word => by rw [typed_own, typed_own, hagree]⟩
    | none =>
      rw [typeEdits, inlineEdits_change, inlineEdits_nil, gives_pure] at h
      exact ⟨none, none, h.symm, fun builtin word => by rw [typed_untyped, typed_untyped]⟩

/-- The copy of an element takes the same as the element, where it is given the same name. -/
theorem agree_element {co co' : Component} {d d' : ElementDecl} {own own' : Option Node}
    (hname : (Shape.element co' d' own').wireName? t = (Shape.element co d own).wireName? c.source)
    (hkept : AllKept c path t (typeEdits c.source false d.typeName own))
    (h : (inlineEdits c path (typeEdits c.source false d.typeName own) (.element co' d' own')).Gives r) :
    Agree c.source t ⟨.element co d own⟩ ⟨r⟩ := by
  obtain ⟨name, type, rfl, htyped⟩ := gives_typeEdits hkept h
  intro builtin word
  have hname' : (Shape.element co' { d' with typeName := name } type).wireName? t =
      (Shape.element co d own).wireName? c.source := hname
  rw [takes_element, takes_element, hname']
  simp only [htyped]

end Declarations

/-! ## Types -/

section Types

theorem Agree.of_erase {s : Schema} {n : Node} (h : Agree s t n ⟨r.eraseAttributes⟩) : Agree s t n ⟨r⟩ :=
  fun builtin word => (h builtin word).trans takes_eraseAttributes

theorem eraseAttributes_elim_fill {slot : Slot} (hslot : slot ≠ .attribute) (x : Option Node)
    (shape : Shape Node) : (x.elim shape (slot.fill · shape)).eraseAttributes =
      x.elim shape.eraseAttributes (slot.fill · shape.eraseAttributes) := by
  cases x with
  | none => rfl
  | some m => exact eraseAttributes_fill hslot m shape

theorem agree_complexContent {mixed mixed' : Option Bool} {content content' : Option Node} {kind : Kind}
    (hkept : AllKept c path t (contentEdits kind content))
    (h : (inlineEdits c path (contentEdits kind content) (.complexContent mixed' content')).Gives r) :
    Agree c.source t ⟨.complexContent mixed content⟩ ⟨r⟩ := by
  cases content with
  | none =>
    rw [contentEdits, Edit.fail, inlineEdits_stop] at h
    exact absurd h gives_throw
  | some n =>
    obtain ⟨m, hm, h⟩ := gives_attach.1 h
    rw [inlineEdits_nil, gives_pure] at h
    have hagree := (hkept _ List.mem_cons_self _ List.mem_cons_self m hm).agree
    intro builtin word
    rw [← h, Slot.fill, takes_complexContent, takes_complexContent]
    exact hagree builtin word

theorem agree_complexType (hs : c.source.Proper) {co co' : Component} {d d' : ComplexDecl}
    {members members' : List Node} {any any' model particle : Option Node}
    (hkept : AllKept c path t (complexTypeEdits c.source true members any model particle))
    (h : (inlineEdits c path (complexTypeEdits c.source true members any model particle)
      (.complexType co' d' members' any' none none)).Gives r) :
    Agree c.source t ⟨.complexType co d members any model particle⟩ ⟨r⟩ := by
  simp only [complexTypeEdits, if_true, List.append_assoc] at hkept h
  obtain ⟨-, hkept⟩ := allKept_append.1 hkept
  obtain ⟨hmodel, hparticle⟩ := allKept_append.1 hkept
  obtain ⟨shape, herase, h⟩ := gives_idle (fun e he => idle_attributeEdits he) h
  obtain ⟨model', hmodel', h⟩ : ∃ model', Option.Rel (Agree c.source t) model model' ∧
      (inlineEdits c path (particleEdits c.source (.attach .particle) particle)
        (model'.elim shape (Slot.model.fill · shape))).Gives r := by
    cases model with
    | none => exact ⟨none, .none, h⟩
    | some n =>
      obtain ⟨m, hm, h⟩ := gives_attach.1 h
      exact ⟨some m, .some (hmodel _ List.mem_cons_self _ List.mem_cons_self m hm).agree, h⟩
  rw [← List.append_nil (particleEdits c.source (.attach .particle) particle)] at h
  obtain ⟨particle', hparticle', h⟩ := gives_particleEdits hs hparticle h
  rw [inlineEdits_nil, gives_pure] at h
  have hr : r.eraseAttributes = .complexType co' d' [] none model' particle' := by
    rw [← h, eraseAttributes_elim_fill (by simp), eraseAttributes_elim_fill (by simp), herase]
    cases model' <;> cases particle' <;> rfl
  refine Agree.of_erase fun builtin word => ?_
  rw [hr, takes_complexType, takes_complexType]
  cases hparticle' with
  | some hagree => exact hagree builtin word
  | none =>
    cases hmodel' with
    | some hagree => exact hagree builtin word
    | none => exact Iff.rfl

end Types

/-! ## Derivations -/

section Derivations

variable {base base' : Option QName} {particle any any' : Option Node} {members members' : List Node}
  {hasAny : Bool}

theorem agree_restriction (hs : c.source.Proper)
    (hkept : AllKept c path t (restrictionEdits c.source base particle members hasAny))
    (h : (inlineEdits c path (restrictionEdits c.source base particle members hasAny)
      (.complexDerivation .restriction base' none members' any')).Gives r) :
    Agree c.source t ⟨.complexDerivation .restriction base particle members any⟩ ⟨r⟩ := by
  simp only [restrictionEdits, List.append_assoc] at hkept h
  obtain ⟨-, hkept⟩ := allKept_append.1 hkept
  obtain ⟨shape, herase, h⟩ := gives_idle (fun e he => idle_attributeEdits he) h
  obtain ⟨particle', hparticle, h⟩ := gives_particleEdits hs (allKept_append.1 hkept).1 h
  rw [inlineEdits_change, inlineEdits_nil, gives_pure] at h
  obtain ⟨q, hr⟩ : ∃ q, r.eraseAttributes = .complexDerivation .restriction q particle' [] none := by
    rw [← h, eraseAttributes_change, eraseAttributes_elim_fill (by simp), herase]
    cases particle' <;> exact ⟨_, rfl⟩
  refine Agree.of_erase fun builtin word => ?_
  rw [hr, takes_restriction, takes_restriction, holding_congr hparticle]

theorem takes_extension_builtin {s : Schema} {builtin : QName → List Document → Prop} {word : List Document}
    (h : ∀ q ∈ base, q.isBuiltin) :
    Takes builtin s ⟨.complexDerivation .extension base particle members any⟩ word ↔
      Holding builtin s particle word := by
  rw [takes_extension]
  simp [based_builtin h]

/-- What a complex type gives to its extensions is what it takes, unless it extends another type itself. -/
theorem holding_inherited {s : Schema} {builtin : QName → List Document → Prop} {word : List Document}
    {co : Component} {d : ComplexDecl} {outer : List Node} {model own : Option Node} {given : Inherited}
    (hmodel : ∀ m ∈ model, m.Plays .model) (hsimple : ∀ content, model ≠ some ⟨.simpleContent content⟩)
    (honce : Node.extended? ⟨.complexType co d outer any model own⟩ = none)
    (h : inherited outer any model own = .ok given) :
    Holding builtin s given.particle word ↔
      Takes builtin s ⟨.complexType co d outer any model own⟩ word := by
  rw [takes_complexType]
  cases own with
  | some p =>
    have hparticle : given.particle = some p := by
      unfold inherited at h
      grind
    rw [hparticle]
    exact holding_iff
  | none =>
    cases model with
    | none =>
      cases h
      exact holding_iff
    | some m =>
      obtain ⟨content, rfl⟩ | ⟨mixed, content, rfl⟩ := model_cases (hmodel m rfl)
      · exact absurd rfl (hsimple content)
      show Holding builtin s given.particle word ↔ Takes builtin s ⟨.complexContent mixed content⟩ word
      rw [takes_complexContent]
      cases content with
      | none =>
        cases h
        exact holding_iff
      | some content =>
        have hpart : (Role.complexDerivation, content) ∈
            (Shape.complexContent mixed (some content)).parts := by
          simp [Shape.parts]
        obtain ⟨how, b, p, inner, innerAny, rfl⟩ := derivation_parts ((hmodel _ rfl).built.part hpart)
        cases h
        cases how with
        | restriction => exact takes_restriction.symm
        | extension =>
          refine (takes_extension_builtin ?_).symm
          rintro q ⟨⟩
          simpa [Node.extended?] using honce

theorem agree_plainExtension (hs : c.source.Proper) {b : Option QName} (hbase : ∀ q ∈ base, q.isBuiltin)
    (hb : ∀ q ∈ b, q.isBuiltin)
    (hkept : AllKept c path t (.change (.base b) :: attributeEdits c.source true none [] hasAny members ++
      particleEdits c.source (.attach .particle) particle))
    (h : (inlineEdits c path (.change (.base b) :: attributeEdits c.source true none [] hasAny members ++
      particleEdits c.source (.attach .particle) particle)
      (.complexDerivation .extension base' none members' any')).Gives r) :
    Agree c.source t ⟨.complexDerivation .extension base particle members any⟩ ⟨r⟩ := by
  rw [List.cons_append, inlineEdits_change] at h
  obtain ⟨shape, herase, h⟩ := gives_idle (fun e he => idle_attributeEdits he) h
  rw [← List.append_nil (particleEdits c.source (.attach .particle) particle)] at h
  obtain ⟨particle', hparticle, h⟩ := gives_particleEdits hs (allKept_append.1 hkept).2 h
  rw [inlineEdits_nil, gives_pure] at h
  have hr : r.eraseAttributes = .complexDerivation .extension b particle' [] none := by
    rw [← h, eraseAttributes_elim_fill (by simp), herase]
    cases particle' <;> rfl
  refine Agree.of_erase fun builtin word => ?_
  rw [hr, takes_extension_builtin hbase, takes_extension_builtin hb, holding_congr hparticle]

/-- An extension of what is inherited takes that first and then what is its own. -/
theorem gives_mergeEdits (hs : c.source.Proper) {q : QName} {given : Inherited}
    (hkept : AllKept c path t (mergeEdits c.source q given particle members hasAny))
    (h : (inlineEdits c path (mergeEdits c.source q given particle members hasAny)
      (.complexDerivation .extension base' none members' any')).Gives r) {builtin word} :
    Takes builtin t ⟨r⟩ word ↔ ∃ first second, Holding builtin c.source given.particle first ∧
      Holding builtin c.source particle second ∧ word = first ++ second := by
  have hwarning : ∀ e ∈ given.dropped.toList.map fun b => Edit.warn
      ("Only one level of inheritance is merged for " ++ q.toText ++ ", content inherited from " ++
        QName.optionText b ++ " is dropped"), e.IsIdle := by
    intro e he
    obtain ⟨b, -, rfl⟩ := List.mem_map.1 he
    exact .warn
  have hwild {b : Bool} : ∀ e ∈ if b then [] else wildcardEdits given.any, e.IsIdle := by
    intro e he
    cases b with
    | true => cases he
    | false => exact idle_wildcardEdits he
  simp only [mergeEdits, List.append_assoc, List.cons_append] at hkept h
  have hmerged := (allKept_append.1 (allKept_append.1 (allKept_append.1 hkept).2.tail).2).2
  obtain ⟨shape, hwarned, h⟩ := gives_idle hwarning h
  rw [inlineEdits_change] at h
  obtain ⟨shape', hmembers, h⟩ := gives_idle (fun e he => idle_attributeListEdits he) h
  obtain ⟨shape'', hany, h⟩ := gives_idle hwild h
  obtain ⟨particle', hr, hholding⟩ := gives_mergedParticleEdits hs hmerged h
  have herase : r.eraseAttributes = .complexDerivation .extension (some anyType) particle' [] none := by
    rw [hr, eraseAttributes_elim_fill (by simp), hany, hmembers, eraseAttributes_change, hwarned]
    cases particle' <;> rfl
  rw [← takes_eraseAttributes, herase, takes_extension_builtin (by rintro _ ⟨⟩; rfl)]
  exact hholding builtin word

/-- The copy of an extension takes the same as the extension, unless its base extends another type itself. -/
theorem agree_extension (hs : c.source.Proper)
    (honce : ∀ q n, base = some q → q.isBuiltin = false → c.source.find? .types (some q) = some n →
      n.extended? = none)
    (hkept : AllKept c path t (extensionEdits c.source base particle members hasAny))
    (h : (inlineEdits c path (extensionEdits c.source base particle members hasAny)
      (.complexDerivation .extension base' none members' any')).Gives r) :
    Agree c.source t ⟨.complexDerivation .extension base particle members any⟩ ⟨r⟩ := by
  have hfail {p : Problem} (h : (inlineEdits c path [.fail p]
      (.complexDerivation .extension base' none members' any')).Gives r) : False := by
    rw [Edit.fail, inlineEdits_stop] at h
    exact gives_throw h
  cases base with
  | none => exact agree_plainExtension hs (by simp) (by rintro _ ⟨⟩; rfl) hkept h
  | some q =>
    cases hq : q.isBuiltin with
    | true =>
      rw [extensionEdits, if_pos hq] at hkept h
      exact agree_plainExtension hs (by simpa using hq) (by simpa using hq) hkept h
    | false =>
      generalize hedits : extensionEdits c.source (some q) particle members hasAny = es at hkept h
      simp only [extensionEdits, hq, Bool.false_eq_true, if_false] at hedits
      split at hedits
      · rw [← hedits] at h
        exact (hfail h).elim
      · rename_i n hfind
        have hentry := (hs.find hfind).2
        split at hedits
        · rw [← hedits] at h
          exact (hfail h).elim
        · rename_i co d outer outerAny model own hsimple hshape
          obtain ⟨shape⟩ := n
          cases hshape
          split at hedits
          · rename_i hgiven
            rw [← hedits, inlineEdits_stop] at h
            exact absurd h gives_throw
          · rename_i given hgiven
            rw [← hedits] at hkept h
            have hmodel (m : Node) (hm : m ∈ model) : m.Plays .model := by
              have hpart : (Role.model, m) ∈ (Shape.complexType co d outer outerAny model own).parts := by
                simpa [Shape.parts] using hm
              exact hentry.proper.part hpart
            intro builtin word
            rw [gives_mergeEdits hs hkept h, takes_extension]
            have hbase (first : List Document) : Based builtin c.source (some q) first ↔
                Holding builtin c.source given.particle first := by
              rw [based_named hq hfind]
              exact (holding_inherited hmodel (fun content hm => hsimple content hm) (honce q _ rfl hq hfind)
                hgiven).symm
            simp only [hbase]
        · rw [← hedits] at h
          exact (hfail h).elim

end Derivations

end PayloadSchema.Extraction
