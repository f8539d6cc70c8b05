import Mathlib.Data.List.Forall2
import PayloadSchema.Proofs.Log.Reports
import PayloadSchema.Schema.Reader

/-!
# Names and prefixes

A schema is read alike from two elements that say the same with different prefixes.  Two elements say the same if they
are the same construct, if the attributes whose values are names stand for the same names, if their other attributes
are the same, and if their children say the same one by one.  What is not a construct of a schema, and what stands
inside of it, has no part in this.
-/

namespace PayloadSchema.Schema.Reader

open Xml (Element Scope)

/-! ## Elements that say the same -/

def Construct.nameKeys : Construct → List String
  | .element => ["ref", "type", "substitutionGroup"]
  | .attribute => ["ref", "type"]
  | .group | .attributeGroup => ["ref"]
  | .extension | .restriction => ["base"]
  | .list => ["itemType"]
  | .union => ["memberTypes"]
  | _ => []

def memberNames (e : Element) : List (Except Fault QName) :=
  (Text.words ((e.attribute? "memberTypes").getD "")).map (resolve e.scope)

/-- The attributes of two elements say the same of a construct: names stand for the same, and all else is the same. -/
structure SayAlike (c : Construct) (e e' : Element) : Prop where
  names : ∀ key ∈ c.nameKeys, key ≠ "memberTypes" → name? e key = name? e' key
  members : c = .union → memberNames e = memberNames e'
  texts : ∀ key ∉ c.nameKeys, e.attribute? key = e'.attribute? key

/-- Two elements that say the same, whatever prefixes they use. -/
inductive Alike : Element → Element → Prop where
  | foreign {e e' : Element} (htag : e.tag = e'.tag) (hnone : construct? e = none) : Alike e e'
  | construct {e e' : Element} {c : Construct} (htag : e.tag = e'.tag) (hconstruct : construct? e = some c)
      (hsay : c ≠ .other → SayAlike c e e') (hchildren : List.Forall₂ Alike e.children e'.children) : Alike e e'

structure ReadAlike (es es' : List Element) : Prop where
  elementType (own : Option Node) : elementType own es = elementType own es'
  innerSimpleType (own : Option Node) : innerSimpleType own es = innerSimpleType own es'
  simpleTypes : simpleTypes es = simpleTypes es'
  attributes (any : Option Node) : attributes any es = attributes any es'
  simpleTypeContent (content : Option Node) : simpleTypeContent content es = simpleTypeContent content es'
  items : items es = items es'
  innerParticle (groups : Bool) (own : Option Node) : innerParticle groups own es = innerParticle groups own es'
  complexParts (model own : Option Node) : complexParts model own es = complexParts model own es'
  simpleDerivation (content : Option Node) : simpleDerivation content es = simpleDerivation content es'
  complexDerivation (content : Option Node) : complexDerivation content es = complexDerivation content es'
  facets : facets es = facets es'

/-- Two elements of which the same is read, by what they say and by what is read of their children. -/
structure Concur (e e' : Element) : Prop where
  tag : e.tag = e'.tag
  say {c : Construct} : construct? e = some c → c ≠ .other → SayAlike c e e'
  inner {c : Construct} : construct? e = some c → ReadAlike e.children e'.children

theorem construct?_eq {e e' : Element} (h : e.tag = e'.tag) : construct? e = construct? e' := by
  rw [construct?, construct?, h]

/-! ## Attributes -/

section Attributes

variable {c : Construct} {e e' : Element} {key : String}

def allNameKeys : List String :=
  ["ref", "type", "substitutionGroup", "base", "itemType", "memberTypes"]

theorem nameKeys_subset (c : Construct) : c.nameKeys ⊆ allNameKeys := by
  cases c <;> simp [Construct.nameKeys, allNameKeys]

theorem SayAlike.text (h : SayAlike c e e') (hkey : key ∉ allNameKeys) : e.attribute? key = e'.attribute? key :=
  h.texts key fun hmem => hkey (nameKeys_subset c hmem)

theorem SayAlike.flag (h : SayAlike c e e') (hkey : key ∉ allNameKeys) : flag e key = flag e' key := by
  rw [Reader.flag, Reader.flag, h.text hkey]

theorem SayAlike.occurs (h : SayAlike c e e') : occurs e = occurs e' := by
  rw [Reader.occurs, Reader.occurs, h.text (by decide), h.text (by decide)]

theorem SayAlike.usage (h : SayAlike c e e') : usage e = usage e' := by
  rw [Reader.usage, Reader.usage, h.text (by decide), h.text (by decide), h.text (by decide)]

theorem SayAlike.wildcard (h : SayAlike c e e') : wildcard e = wildcard e' := by
  rw [Reader.wildcard, Reader.wildcard, h.text (by decide), h.text (by decide)]

theorem SayAlike.component (h : SayAlike c e e') (topLevel : Bool) : component e topLevel = component e' topLevel := by
  rw [Reader.component, Reader.component, h.text (by decide)]

theorem mapM_eq_of_map_eq {α β ε γ : Type} {f : α → Except ε γ} {g : β → Except ε γ} {l : List α} {l' : List β}
    (h : l.map f = l'.map g) : l.mapM f = l'.mapM g := by
  have hmap : ∀ {δ : Type} (f : δ → Except ε γ) (l : List δ), l.mapM f = (l.map f).mapM id := by
    intro δ f l
    rw [List.mapM_map]
    rfl
  rw [hmap f, hmap g, h]

end Attributes

/-! ## Constructs by themselves -/

section Constructs

variable {e e' : Element}

theorem Concur.construct (h : Concur e e') : construct? e = construct? e' :=
  construct?_eq h.tag

theorem Concur.simpleType (h : Concur e e') (hc : construct? e = some .simpleType) : simpleType e = simpleType e' := by
  have hcomponent := (h.say hc (by decide)).component false
  have hcontent := (h.inner hc).simpleTypeContent none
  cases e
  cases e'
  rw [Reader.simpleType, Reader.simpleType, hcomponent]
  exact congrArg (· >>= _) hcontent

theorem Concur.attributeOrRef (h : Concur e e') (hc : construct? e = some .attribute) (topLevel : Bool) :
    attributeOrRef topLevel e = attributeOrRef topLevel e' := by
  have hsay := h.say hc (by decide)
  have hown := (h.inner hc).innerSimpleType none
  have href := hsay.names "ref" (by decide) (by decide)
  have htype := hsay.names "type" (by decide) (by decide)
  have hform : e.attribute? "form" = e'.attribute? "form" := hsay.text (by decide)
  have husage := hsay.usage
  have hcomponent := hsay.component topLevel
  cases e
  cases e'
  dsimp only [Element.children] at hown
  rw [Reader.attributeOrRef, Reader.attributeOrRef, href, htype, husage, hcomponent, hform, hown]

theorem Concur.element (h : Concur e e') (hc : construct? e = some .element) (topLevel : Bool) :
    element topLevel e = element topLevel e' := by
  have hsay := h.say hc (by decide)
  have hown := (h.inner hc).elementType none
  have href := hsay.names "ref" (by decide) (by decide)
  have htype := hsay.names "type" (by decide) (by decide)
  have hhead := hsay.names "substitutionGroup" (by decide) (by decide)
  have hnillable : flag e "nillable" = flag e' "nillable" := hsay.flag (by decide)
  have habstract : flag e "abstract" = flag e' "abstract" := hsay.flag (by decide)
  have hdefault : e.attribute? "default" = e'.attribute? "default" := hsay.text (by decide)
  have hfixed : e.attribute? "fixed" = e'.attribute? "fixed" := hsay.text (by decide)
  have hform : e.attribute? "form" = e'.attribute? "form" := hsay.text (by decide)
  have hoccurs := hsay.occurs
  have hcomponent := hsay.component topLevel
  cases e
  cases e'
  dsimp only [Element.children] at hown
  rw [Reader.element, Reader.element, href, htype, hhead, hoccurs, hcomponent, hnillable, habstract, hdefault, hfixed,
    hform, hown]

theorem Concur.particle (h : Concur e e') (hc : (∃ order, construct? e = some (.ordered order)) ∨
    construct? e = some .group) : particle e = particle e' := by
  have hconstruct := h.construct
  rcases hc with ⟨order, hc⟩ | hc
  · have hoccurs := (h.say hc (by simp)).occurs
    have hitems := (h.inner hc).items
    rw [hc] at hconstruct
    cases e
    cases e'
    dsimp only [Element.children] at hitems
    rw [Reader.particle, Reader.particle, hc, ← hconstruct, hoccurs]
    dsimp only
    rw [hitems]
  · have hsay := h.say hc (by decide)
    have href := hsay.names "ref" (by decide) (by decide)
    have hoccurs := hsay.occurs
    rw [hc] at hconstruct
    cases e
    cases e'
    rw [Reader.particle, Reader.particle, hc, ← hconstruct, href, hoccurs]

theorem Concur.complexType (h : Concur e e') (hc : construct? e = some .complexType) :
    complexType e = complexType e' := by
  have hsay := h.say hc (by decide)
  have hmembers := (h.inner hc).attributes none
  have hparts := (h.inner hc).complexParts none none
  have hmixed : flag e "mixed" = flag e' "mixed" := hsay.flag (by decide)
  have habstract : flag e "abstract" = flag e' "abstract" := hsay.flag (by decide)
  have hcomponent := hsay.component false
  cases e
  cases e'
  dsimp only [Element.children] at hmembers hparts
  rw [Reader.complexType, Reader.complexType, hmembers, hparts, hcomponent, hmixed, habstract]

theorem Concur.simpleContent (h : Concur e e') (hc : construct? e = some .simpleContent) :
    simpleContent e = simpleContent e' := by
  have hderivation := (h.inner hc).simpleDerivation none
  cases e
  cases e'
  dsimp only [Element.children] at hderivation
  rw [Reader.simpleContent, Reader.simpleContent, hderivation]

theorem Concur.complexContent (h : Concur e e') (hc : construct? e = some .complexContent) :
    complexContent e = complexContent e' := by
  have hsay := h.say hc (by decide)
  have hderivation := (h.inner hc).complexDerivation none
  have hgiven : e.attribute? "mixed" = e'.attribute? "mixed" := hsay.text (by decide)
  have hmixed : flag e "mixed" = flag e' "mixed" := hsay.flag (by decide)
  cases e
  cases e'
  dsimp only [Element.children] at hderivation
  rw [Reader.complexContent, Reader.complexContent, hderivation, hgiven, hmixed]

theorem Concur.group (h : Concur e e') (hc : construct? e = some .group) : group e = group e' := by
  rw [Reader.group, Reader.group, (h.say hc (by decide)).component, (h.inner hc).innerParticle]

theorem Concur.attributeGroup (h : Concur e e') (hc : construct? e = some .attributeGroup) :
    attributeGroup e = attributeGroup e' := by
  rw [Reader.attributeGroup, Reader.attributeGroup, (h.say hc (by decide)).component,
    (h.inner hc).attributes]

theorem Concur.facet? (h : Concur e e') : facet? e = facet? e' := by
  rw [Reader.facet?, Reader.facet?, ← h.construct]
  split
  · rename_i name hc
    have hsay := h.say hc (by simp)
    rw [hsay.text (by decide : "value" ∉ allNameKeys), hsay.flag (by decide : "fixed" ∉ allNameKeys)]
  · rfl

end Constructs

/-! ## Constructs beside each other -/

section Siblings

variable {es es' : List Element}

private theorem innerSimpleType_eq (h : List.Forall₂ Concur es es') (own : Option Node) :
    innerSimpleType own es = innerSimpleType own es' := by
  induction h generalizing own with
  | nil => rfl
  | cons he _ ih =>
    rw [innerSimpleType, innerSimpleType, ← he.construct]
    split
    · rename_i hc
      simp only [he.simpleType hc, ih]
    · exact ih own

private theorem simpleTypes_eq (h : List.Forall₂ Concur es es') : simpleTypes es = simpleTypes es' := by
  induction h with
  | nil => rfl
  | cons he _ ih =>
    rw [simpleTypes, simpleTypes, ← he.construct]
    split
    · rename_i hc
      simp only [he.simpleType hc, ih]
    · exact ih

private theorem facets_eq (h : List.Forall₂ Concur es es') : facets es = facets es' := by
  have hfacets : es.filterMap facet? = es'.filterMap facet? := by
    induction h with
    | nil => rfl
    | cons he _ ih => rw [List.filterMap_cons, List.filterMap_cons, he.facet?, ih]
  rw [facets, facets, hfacets]

private theorem elementType_eq (h : List.Forall₂ Concur es es') (own : Option Node) :
    elementType own es = elementType own es' := by
  induction h generalizing own with
  | nil => rfl
  | cons he _ ih =>
    rw [elementType, elementType, ← he.construct]
    split
    · rename_i hc
      simp only [he.simpleType hc, ih]
    · rename_i hc
      simp only [he.complexType hc, ih]
    · exact ih own

private theorem attributes_eq (h : List.Forall₂ Concur es es') (any : Option Node) :
    attributes any es = attributes any es' := by
  induction h generalizing any with
  | nil => rfl
  | cons he _ ih =>
    rw [attributes, attributes, ← he.construct]
    split
    · rename_i hc
      simp only [he.attributeOrRef hc, ih]
    · rename_i hc
      simp only [(he.say hc (by decide)).names "ref" (by decide) (by decide), ih]
    · rename_i hc
      rw [(he.say hc (by decide)).wildcard, ih]
    · exact ih any

private theorem simpleTypeContent_eq (h : List.Forall₂ Concur es es') (content : Option Node) :
    simpleTypeContent content es = simpleTypeContent content es' := by
  induction h generalizing content with
  | nil => rfl
  | @cons e e' _ _ he _ ih =>
    have hconstruct := he.construct
    obtain ⟨_, _, _, _, inner⟩ := e
    obtain ⟨_, _, _, _, inner'⟩ := e'
    rw [simpleTypeContent, simpleTypeContent, ← hconstruct]
    split
    · rename_i hc
      have hinner : ReadAlike inner inner' := he.inner hc
      simp only [(he.say hc (by decide)).names "base" (by decide) (by decide),
        hinner.innerSimpleType, hinner.facets, ih]
    · rename_i hc
      have hinner : ReadAlike inner inner' := he.inner hc
      simp only [(he.say hc (by decide)).names "itemType" (by decide) (by decide), hinner.innerSimpleType, ih]
    · rename_i hc
      have hinner : ReadAlike inner inner' := he.inner hc
      simp only [mapM_eq_of_map_eq ((he.say hc (by decide)).members rfl), hinner.simpleTypes, ih]
    · exact ih content

private theorem simpleDerivation_eq (h : List.Forall₂ Concur es es') (content : Option Node) :
    simpleDerivation content es = simpleDerivation content es' := by
  induction h generalizing content with
  | nil => rfl
  | @cons e e' _ _ he _ ih =>
    have hconstruct := he.construct
    obtain ⟨_, _, _, _, inner⟩ := e
    obtain ⟨_, _, _, _, inner'⟩ := e'
    rw [simpleDerivation, simpleDerivation, ← hconstruct]
    split
    · exact ih content
    · rename_i hsome
      -- the attributes are read before it is known whether the construct is a derivation
      obtain ⟨c, hc⟩ := Option.ne_none_iff_exists'.1 (mt Option.isNone_iff_eq_none.2 hsome)
      have hinner : ReadAlike inner inner' := he.inner hc
      rw [hinner.attributes]
      refine congrArg _ (funext fun members => ?_)
      dsimp only
      split
      · rename_i hc
        simp only [(he.say hc (by decide)).names "base" (by decide) (by decide), ih]
      · rename_i hc
        simp only [(he.say hc (by decide)).names "base" (by decide) (by decide), hinner.innerSimpleType, hinner.facets,
          ih]
      · exact ih content

private theorem complexDerivation_eq (h : List.Forall₂ Concur es es') (content : Option Node) :
    complexDerivation content es = complexDerivation content es' := by
  induction h generalizing content with
  | nil => rfl
  | @cons e e' _ _ he _ ih =>
    have hconstruct := he.construct
    obtain ⟨_, _, _, _, inner⟩ := e
    obtain ⟨_, _, _, _, inner'⟩ := e'
    rw [complexDerivation, complexDerivation, ← hconstruct]
    split
    iterate 2
      rename_i hc
      have hinner : ReadAlike inner inner' := he.inner hc
      simp only [(he.say hc (by decide)).names "base" (by decide) (by decide),
        hinner.attributes, hinner.innerParticle, ih]
    exact ih content

private theorem items_eq (h : List.Forall₂ Concur es es') : items es = items es' := by
  induction h with
  | nil => rfl
  | cons he _ ih =>
    rw [items, items, ← he.construct]
    split
    · rename_i hc
      simp only [he.element hc, ih]
    · rename_i order hc
      simp only [he.particle (.inl ⟨order, hc⟩), ih]
    · rename_i hc
      simp only [he.particle (.inr hc), ih]
    · rename_i hc
      have hsay := he.say hc (by decide)
      simp only [hsay.occurs, hsay.wildcard, ih]
    · exact ih

private theorem innerParticle_eq (h : List.Forall₂ Concur es es') (groups : Bool) (own : Option Node) :
    innerParticle groups own es = innerParticle groups own es' := by
  induction h generalizing own with
  | nil => rfl
  | cons he _ ih =>
    rw [innerParticle, innerParticle, ← he.construct]
    split
    · rename_i order hc
      simp only [he.particle (.inl ⟨order, hc⟩), ih]
    · rename_i hc
      simp only [he.particle (.inr hc), ih]
    · exact ih own

private theorem complexParts_eq (h : List.Forall₂ Concur es es') (model own : Option Node) :
    complexParts model own es = complexParts model own es' := by
  induction h generalizing model own with
  | nil => rfl
  | cons he _ ih =>
    rw [complexParts, complexParts, ← he.construct]
    split
    · rename_i order hc
      simp only [he.particle (.inl ⟨order, hc⟩), ih]
    · rename_i hc
      simp only [he.particle (.inr hc), ih]
    · rename_i hc
      simp only [he.simpleContent hc, ih]
    · rename_i hc
      simp only [he.complexContent hc, ih]
    · exact ih model own

/-- Elements of which the same is read one by one are read alike side by side. -/
theorem readAlike_of_concur (h : List.Forall₂ Concur es es') : ReadAlike es es' where
  elementType := elementType_eq h
  innerSimpleType := innerSimpleType_eq h
  simpleTypes := simpleTypes_eq h
  attributes := attributes_eq h
  simpleTypeContent := simpleTypeContent_eq h
  items := items_eq h
  innerParticle := innerParticle_eq h
  complexParts := complexParts_eq h
  simpleDerivation := simpleDerivation_eq h
  complexDerivation := complexDerivation_eq h
  facets := facets_eq h

end Siblings

/-! ## Schemas -/

section Schemas

variable {e e' : Element} {es es' : List Element}

theorem Alike.tag_eq (h : Alike e e') : e.tag = e'.tag := by
  cases h <;> assumption

theorem Alike.say {c : Construct} (h : Alike e e') (hc : construct? e = some c) (hother : c ≠ .other) :
    SayAlike c e e' := by
  cases h with
  | foreign _ hnone => cases hnone.symm.trans hc
  | construct _ hconstruct hsay =>
    cases hconstruct.symm.trans hc
    exact hsay hother

theorem Alike.children {c : Construct} (h : Alike e e') (hc : construct? e = some c) :
    List.Forall₂ Alike e.children e'.children := by
  cases h with
  | foreign _ hnone => cases hnone.symm.trans hc
  | construct _ _ _ hchildren => exact hchildren

theorem concur_of_alike : ∀ {es es' : List Element}, List.Forall₂ Alike es es' → List.Forall₂ Concur es es'
  | [], _, h => by
    cases h
    exact .nil
  | .mk tag attributes text scope inner :: rest, _, h => by
    obtain ⟨e', rest', he, hrest, rfl⟩ := List.forall₂_cons_left_iff.1 h
    refine .cons ⟨he.tag_eq, he.say, fun hc => readAlike_of_concur ?_⟩ (concur_of_alike hrest)
    exact @concur_of_alike inner e'.children (he.children hc)

/-- Two elements that hold the same schema, whatever prefixes they use. -/
structure HoldAlike (e e' : Element) : Prop where
  tag : e.tag = e'.tag
  texts : ∀ key ∈ ["targetNamespace", "elementFormDefault", "attributeFormDefault"], e.attribute? key = e'.attribute? key
  children : List.Forall₂ Alike e.children e'.children

theorem addConstruct_eq (h : Concur e e') (s : Schema) : addConstruct s e = addConstruct s e' := by
  rw [addConstruct, addConstruct, ← h.construct]
  split
  · rename_i hc
    rw [h.element hc]
  · rename_i hc
    rw [h.attributeOrRef hc]
  · rename_i hc
    rw [h.simpleType hc]
  · rename_i hc
    rw [h.complexType hc]
  · rename_i hc
    rw [h.group hc]
  · rename_i hc
    rw [h.attributeGroup hc]
  · rw [h.tag]
  · rfl

theorem foldlM_addConstruct_eq (h : List.Forall₂ Concur es es') (s : Schema) :
    es.foldlM addConstruct s = es'.foldlM addConstruct s := by
  induction h generalizing s with
  | nil => rfl
  | cons he _ ih =>
    rw [List.foldlM_cons, List.foldlM_cons, addConstruct_eq he]
    exact congrArg _ (funext ih)

/-- Of elements that hold the same schema, the same is read and the same is reported. -/
theorem HoldAlike.ofElement_eq (h : HoldAlike e e') : Schema.ofElement e = Schema.ofElement e' := by
  rw [Schema.ofElement, Schema.ofElement, h.texts "targetNamespace" (by decide),
    h.texts "elementFormDefault" (by decide), h.texts "attributeFormDefault" (by decide)]
  exact foldlM_addConstruct_eq (concur_of_alike h.children) _

end Schemas

end PayloadSchema.Schema.Reader
