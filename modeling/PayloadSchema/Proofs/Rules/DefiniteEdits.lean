import PayloadSchema.Proofs.Rules.LawfulRules
import PayloadSchema.Proofs.Written.SettledConstructs

/-!
# Definite edits

Where every construct of a source can be written and read and has a lower bound wherever it has bounds, so has
everything that the rules of copying take over from the source: the bounds of a child, what a change says, and what a
wildcard lets in.
-/

namespace PayloadSchema.Schema

variable {α : Type} {ok : Char → Prop} {s : Shape α}

/-! ## Views of a construct -/

theorem Shape.texts_of_wildcard? {w : Wildcard} (h : s.wildcard? = some w) : s.texts = w.texts := by
  cases s <;> cases h <;> rfl

theorem Shape.mem_typeNames_of_base? {base : Option QName} (h : s.base? = some base) {q : QName} (hq : q ∈ base) :
    q ∈ s.typeNames := by
  cases s <;> cases h <;> simpa [Shape.typeNames] using hq

theorem Shape.mem_children_of_any? {any : Option α} (h : s.any? = some any) {x : α} (hx : x ∈ any) :
    x ∈ s.children := by
  cases s <;> cases h <;> simp_all [Shape.children]

theorem Shape.mem_children_of_particle? {particle : Option α} (h : s.particle? = some particle) {x : α}
    (hx : x ∈ particle) : x ∈ s.children := by
  cases s <;> cases h <;> simp_all [Shape.children]

theorem Shape.mem_children_of_content? {content : Option α} (h : s.content? = some content) {x : α}
    (hx : x ∈ content) : x ∈ s.children := by
  cases s <;> cases h <;> simp_all [Shape.children]

/-- The name of a component is one of its texts, if the component is a declaration. -/
theorem Shape.mem_texts_of_component? {c : Component} (hkind : s.kind = .element ∨ s.kind = .attribute)
    (h : s.component? = some c) {name : String} (hname : c.name = some name) : name ∈ s.texts := by
  cases s with
  | modelGroup order _ _ => cases order <;> simp [Shape.kind] at hkind
  | complexDerivation how _ _ _ _ => cases how <;> simp [Shape.kind] at hkind
  | element | «attribute» =>
    cases h
    simp [Shape.texts, hname]
  | _ => simp [Shape.kind] at hkind

/-- A well-formed schema all of whose constructs can be written and read. -/
structure Definite (ok : Char → Prop) (s : Schema) : Prop extends s.Proper where
  nodes : ∀ n, Contains s n → n.shape.Definite ok

end PayloadSchema.Schema

namespace PayloadSchema.Extraction

open Schema

/-! ## What an edit says -/

def Child.Definite (child : Child) : Prop :=
  ∀ o ∈ child.bounds, o.Short ∧ o.min.isSome

/-- A change that says only what can be written and read.  It gives a name or a form only to what is inside. -/
def Change.Definite (ok : Char → Prop) (inside : Prop) : Change → Prop
  | .name own => inside ∧ ∀ t ∈ own, Carried ok t
  | .form f => inside ∧ Carried ok f
  | .typeName q | .base q => ∀ r ∈ q, Spellable ok r
  | .member q => Spellable ok q ∧ Text.NoBlank q.name.toList
  | .element d => ∀ t ∈ d.texts, Carried ok t
  | .attribute u => ∀ t ∈ u.texts, Carried ok t

/-- An edit that says only what can be written and read.  It never goes on with a reference. -/
def Edit.Definite (ok : Char → Prop) (inside : Prop) : Edit → Prop
  | .attach _ child | .discard child => child.Definite
  | .attachSequence first second => first.Definite ∧ second.Definite
  | .follow n => n.shape.isReference = false
  | .change ch => ch.Definite ok inside
  | .wildcard w => ∀ t ∈ w.texts, Carried ok t
  | .warn _ | .stop _ => True

def AllDefinite (ok : Char → Prop) (inside : Prop) (es : List Edit) : Prop :=
  ∀ e ∈ es, e.Definite ok inside

section Lists

variable {ok : Char → Prop} {inside : Prop} {e : Edit} {es fs : List Edit}

theorem AllDefinite.nil : AllDefinite ok inside [] := by
  simp [AllDefinite]

theorem AllDefinite.cons (he : e.Definite ok inside) (hes : AllDefinite ok inside es) :
    AllDefinite ok inside (e :: es) :=
  List.forall_mem_cons.2 ⟨he, hes⟩

theorem AllDefinite.single (he : e.Definite ok inside) : AllDefinite ok inside [e] :=
  .cons he .nil

theorem AllDefinite.append (hes : AllDefinite ok inside es) (hfs : AllDefinite ok inside fs) :
    AllDefinite ok inside (es ++ fs) :=
  List.forall_mem_append.2 ⟨hes, hfs⟩

theorem definite_attach {slot : Slot} {child : Child} (h : child.Definite) :
    (Edit.attach slot child).Definite ok inside :=
  h

theorem definite_plain {n : Node} : (Child.plain n).Definite := by
  simp [Child.Definite, Child.plain]

end Lists

variable {ok : Char → Prop} {inside : Prop} {s : Schema} {n m : Node}

/-! ## Attributes -/

section Attributes

variable {key : Option ComponentKey} {met : List QName} {accepts hasAny : Bool} {ns : List Node}

theorem definite_wildcardEdits {any : Option Node} (hany : ∀ m ∈ any, m.shape.Definite ok) :
    AllDefinite ok inside (wildcardEdits any) := by
  unfold wildcardEdits
  split
  · exact .nil
  · rename_i m
    split
    · rename_i w hw
      refine .single fun t ht => (hany m rfl).texts t ?_
      rwa [Shape.texts_of_wildcard? hw]
    · exact .single trivial

theorem definite_attributeEdits (hs : s.Definite ok) :
    AllDefinite ok inside (attributeEdits s accepts key met hasAny ns) := by
  fun_induction attributeEdits s accepts key met hasAny ns with
  | case1 => exact .nil
  | case2 | case3 | case4 | case6 | case8 => exact .single trivial
  | case5 met hasAny m ms q hshape g hfind hnew members any hmembers hany inner hasAny' wild ih₁ ih₂ =>
    refine (ih₁.append ?_).append ih₂
    simp only [wild]
    split
    · exact .nil
    · refine definite_wildcardEdits fun w hw => hs.nodes w ?_
      exact (contains_of_find? hfind).child (Shape.mem_children_of_any? hany hw)
  | case7 met hasAny m ms _ hnone hsome ih =>
    exact .cons (by simp [Edit.Definite, Child.Definite]) ih

theorem definite_attributeListEdits (hs : s.Definite ok) {lists : List (Option ComponentKey × List Node)} :
    AllDefinite ok inside (attributeListEdits s hasAny lists) := by
  induction lists generalizing hasAny with
  | nil => exact .nil
  | cons l lists ih =>
    rw [attributeListEdits]
    exact (definite_attributeEdits hs).append ih

end Attributes

/-! ## Types -/

section Types

variable {q : Option QName} {own content : Option Node}

theorem spellable_xsd (hok : AllowsPrintable ok) {name : String} (h : isPrintableText name)
    (hblank : name.toList.all fun c => !Text.isBlank c) : Spellable ok (xsd name) := by
  refine ⟨hok.carried h, Text.NoBlank.endsClean fun c hc => ?_⟩
  simpa using List.all_eq_true.1 hblank c hc

theorem definite_typeEdits {simpleOnly : Bool} (hq : ∀ r ∈ q, Spellable ok r) :
    AllDefinite ok inside (typeEdits s simpleOnly q own) := by
  unfold typeEdits
  split
  · rename_i r _
    split
    · exact .single hq
    · split
      · exact .single trivial
      · split
        · exact .single trivial
        · exact .single definite_plain
  · exact .single definite_plain
  · exact .single (by simp [Edit.Definite, Change.Definite])

theorem definite_memberEdits {q : QName} (hq : Spellable ok q) (hblank : Text.NoBlank q.name.toList) :
    AllDefinite ok inside (memberEdits s q) := by
  unfold memberEdits
  split
  · exact .single ⟨hq, hblank⟩
  · split
    · exact .single trivial
    · split
      · exact .single definite_plain
      · exact .single trivial

theorem spellable_simpleRoot (hok : AllowsPrintable ok) (hs : s.Definite ok)
    (hcontent : ∀ m ∈ content, Contains s m) {q : QName} (h : simpleRoot content = .ok q) : Spellable ok q := by
  have hinner {base : Option QName} {facets : List Node} {t m : Node}
      (hm : Contains s ⟨.simpleRestriction base (some t) facets⟩) (ht : m ∈ t.children) : Contains s m := by
    have htype : Contains s t := hm.child (by simp [Node.children, Node.shape, Shape.children])
    exact htype.child ht
  fun_induction simpleRoot content with
  | case1 q' own facets =>
    cases h
    exact (hs.nodes _ (hcontent _ rfl)).names _ (by simp [Node.shape, Shape.typeNames])
  | case2 c content facets ih | case3 content facets ih | case4 mixed content facets ih =>
    refine ih (fun m hm => hinner (hcontent _ rfl) ?_) h
    simpa [Node.children, Node.shape, Shape.children] using hm
  | case5 => cases h
  | case6 =>
    cases h
    exact spellable_xsd hok (by decide) (by decide)

theorem spellable_baseChain (hok : AllowsPrintable ok) (hs : s.Definite ok) {withAttributes : Bool}
    {met : List QName} {base root : Option QName} (hbase : ∀ q ∈ base, Spellable ok q)
    (h : (baseChain s withAttributes met base).root = .ok root) : ∀ q ∈ root, Spellable ok q := by
  -- the derivation in a type with simple content is a construct of the source
  have hderivation {q : QName} {t content : Node} {c : Component} {d : ComplexDecl} {outer : List Node}
      {any own : Option Node} (hfind : s.find? .types (some q) = some t)
      (hshape : t.shape = .complexType c d outer any (some ⟨.simpleContent (some content)⟩) own) :
      Contains s content := by
    have hmodel : Contains s ⟨.simpleContent (some content)⟩ :=
      (contains_of_find? hfind).child (by simp [Node.children, hshape, Shape.children])
    exact hmodel.child (by simp [Node.children, Node.shape, Shape.children])
  have hnext {content : Node} (hcontent : Contains s content) {base : Option QName}
      (hbase : content.shape.base? = some base) : ∀ q ∈ base, Spellable ok q :=
    fun q hq => (hs.nodes _ hcontent).names q (Shape.mem_typeNames_of_base? hbase hq)
  fun_induction baseChain s withAttributes met base with
  | case1 =>
    cases h
    simp
  | case2 =>
    cases h
    exact hbase
  | case3 | case4 | case6 | case7 | case8 | case10 | case12 => cases h
  | case5 met q hbuiltin hmet t hfind c content hshape root' hroot ih =>
    refine ih ?_ h
    rintro _ ⟨rfl⟩
    refine spellable_simpleRoot hok hs (fun m hm => ?_) hroot
    exact (contains_of_find? hfind).child (by simpa [Node.children, hshape, Shape.children] using hm)
  | case9 met q hbuiltin hmet t hfind c d outer any content own hshape members base hbase' hmembers hwith ih =>
    subst hwith
    exact ih (hnext (hderivation hfind hshape) hbase') h
  | case11 met q hbuiltin hmet t hfind c d outer any content own hshape base hbase' hwith ih =>
    subst hwith
    exact ih (hnext (hderivation hfind hshape) hbase') h

theorem definite_rootEdits (hok : AllowsPrintable ok) (hs : s.Definite ok) {withAttributes : Bool}
    {base : Option QName} (hbase : ∀ q ∈ base, Spellable ok q) :
    AllDefinite ok inside (rootEdits (baseChain s withAttributes [] base)) := by
  unfold rootEdits
  split
  · exact .single trivial
  · rename_i root hroot
    exact .single (spellable_baseChain hok hs hbase hroot)

end Types

/-! ## Particles -/

section Particles

variable {key : Option ComponentKey} {particle own : Option Node}

theorem definite_particleChild (hm : m.shape.Definite ok) {child : Child} (h : particleChild s key m = .ok child) :
    child.Definite := by
  unfold particleChild at h
  split at h
  · cases h
  · rename_i q bounds hshape
    have hbounds : m.shape.occurs? = some bounds := by rw [hshape]; rfl
    have hdefinite : bounds.Short ∧ bounds.min.isSome := ⟨hm.bounds _ hbounds, hm.bounded _ hbounds⟩
    split at h
    · cases h
    · split at h <;> cases h
      rintro _ ⟨rfl⟩
      exact hdefinite
  all_goals
    cases h
    try simp [Child.Definite]

theorem definite_particleChild? (hm : ∀ m ∈ particle, m.shape.Definite ok) {child : Option Child}
    (h : particleChild? s key particle = .ok child) : ∀ a ∈ child, a.Definite := by
  intro a ha
  obtain ⟨m, hmem, hchild⟩ := exists_of_particleChild? h ha
  exact definite_particleChild (hm m hmem) hchild

theorem definite_particleEdits {use : Child → Edit} (huse : ∀ a, a.Definite → (use a).Definite ok inside)
    (hm : ∀ m ∈ particle, m.shape.Definite ok) : AllDefinite ok inside (particleEdits s use particle) := by
  unfold particleEdits
  split
  · exact .single trivial
  · rename_i child hchild
    intro e he
    obtain ⟨a, ha, rfl⟩ := List.mem_map.1 he
    exact huse a (definite_particleChild? hm hchild a (by simpa using ha))

theorem definite_mergedParticleEdits {base : ComponentKey} {inherited : Option Node}
    (hinherited : ∀ m ∈ inherited, m.shape.Definite ok) (hown : ∀ m ∈ own, m.shape.Definite ok) :
    AllDefinite ok inside (mergedParticleEdits s base inherited own) := by
  unfold mergedParticleEdits
  split
  · exact .single trivial
  · rename_i first hfirst
    have hfirst' := definite_particleChild? hinherited hfirst
    split
    · refine .append (fun e he => ?_) (.single trivial)
      obtain ⟨a, ha, rfl⟩ := List.mem_map.1 he
      exact hfirst' a (by simpa using ha)
    · rename_i a b hsecond
      exact .single ⟨hfirst' a rfl, definite_particleChild? hown hsecond b rfl⟩
    · rename_i a _
      exact .single (hfirst' a rfl)
    · rename_i second hsecond
      intro e he
      obtain ⟨b, hb, rfl⟩ := List.mem_map.1 he
      exact definite_particleChild? hown hsecond b (by simpa using hb)

end Particles

/-! ## Derivations -/

section Derivations

variable {base : Option QName} {particle own any model : Option Node} {attributes outer : List Node} {hasAny : Bool}

theorem contains_inherited (hany : ∀ m ∈ any, Contains s m) (hown : ∀ m ∈ own, Contains s m)
    (hmodel : ∀ m ∈ model, Contains s m) {given : Inherited} (h : inherited outer any model own = .ok given) :
    (∀ m ∈ given.particle, Contains s m) ∧ ∀ m ∈ given.any, Contains s m := by
  unfold inherited at h
  split at h
  · cases h
    exact ⟨hown, hany⟩
  · rename_i m
    split at h
    · cases h
    · cases h
      exact ⟨hown, hany⟩
    · rename_i content hcontent
      have hinner : Contains s content :=
        (hmodel m rfl).child (Shape.mem_children_of_content? hcontent rfl)
      dsimp only at h
      split at h
      · rename_i p inner base hparticle _ _
        cases h
        refine ⟨fun x hx => ?_, hany⟩
        cases own with
        | some o =>
          cases hparticle
          exact hown x hx
        | none => exact hinner.child (Shape.mem_children_of_particle? hparticle hx)
      · cases h

theorem definite_mergeEdits (hok : AllowsPrintable ok) (hs : s.Definite ok) {q : QName} {given : Inherited}
    (hgiven : (∀ m ∈ given.particle, Contains s m) ∧ ∀ m ∈ given.any, Contains s m)
    (hparticle : ∀ m ∈ particle, m.shape.Definite ok) :
    AllDefinite ok inside (mergeEdits s q given particle attributes hasAny) := by
  unfold mergeEdits
  refine ((AllDefinite.append ?_ (.cons ?_ (definite_attributeListEdits hs))).append ?_).append ?_
  · intro e he
    obtain ⟨b, -, rfl⟩ := List.mem_map.1 he
    trivial
  · rintro _ ⟨rfl⟩
    exact spellable_xsd hok (by decide) (by decide)
  · split
    · exact .nil
    · exact definite_wildcardEdits fun m hm => hs.nodes m (hgiven.2 m hm)
  · exact definite_mergedParticleEdits (fun m hm => hs.nodes m (hgiven.1 m hm)) hparticle

theorem definite_extensionEdits (hok : AllowsPrintable ok) (hs : s.Definite ok)
    (hbase : ∀ q ∈ base, Spellable ok q) (hparticle : ∀ m ∈ particle, m.shape.Definite ok) :
    AllDefinite ok inside (extensionEdits s base particle attributes hasAny) := by
  have hplain {b : QName} (hb : Spellable ok b) : AllDefinite ok inside (.change (.base (some b)) ::
      attributeEdits s true none [] hasAny attributes ++ particleEdits s (.attach .particle) particle) := by
    refine (AllDefinite.cons ?_ (definite_attributeEdits hs)).append
      (definite_particleEdits (fun _ => definite_attach) hparticle)
    rintro _ ⟨rfl⟩
    exact hb
  unfold extensionEdits
  split
  · exact hplain (spellable_xsd hok (by decide) (by decide))
  · rename_i q
    split
    · exact hplain (hbase q rfl)
    · split
      · exact .single trivial
      · rename_i t hfind
        have ht := contains_of_find? hfind
        split
        · exact .single trivial
        · rename_i c d outer any model own _ htype
          have hchild {m : Node} (hm : m ∈ t.shape.children) : Contains s m := ht.child hm
          rw [htype] at hchild
          split
          · exact .single trivial
          · rename_i given hgiven
            refine definite_mergeEdits hok hs (contains_inherited ?_ ?_ ?_ hgiven) hparticle <;>
              exact fun m hm => hchild (by simp_all [Shape.children])
        · exact .single trivial

theorem definite_restrictionEdits (hok : AllowsPrintable ok) (hs : s.Definite ok)
    (hbase : ∀ q ∈ base, Spellable ok q) (hparticle : ∀ m ∈ particle, m.shape.Definite ok) :
    AllDefinite ok inside (restrictionEdits s base particle attributes hasAny) := by
  unfold restrictionEdits
  refine ((definite_attributeEdits hs).append
    (definite_particleEdits (fun _ => definite_attach) hparticle)).append (.single ?_)
  split
  · exact hbase
  · rintro _ ⟨rfl⟩
    exact spellable_xsd hok (by decide) (by decide)

end Derivations

/-! ## Declarations -/

section Declarations

private theorem not_reference (hs : s.Proper) {table : TableName} {q : Option QName}
    (htable : table = .elements ∨ table = .attributes) (hfind : s.find? table q = some m) :
    (m.shape.kind = .element ∨ m.shape.kind = .attribute) ∧ m.shape.isReference = false := by
  cases q with
  | none => cases hfind
  | some q =>
    have hadmits := (hs.find hfind).2.admits
    obtain ⟨shape⟩ := m
    rcases htable with rfl | rfl <;> cases shape with
      | element => exact ⟨.inl rfl, rfl⟩
      | «attribute» => exact ⟨.inr rfl, rfl⟩
      | modelGroup order _ _ => cases order <;> cases hadmits
      | complexDerivation how _ _ _ _ => cases how <;> cases hadmits
      | _ => cases hadmits

theorem definite_followEdits {target : Kind} (hm : m.shape.Definite ok) (hreference : m.shape.isReference = false) :
    AllDefinite ok inside (followEdits target m) := by
  unfold followEdits
  split
  · rename_i c d own hshape
    split
    · refine .cons (fun t ht => hm.texts t ?_) (.single hreference)
      rw [hshape]
      exact List.mem_append_right _ ht
    · exact .single trivial
  · rename_i c d own hshape
    split
    · refine .cons (fun t ht => hm.texts t ?_) (.single hreference)
      rw [hshape]
      exact List.mem_append_left _ (List.mem_append_right _ ht)
    · exact .single trivial
  · split
    · exact .single hreference
    · exact .single trivial
  · exact .single hreference

theorem definite_referenceEdits (hok : AllowsPrintable ok) (hs : s.Definite ok) (hinside : inside) {table : TableName}
    {target : Kind} {form : String} {ref : Option QName} (htable : table = .elements ∨ table = .attributes) :
    AllDefinite ok inside (referenceEdits s table target form ref) := by
  unfold referenceEdits
  split
  · exact .single trivial
  · rename_i m hfind
    obtain ⟨hkind, hreference⟩ := not_reference hs.toProper htable hfind
    have hm : m.shape.Definite ok := by
      cases ref with
      | none => cases hfind
      | some q => exact hs.nodes m (contains_of_find? hfind)
    refine (AllDefinite.cons ?_ ?_).append (definite_followEdits hm hreference)
    · refine ⟨hinside, fun name hname => hm.texts name ?_⟩
      obtain ⟨c, hc, hname⟩ := Option.bind_eq_some_iff.1 hname
      exact Shape.mem_texts_of_component? hkind hc hname
    · split
      · exact .nil
      · exact .single ⟨hinside, hok.carried (by decide)⟩

theorem definite_elementEdits (hs : s.Definite ok) {target : Kind} {d : ElementDecl} {own : Option Node}
    (hname : ∀ q ∈ d.typeName, Spellable ok q) : AllDefinite ok inside (elementEdits s target d own) := by
  unfold elementEdits
  split
  · exact definite_typeEdits hname
  · rename_i q _
    split
    · exact .single trivial
    · rename_i head hfind
      exact definite_followEdits (hs.nodes head (contains_of_find? hfind))
        (not_reference hs.toProper (.inl rfl) hfind).2

theorem definite_contentEdits {kind : Kind} {content : Option Node} :
    AllDefinite ok inside (contentEdits kind content) := by
  unfold contentEdits
  split
  · exact .single trivial
  · exact .single definite_plain

theorem definite_complexTypeEdits (hs : s.Definite ok) {accepts : Bool} {attributes : List Node}
    {any model particle : Option Node} (hparticle : ∀ m ∈ particle, m.shape.Definite ok) :
    AllDefinite ok inside (complexTypeEdits s accepts attributes any model particle) := by
  unfold complexTypeEdits
  have hput (slot : Slot) (child : Child) (h : child.Definite) :
      (if accepts then Edit.attach slot child else .discard child).Definite ok inside := by
    split <;> exact h
  refine ((definite_attributeEdits hs).append ?_).append (definite_particleEdits (fun a ha => hput _ a ha) hparticle)
  intro e he
  obtain ⟨m, -, rfl⟩ := List.mem_map.1 he
  exact hput _ _ definite_plain

end Declarations

/-- The rules say of every construct of the source only what can be written and read.  What is copied in place of a
reference has to be inside of the target. -/
theorem definite_edits {c : Context} {target : Kind} (hok : AllowsPrintable ok) (hs : c.source.Definite ok)
    (hn : Contains c.source n) (hinside : n.shape.isReference → inside) :
    AllDefinite ok inside (edits c target n) := by
  have hself := hs.nodes n hn
  have hchild (m : Node) (hm : m ∈ n.shape.children) : m.shape.Definite ok := hs.nodes m (hn.child hm)
  obtain ⟨shape⟩ := n
  have hname {q : Option QName} (hq : ∀ r ∈ q, r ∈ shape.typeNames) : ∀ r ∈ q, Spellable ok r :=
    fun r hr => hself.names r (hq r hr)
  cases shape with
  | schemaNode | facet | anyAttribute | attributeGroupRef | attributeGroup | groupRef | group =>
    exact .single trivial
  | wildcard => exact .nil
  | elementRef ref bounds => exact definite_referenceEdits hok hs (hinside rfl) (.inl rfl)
  | attributeRef ref usage => exact definite_referenceEdits hok hs (hinside rfl) (.inr rfl)
  | element own d type => exact definite_elementEdits hs (hname (by simp [Shape.typeNames]))
  | «attribute» own d type => exact definite_typeEdits (hname (by simp [Shape.typeNames]))
  | simpleType own content =>
    intro e he
    obtain ⟨m, -, rfl⟩ := List.mem_map.1 he
    split <;> exact definite_plain
  | simpleRestriction base own facets => exact definite_typeEdits (hname (by simp [Shape.typeNames]))
  | simpleList item own => exact definite_typeEdits (hname (by simp [Shape.typeNames]))
  | simpleUnion members types =>
    refine AllDefinite.append (fun e he => ?_) fun e he => ?_
    · obtain ⟨t, -, rfl⟩ := List.mem_map.1 he
      exact definite_plain
    · obtain ⟨q, hq, he⟩ := List.mem_flatMap.1 he
      exact definite_memberEdits (hself.names q hq) (hself.members q hq) e he
  | complexType own d attributes any model particle =>
    exact definite_complexTypeEdits hs fun m hm => hchild m (by simp_all [Node.shape, Shape.children])
  | simpleContent content => exact definite_contentEdits
  | complexContent mixed content => exact definite_contentEdits
  | simpleContentExtension base attributes any =>
    refine ((definite_attributeListEdits hs).append (definite_rootEdits hok hs ?_)).append (definite_attributeEdits hs)
    exact hname (by simp [Shape.typeNames])
  | simpleContentRestriction base own facets attributes any =>
    refine ((definite_attributeEdits hs).append fun e he => ?_).append (definite_rootEdits hok hs ?_)
    · obtain ⟨t, -, rfl⟩ := List.mem_map.1 he
      exact definite_plain
    · exact hname (by simp [Shape.typeNames])
  | complexDerivation how base particle attributes any =>
    have hbase : ∀ q ∈ base, Spellable ok q := hname (by simp [Shape.typeNames])
    have hparticle : ∀ m ∈ particle, m.shape.Definite ok :=
      fun m hm => hchild m (by simp_all [Node.shape, Shape.children])
    cases how with
    | extension => exact definite_extensionEdits hok hs hbase hparticle
    | restriction => exact definite_restrictionEdits hok hs hbase hparticle
  | modelGroup order bounds items =>
    have hitems : AllDefinite ok inside (items.flatMap fun i => particleEdits c.source (.attach .item) (some i)) := by
      intro e he
      obtain ⟨i, hi, he⟩ := List.mem_flatMap.1 he
      refine definite_particleEdits (fun _ => definite_attach) ?_ e he
      rintro _ ⟨rfl⟩
      exact hchild i (by simpa [Node.shape, Shape.children] using hi)
    cases order with
    | unspecified => exact .single trivial
    | sequence | choice | all => exact hitems

end PayloadSchema.Extraction
