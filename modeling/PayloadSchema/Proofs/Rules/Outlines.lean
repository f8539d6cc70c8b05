import PayloadSchema.Proofs.Schema.Reading
import PayloadSchema.Proofs.Written.SettledConstructs

/-!
# The start of a copy

A copy starts with what its origin says of itself, without the names of types, and with the facets and the wildcard
that the origin holds.  Whatever is known of copies from their start on is read off from this.
-/

namespace PayloadSchema.Schema.Shape

variable {α β : Type} {s : Shape α} {x : String}

def attributeName? : Shape α → Option String
  | .attribute c _ _ => c.name
  | _ => none

theorem kind_of_attributeName? (h : s.attributeName? = some x) : s.kind = .attribute := by
  cases s <;> first | rfl | cases h

@[simp] theorem attributeName?_map (f : α → β) (s : Shape α) :
    (s.map f).attributeName? = s.attributeName? := by
  cases s <;> rfl

@[simp] theorem attributeName?_withOccurs (o : Occurs) (s : Shape α) :
    (s.withOccurs o).attributeName? = s.attributeName? := by
  cases s <;> rfl

end PayloadSchema.Schema.Shape

namespace PayloadSchema.Extraction

open Schema

/-- A construct that a copy has inside of it from the start, and the one that it repeats. -/
inductive Repeated (n : Node) : Node → Prop where
  | facet {f : Facet} (h : n.shape.facet? = some f) : Repeated n ⟨.facet f⟩
  | wildcard {w : Wildcard} (h : n.shape.wildcard? = some w) : Repeated n ⟨.anyAttribute w⟩

/-- What is known of the start of the copy of a construct: it says no more than the construct, names no type, and
stands inside. -/
structure Outlines (origin s : Shape Node) : Prop where
  inside : s.isTopLevel = false
  explicit : s.Explicit
  typeNames : s.typeNames = []
  members : s.members = []
  texts : ∀ t ∈ s.texts, t ∈ origin.texts
  occurs : ∀ o ∈ s.occurs?, o ∈ origin.occurs?
  facet : s.facet? = none
  attributeName : ∀ x ∈ s.attributeName?, x ∈ origin.attributeName?
  children : ∀ m ∈ s.children, ∃ n ∈ origin.children, Repeated n m

section Outlines

variable {n : Node} {s : Shape Node} {any o : Option Node} {facets ns : List Node}

private theorem repeated_outlineAny (h : outlineAny any = .ok o) : ∀ m ∈ o, ∃ n ∈ any, Repeated n m := by
  cases any with
  | none =>
    cases h
    rintro _ ⟨⟩
  | some n =>
    rw [outlineAny] at h
    split at h
    · rename_i w hw
      cases h
      rintro _ ⟨rfl⟩
      exact ⟨n, rfl, .wildcard hw⟩
    · cases h

private theorem repeated_outlineFacets (h : outlineFacets facets = .ok ns) :
    ∀ m ∈ ns, ∃ n ∈ facets, Repeated n m := by
  induction facets generalizing ns with
  | nil =>
    cases h
    simp
  | cons n facets ih =>
    rw [outlineFacets, List.mapM_cons] at h
    obtain ⟨first, hfirst, h⟩ := Reader.bind_eq_ok.1 h
    obtain ⟨others, hothers, h⟩ := Reader.bind_eq_ok.1 h
    cases h
    refine List.forall_mem_cons.2 ⟨⟨n, List.mem_cons_self, ?_⟩, fun m hm => ?_⟩
    · split at hfirst
      · rename_i f hf
        cases hfirst
        exact .facet hf
      · cases hfirst
    · obtain ⟨n', hn', hm⟩ := ih hothers m hm
      exact ⟨n', List.mem_cons_of_mem n hn', hm⟩

private theorem outlines_bare {origin : Shape Node} (hchildren : s.children = []) (hinside : s.isTopLevel = false)
    (hexplicit : s.Explicit) (hnames : s.typeNames = []) (hmembers : s.members = [])
    (htexts : ∀ t ∈ s.texts, t ∈ origin.texts) (hoccurs : ∀ o ∈ s.occurs?, o ∈ origin.occurs?)
    (hfacet : s.facet? = none) (hattribute : ∀ x ∈ s.attributeName?, x ∈ origin.attributeName?) :
    Outlines origin s :=
  ⟨hinside, hexplicit, hnames, hmembers, htexts, hoccurs, hfacet, hattribute, by simp [hchildren]⟩

private theorem outlines_silent {origin : Shape Node}
    (hchildren : ∀ m ∈ s.children, ∃ n ∈ origin.children, Repeated n m)
    (hinside : s.isTopLevel = false) (hexplicit : s.Explicit) (hnames : s.typeNames = []) (hmembers : s.members = [])
    (htexts : s.texts = []) (hoccurs : s.occurs? = none) (hfacet : s.facet? = none)
    (hattribute : s.attributeName? = none) : Outlines origin s :=
  ⟨hinside, hexplicit, hnames, hmembers, by simp [htexts], by simp [hoccurs], hfacet, by simp [hattribute], hchildren⟩

/-- The start of a copy says no more than its origin, and nothing is inside of it but what it repeats. -/
theorem outlines_outline (h : outline n = .ok s) : Outlines n.shape s := by
  have hany {any o : Option Node} (h : outlineAny any = .ok o) (hinner : ∀ m ∈ any, m ∈ n.shape.children) :
      ∀ m ∈ o, ∃ n' ∈ n.shape.children, Repeated n' m := by
    intro m hm
    obtain ⟨n', hn', hrepeated⟩ := repeated_outlineAny h m hm
    exact ⟨n', hinner n' hn', hrepeated⟩
  have hfacets {facets ns : List Node} (h : outlineFacets facets = .ok ns)
      (hinner : ∀ m ∈ facets, m ∈ n.shape.children) : ∀ m ∈ ns, ∃ n' ∈ n.shape.children, Repeated n' m := by
    intro m hm
    obtain ⟨n', hn', hrepeated⟩ := repeated_outlineFacets h m hm
    exact ⟨n', hinner n' hn', hrepeated⟩
  obtain ⟨shape⟩ := n
  cases shape with
  | schemaNode | facet | anyAttribute | attributeGroupRef | attributeGroup | groupRef | group => cases h
  | elementRef ref bounds =>
    cases h
    exact outlines_bare rfl rfl ⟨rfl, rfl⟩ rfl rfl (by simp [Shape.texts, ElementDecl.texts]) (fun _ ho => ho) rfl
      (by simp [Shape.attributeName?])
  | element c d own =>
    cases h
    exact outlines_bare rfl rfl ⟨rfl, rfl⟩ rfl rfl (fun _ ht => ht) (fun _ ho => ho) rfl (fun _ hx => hx)
  | attributeRef ref usage =>
    cases h
    exact outlines_bare rfl rfl rfl rfl rfl (by simp [Node.shape, Shape.texts]) (fun _ ho => ho) rfl
      (by simp [Shape.attributeName?])
  | «attribute» c d own =>
    cases h
    exact outlines_bare rfl rfl rfl rfl rfl (fun _ ht => ht) (fun _ ho => ho) rfl (fun _ hx => hx)
  | wildcard w o =>
    cases h
    exact outlines_bare rfl rfl trivial rfl rfl (fun _ ht => ht) (fun _ ho => ho) rfl (fun _ hx => hx)
  | modelGroup order bounds items =>
    cases order with
    | unspecified => cases h
    | sequence | choice | all =>
      cases h
      exact outlines_bare rfl rfl trivial rfl rfl (fun _ ht => ht) (fun _ ho => ho) rfl (fun _ hx => hx)
  | simpleType | simpleList | simpleUnion | simpleContent | complexContent =>
    cases h
    exact outlines_silent (by simp [Shape.children]) rfl trivial rfl rfl rfl rfl rfl rfl
  | complexType c d attributes any model particle =>
    obtain ⟨o, ho, h⟩ := Reader.bind_eq_ok.1 h
    cases h
    have ho' := hany ho fun m hm => by simp [Node.shape, Shape.children, Option.mem_def.1 hm]
    exact outlines_silent (by simpa [Shape.children] using ho') rfl rfl rfl rfl rfl rfl rfl rfl
  | simpleRestriction base own facets =>
    obtain ⟨ns, hns, h⟩ := Reader.bind_eq_ok.1 h
    cases h
    have hns' := hfacets hns fun m hm => by simp [Node.shape, Shape.children, hm]
    exact outlines_silent (by simpa [Shape.children] using hns') rfl trivial rfl rfl rfl rfl rfl rfl
  | simpleContentExtension base attributes any =>
    obtain ⟨o, ho, h⟩ := Reader.bind_eq_ok.1 h
    cases h
    have ho' := hany ho fun m hm => by simp [Node.shape, Shape.children, Option.mem_def.1 hm]
    exact outlines_silent (by simpa [Shape.children] using ho') rfl trivial rfl rfl rfl rfl rfl rfl
  | simpleContentRestriction base own facets attributes any =>
    obtain ⟨ns, hns, h⟩ := Reader.bind_eq_ok.1 h
    obtain ⟨o, ho, h⟩ := Reader.bind_eq_ok.1 h
    cases h
    have hns' := hfacets hns fun m hm => by simp [Node.shape, Shape.children, hm]
    have ho' := hany ho fun m hm => by simp [Node.shape, Shape.children, Option.mem_def.1 hm]
    refine outlines_silent (fun m hm => ?_) rfl trivial rfl rfl rfl rfl rfl rfl
    have hm' : m ∈ ns ∨ m ∈ o := by simpa [Shape.children] using hm
    exact hm'.elim (hns' m) (ho' m)
  | complexDerivation how base particle attributes any =>
    obtain ⟨o, ho, h⟩ := Reader.bind_eq_ok.1 h
    cases h
    have ho' := hany ho fun m hm => by simp [Node.shape, Shape.children, Option.mem_def.1 hm]
    exact outlines_silent (by simpa [Shape.children] using ho') rfl trivial rfl rfl rfl rfl rfl rfl

end Outlines

end PayloadSchema.Extraction
