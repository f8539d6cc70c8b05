import PayloadSchema.Proofs.Extraction.GatheredElements
import PayloadSchema.Proofs.Inlining.Acceptance
import PayloadSchema.Proofs.Inlining.ErasedAttributes

/-!
# Canonical trees

A construct is canonical when it says everything in one way only: what a copy leaves out it does not have, what a copy
chooses it has chosen, and what a copy demands it has.  Whatever is copied, the copy is canonical throughout.
-/

namespace PayloadSchema.Schema

variable {α β : Type}

def Shape.OneType : Shape α → Prop
  | .element _ d own => d.typeName.isSome → own = none
  | .attribute _ d own => d.typeName.isSome → own = none
  | .simpleRestriction base own _ => base.isSome → own = none
  | .simpleList item own => item.isSome → own = none
  | _ => True

theorem Shape.oneType_of_typeNames {s : Shape α} (h : s.typeNames = []) : s.OneType := by
  cases s <;> simp_all [Shape.typeNames, Shape.OneType]

/-- Whether a construct has a content, if it is there to have one, and a base, if complex content derives from it. -/
def Shape.Whole : Shape α → Prop
  | .simpleContent content | .complexContent _ content => content.isSome
  | .complexDerivation _ base _ _ _ => base.isSome
  | _ => True

/-- A construct that says everything in one way, and nothing that a copy leaves out. -/
structure Shape.Tidy (s : Shape α) : Prop where
  explicit : s.Explicit
  oneType : s.OneType

/-- A tidy construct that has what a copy demands. -/
structure Shape.Canonical (s : Shape α) : Prop extends s.Tidy where
  whole : s.Whole

theorem Shape.canonical_map {f : α → β} {s : Shape α} : (s.map f).Canonical ↔ s.Canonical := by
  have hexplicit : (s.map f).Explicit ↔ s.Explicit := by
    cases s <;> exact Iff.rfl
  have honeType : (s.map f).OneType ↔ s.OneType := by
    cases s <;> simp [Shape.map, Shape.OneType]
  have hwhole : (s.map f).Whole ↔ s.Whole := by
    cases s <;> simp [Shape.map, Shape.Whole]
  constructor
  · rintro ⟨⟨hx, ho⟩, hw⟩
    exact ⟨⟨hexplicit.1 hx, honeType.1 ho⟩, hwhole.1 hw⟩
  · rintro ⟨⟨hx, ho⟩, hw⟩
    exact ⟨⟨hexplicit.2 hx, honeType.2 ho⟩, hwhole.2 hw⟩

end PayloadSchema.Schema

namespace PayloadSchema.Extraction

open Schema Copying

/-! ## Edits of a construct -/

section Edits

variable {α : Type} {s : Shape α} {x y : α} {slot : Slot} {change : Change}

theorem tidy_fill (hs : s.Tidy) : (slot.fill x s).Tidy := by
  obtain ⟨hexplicit, honeType⟩ := hs
  constructor <;> cases slot <;> cases s <;>
    simp_all [Slot.fill, Shape.addAttribute, Shape.Explicit, Shape.OneType]

theorem tidy_withAny (hs : s.Tidy) (any : Option α) : (s.withAny any).Tidy := by
  obtain ⟨hexplicit, honeType⟩ := hs
  constructor <;> cases s <;> simp_all [Shape.withAny, Shape.Explicit, Shape.OneType]

theorem tidy_withOccurs (hs : s.Tidy) (hinside : s.isTopLevel = false) (o : Occurs) : (s.withOccurs o).Tidy := by
  obtain ⟨hexplicit, honeType⟩ := hs
  constructor <;> cases s <;>
    simp_all [Shape.withOccurs, Shape.Explicit, Shape.OneType, Shape.isTopLevel, Shape.component?]

theorem tidy_withOwnType (hs : s.Tidy) (hown : ∃ t, s.ownType? = some (some t)) (own : Option α) :
    (s.withOwnType own).Tidy := by
  obtain ⟨hexplicit, honeType⟩ := hs
  obtain ⟨t, ht⟩ := hown
  constructor <;> cases s <;> simp_all [Shape.withOwnType, Shape.ownType?, Shape.Explicit, Shape.OneType]

theorem canonical_fill (hs : s.Canonical) : (slot.fill x s).Canonical := by
  refine ⟨tidy_fill hs.toTidy, ?_⟩
  have hwhole := hs.whole
  cases slot <;> cases s <;> simp_all [Slot.fill, Shape.addAttribute, Shape.Whole]

theorem canonical_addAttribute (hs : s.Canonical) : (s.addAttribute x).Canonical := by
  have hfill : (Slot.attribute.fill x s).Canonical := canonical_fill hs
  exact hfill

/-- A change may give a form to what is inside, and no form to what is at the top. -/
theorem tidy_change (hs : s.Tidy) (hform : ∀ form, change = .form form → s.isTopLevel = false) :
    (change.apply s).Tidy := by
  obtain ⟨hexplicit, honeType⟩ := hs
  constructor <;> cases change <;> cases s <;>
    simp_all [Change.apply, Shape.Explicit, Shape.OneType, Shape.isTopLevel, Shape.component?]

theorem mem_children_fill (h : y ∈ (slot.fill x s).children) : y ∈ s.children ∨ y = x := by
  rw [Shape.children_eq_parts] at h ⊢
  obtain ⟨part, hpart, rfl⟩ := List.mem_map.1 h
  rcases parts_fill hpart with hpart | ⟨-, heq⟩
  · exact .inl (List.mem_map_of_mem hpart)
  · exact .inr heq

theorem mem_children_addAttribute (h : y ∈ (s.addAttribute x).children) : y ∈ s.children ∨ y = x := by
  have hfill : y ∈ (Slot.attribute.fill x s).children := h
  exact mem_children_fill hfill

theorem mem_children_withAny (h : y ∈ (s.withAny (some x)).children) : y ∈ s.children ∨ y = x := by
  rw [Shape.children_eq_parts] at h ⊢
  obtain ⟨part, hpart, rfl⟩ := List.mem_map.1 h
  rcases parts_withAny hpart with hpart | rfl
  · exact .inl (List.mem_map_of_mem hpart)
  · exact .inr rfl

@[simp] theorem children_withOccurs (s : Shape α) (o : Occurs) : (s.withOccurs o).children = s.children := by
  cases s <;> rfl

end Edits

/-! ## The start of a copy -/

/-- A construct of a kind, at the top of its schema or not, that is tidy and inside of which everything is canonical. -/
structure Opened (target : Kind) (topLevel : Bool) (s : Shape Node) : Prop where
  kind : s.kind = target
  topLevel : s.isTopLevel = topLevel
  tidy : s.Tidy
  inside : ∀ m ∈ s.children, m.Throughout Shape.Canonical

section Opened

variable {target : Kind} {topLevel : Bool} {s shape : Shape Node} {n m : Node}

theorem Opened.canonical (h : Opened target topLevel s) (hwhole : s.Whole) :
    Node.Throughout Shape.Canonical ⟨s⟩ :=
  throughout_iff.2 ⟨⟨h.tidy, hwhole⟩, h.inside⟩

theorem Opened.fill (h : Opened target topLevel s) (slot : Slot) (hm : m.Throughout Shape.Canonical) :
    Opened target topLevel (slot.fill m s) := by
  refine ⟨?_, ?_, tidy_fill h.tidy, fun x hx => ?_⟩
  · rw [Slot.kind_fill, h.kind]
  · rw [isTopLevel_fill, h.topLevel]
  · rcases mem_children_fill hx with hx | rfl
    · exact h.inside x hx
    · exact hm

theorem Opened.change {change : Change} (h : Opened target topLevel s)
    (hform : ∀ form, change = .form form → topLevel = false) : Opened target topLevel (change.apply s) := by
  refine ⟨?_, ?_, tidy_change h.tidy (by rwa [h.topLevel]),
    fun x hx => h.inside x (Change.mem_children_of_mem_apply hx)⟩
  · rw [Change.kind_apply, h.kind]
  · rw [isTopLevel_change, h.topLevel]

theorem canonical_anyAttribute (w : Wildcard) : Node.Throughout Shape.Canonical ⟨.anyAttribute w⟩ :=
  throughout_iff.2 ⟨⟨⟨trivial, trivial⟩, trivial⟩, by simp [Shape.children]⟩

theorem Opened.wildcard (h : Opened target topLevel s) (w : Wildcard) :
    Opened target topLevel (s.withAny (some ⟨.anyAttribute w⟩)) := by
  refine ⟨?_, ?_, tidy_withAny h.tidy _, fun x hx => ?_⟩
  · rw [Shape.kind_withAny, h.kind]
  · rw [isTopLevel_withAny, h.topLevel]
  · rcases mem_children_withAny hx with hx | rfl
    · exact h.inside x hx
    · exact canonical_anyAttribute w

theorem Repeated.canonical (h : Repeated n m) : m.Throughout Shape.Canonical := by
  cases h with
  | facet => exact throughout_iff.2 ⟨⟨⟨trivial, trivial⟩, trivial⟩, by simp [Shape.children]⟩
  | wildcard => exact canonical_anyAttribute _

theorem opened_outline (h : outline n = .ok s) : Opened s.kind false s := by
  have houtlines := outlines_outline h
  refine ⟨rfl, houtlines.inside, ⟨houtlines.explicit, Shape.oneType_of_typeNames houtlines.typeNames⟩, fun m hm => ?_⟩
  obtain ⟨n', -, hrepeated⟩ := houtlines.children m hm
  exact hrepeated.canonical

theorem opened_child {child : Child} (h : child.outline = .ok s) : Opened s.kind false s := by
  obtain ⟨start, hstart, h⟩ := Reader.bind_eq_ok.1 h
  have hopened := opened_outline hstart
  cases h
  cases child.bounds with
  | none => exact hopened
  | some o =>
    refine ⟨rfl, ?_, tidy_withOccurs hopened.tidy hopened.topLevel o, ?_⟩
    · rw [isTopLevel_withOccurs, hopened.topLevel]
    · rw [children_withOccurs]
      exact hopened.inside

end Opened

/-! ## What a copy demands -/

/-- Edits that give a base, and only one that is there, unless they stop. -/
structure GivesBase (es : List Edit) : Prop where
  present : ∀ q, .change (.base q) ∈ es → q.isSome
  given : (∃ q, .change (.base q) ∈ es) ∨ ∃ f, .stop f ∈ es

section Bases

variable {s : Schema} {change : Change} {es : List Edit}

theorem givesBase_fail (p : Problem) : GivesBase [.fail p] :=
  ⟨by simp [Edit.fail], .inr ⟨_, List.mem_cons_self⟩⟩

/-- A change among edits that are idle but for one of them is this one. -/
theorem givesBase_of_only {q : QName} (hq : .change (.base (some q)) ∈ es)
    (honly : ∀ change, .change change ∈ es → change = .base (some q)) : GivesBase es := by
  refine ⟨fun r hr => ?_, .inl ⟨_, hq⟩⟩
  cases honly _ hr
  rfl

theorem change_notMem_of_idle (hes : ∀ e ∈ es, e.IsIdle) : .change change ∉ es :=
  fun h => nomatch hes _ h

theorem change_notMem_particleEdits {slot : Slot} (particle : Option Node) :
    .change change ∉ particleEdits s (.attach slot) particle := by
  unfold particleEdits
  split <;> simp

theorem change_notMem_mergedParticleEdits (base : ComponentKey) (inherited own : Option Node) :
    .change change ∉ mergedParticleEdits s base inherited own := by
  unfold mergedParticleEdits
  grind

theorem givesBase_restrictionEdits (base : Option QName) (particle : Option Node) (members : List Node)
    (hasAny : Bool) : GivesBase (restrictionEdits s base particle members hasAny) := by
  have hmembers (change : Change) : .change change ∉ attributeEdits s true none [] hasAny members :=
    change_notMem_of_idle fun _ => idle_attributeEdits
  have hparticle (change : Change) : .change change ∉ particleEdits s (.attach .particle) particle :=
    change_notMem_particleEdits particle
  obtain ⟨q, hq⟩ : ∃ q, (if base.any QName.isBuiltin then base else some anyType) = some q := by
    cases base with
    | none => exact ⟨anyType, rfl⟩
    | some q => by_cases h : q.isBuiltin <;> simp [h]
  rw [restrictionEdits, hq]
  exact givesBase_of_only (q := q) (by simp) (by simp [hmembers, hparticle])

theorem givesBase_mergeEdits (base : QName) (given : Inherited) (particle : Option Node) (members : List Node)
    (hasAny : Bool) : GivesBase (mergeEdits s base given particle members hasAny) := by
  have hlists (change : Change) (lists : List (Option ComponentKey × List Node)) :
      .change change ∉ attributeListEdits s hasAny lists :=
    change_notMem_of_idle fun _ => idle_attributeListEdits
  have hwild (change : Change) : .change change ∉ wildcardEdits given.any :=
    change_notMem_of_idle fun _ => idle_wildcardEdits
  have hmerged (change : Change) (key : ComponentKey) :
      .change change ∉ mergedParticleEdits s key given.particle particle :=
    change_notMem_mergedParticleEdits key given.particle particle
  refine givesBase_of_only (q := anyType) (by simp [mergeEdits]) fun change h => ?_
  unfold mergeEdits at h
  grind

theorem givesBase_extensionEdits (base : Option QName) (particle : Option Node) (members : List Node)
    (hasAny : Bool) : GivesBase (extensionEdits s base particle members hasAny) := by
  have hmembers (change : Change) : .change change ∉ attributeEdits s true none [] hasAny members :=
    change_notMem_of_idle fun _ => idle_attributeEdits
  have hparticle (change : Change) : .change change ∉ particleEdits s (.attach .particle) particle :=
    change_notMem_particleEdits particle
  unfold extensionEdits
  split
  · exact givesBase_of_only (q := anyType) (by simp) (by simp [hmembers, hparticle])
  · split
    · exact givesBase_of_only List.mem_cons_self (by simp [hmembers, hparticle])
    · split
      · exact givesBase_fail _
      · split
        · exact givesBase_fail _
        · split
          · exact ⟨by simp, .inr ⟨_, List.mem_cons_self⟩⟩
          · exact givesBase_mergeEdits _ _ _ _ _
        · exact givesBase_fail _

end Bases

section Whole

variable {c : Context} {path : List ComponentKey} {n : Node} {es : List Edit} {shape r : Shape Node} {how : Derivation}
  {base : Option QName} {particle any : Option Node} {members : List Node}

/-- A derivation of complex content has a base in the end, if it has got one before or is given one. -/
theorem whole_inlineEdits (hfollow : ∀ m, .follow m ∉ es) (hpresent : ∀ q, .change (.base q) ∈ es → q.isSome)
    (hgiven : base.isSome ∨ (∃ q, .change (.base q) ∈ es) ∨ ∃ f, .stop f ∈ es)
    (h : (inlineEdits c path es (.complexDerivation how base particle members any)).Gives r) : r.Whole := by
  induction es generalizing base particle members any with
  | nil =>
    rw [inlineEdits_nil, gives_pure] at h
    subst h
    simpa [Shape.Whole] using hgiven
  | cons e es ih =>
    -- whatever is done but to give a base leaves the base as it is
    have hnext {particle any : Option Node} {members : List Node} (hbase : ∀ q, e ≠ .change (.base q))
        (hstop : ∀ f, e ≠ .stop f)
        (h : (inlineEdits c path es (.complexDerivation how base particle members any)).Gives r) : r.Whole := by
      refine ih (fun m hm => hfollow m (List.mem_cons_of_mem e hm))
        (fun q hq => hpresent q (List.mem_cons_of_mem e hq)) ?_ h
      simpa only [List.mem_cons, (hbase _).symm, (hstop _).symm, false_or] using hgiven
    cases e with
    | attach slot child =>
      obtain ⟨m, -, h⟩ := gives_attach.1 h
      cases slot <;> exact hnext (by simp) (by simp) h
    | attachSequence first second =>
      obtain ⟨a, -, b, -, h⟩ := gives_attachSequence.1 h
      exact hnext (by simp) (by simp) h
    | discard child => exact hnext (by simp) (by simp) (gives_discard.1 h).2
    | follow m => exact absurd List.mem_cons_self (hfollow m)
    | change change =>
      rw [inlineEdits_change] at h
      cases change with
      | base q =>
        exact ih (fun m hm => hfollow m (List.mem_cons_of_mem _ hm))
          (fun q hq => hpresent q (List.mem_cons_of_mem _ hq)) (.inl (hpresent q List.mem_cons_self)) h
      | _ => exact hnext (by simp) (by simp) h
    | wildcard w =>
      rw [inlineEdits_wildcard] at h
      exact hnext (by simp) (by simp) h
    | warn text =>
      rw [inlineEdits_warn] at h
      exact hnext (by simp) (by simp) h
    | stop f =>
      rw [inlineEdits_stop] at h
      exact absurd h gives_throw

theorem exists_of_kind_complexDerivation {s : Shape Node}
    (h : s.kind = (Shape.complexDerivation how base particle members any : Shape Node).kind) :
    ∃ base' particle' members' any', s = .complexDerivation how base' particle' members' any' := by
  cases s with
  | complexDerivation how' base' particle' members' any' =>
    cases how <;> cases how' <;> first | exact ⟨_, _, _, _, rfl⟩ | cases h
  | modelGroup order _ _ => cases order <;> cases how <;> cases h
  | _ => cases how <;> cases h

theorem whole_of_kind {s : Shape Node} (hcontent : s.kind ≠ .simpleContent ∧ s.kind ≠ .complexContent)
    (hderivation : s.kind ≠ .complexContentExtension ∧ s.kind ≠ .complexContentRestriction) : s.Whole := by
  cases s with
  | simpleContent => exact absurd rfl hcontent.1
  | complexContent => exact absurd rfl hcontent.2
  | complexDerivation how _ _ _ _ =>
    cases how with
    | extension => exact absurd rfl hderivation.1
    | restriction => exact absurd rfl hderivation.2
  | _ => trivial

theorem whole_contentEdits {kind : Kind} {content : Option Node}
    (hshape : shape.kind = .simpleContent ∨ shape.kind = .complexContent)
    (h : (inlineEdits c path (contentEdits kind content) shape).Gives r) : r.Whole := by
  cases content with
  | none =>
    rw [contentEdits, Edit.fail, inlineEdits_stop] at h
    exact absurd h gives_throw
  | some content =>
    obtain ⟨m, -, h⟩ := gives_attach.1 h
    rw [inlineEdits_nil, gives_pure] at h
    subst h
    cases shape with
    | simpleContent | complexContent => rfl
    | complexDerivation how _ _ _ _ => cases how <;> simp [Shape.kind] at hshape
    | _ => trivial

theorem whole_inlineNode (hs : c.source.Proper) (hn : n.Proper) (hcopy : n.shape.kind.copy? = some shape.kind)
    (h : (inlineNode c path n shape).Gives r) : r.Whole := by
  have hkind := (steady_inlineNode hs hn hcopy h).kind
  rw [inlineNode] at h
  have hother (hdemands : n.shape.kind.copy? ∉ [some .simpleContent, some .complexContent,
      some .complexContentExtension, some .complexContentRestriction]) : r.Whole := by
    simp only [hcopy, List.mem_cons, Option.some.injEq, List.not_mem_nil, or_false, not_or, ← hkind] at hdemands
    exact whole_of_kind ⟨hdemands.1, hdemands.2.1⟩ hdemands.2.2
  obtain ⟨origin⟩ := n
  cases origin with
  | simpleContent content => exact whole_contentEdits (.inl (Option.some.inj hcopy).symm) h
  | complexContent mixed content => exact whole_contentEdits (.inr (Option.some.inj hcopy).symm) h
  | complexDerivation how base particle members any =>
    have hsame : shape.kind = (Shape.complexDerivation how base particle members any : Shape Node).kind := by
      cases how <;> exact (Option.some.inj hcopy).symm
    obtain ⟨base', particle', members', any', rfl⟩ := exists_of_kind_complexDerivation hsame
    cases how with
    | extension =>
      obtain ⟨hpresent, hgiven⟩ := givesBase_extensionEdits (s := c.source) base particle members any.isSome
      exact whole_inlineEdits (fun _ => follow_notMem_extensionEdits _ _ _ _) hpresent (.inr hgiven) h
    | restriction =>
      obtain ⟨hpresent, hgiven⟩ := givesBase_restrictionEdits (s := c.source) base particle members any.isSome
      exact whole_inlineEdits (fun _ => follow_notMem_restrictionEdits _ _ _ _) hpresent (.inr hgiven) h
  | modelGroup order _ _ =>
    cases order with
    | unspecified => cases hcopy
    | sequence | choice | all => exact hother (by simp [Node.shape, Shape.kind, Kind.copy?])
  | schemaNode | facet | anyAttribute | attributeGroupRef | attributeGroup | groupRef | group => cases hcopy
  | _ => exact hother (by simp [Node.shape, Shape.kind, Kind.copy?])

end Whole

/-! ## Copies -/

section Copies

variable {c : Context} {path : List ComponentKey} {n : Node} {es : List Edit} {shape r : Shape Node} {target : Kind}
  {topLevel : Bool}

theorem opened_inlineEdits
    (hchildren : ∀ e ∈ es, ∀ child ∈ e.children, ∀ m, (inlineChild c path child).Gives m →
      m.Throughout Shape.Canonical)
    (hfollow : ∀ m inside shape r, .follow m ∈ es → Opened target topLevel shape →
      enter path (m.shape.key? c.source.space) = .ok inside → (inlineNode c inside m shape).Gives r →
      Opened target topLevel r)
    (hform : ∀ form, .change (.form form) ∈ es → topLevel = false) (hshape : Opened target topLevel shape)
    (h : (inlineEdits c path es shape).Gives r) : Opened target topLevel r := by
  induction es generalizing shape with
  | nil =>
    rw [inlineEdits_nil, gives_pure] at h
    exact h ▸ hshape
  | cons e es ih =>
    have hchild {child : Child} {m : Node} (hchild : child ∈ e.children) (hm : (inlineChild c path child).Gives m) :
        m.Throughout Shape.Canonical :=
      hchildren e List.mem_cons_self child hchild m hm
    have hnext {shape : Shape Node} (hshape : Opened target topLevel shape)
        (h : (inlineEdits c path es shape).Gives r) : Opened target topLevel r :=
      ih (fun e' he' => hchildren e' (List.mem_cons_of_mem e he'))
        (fun m inside shape r hm => hfollow m inside shape r (List.mem_cons_of_mem e hm))
        (fun form hmem => hform form (List.mem_cons_of_mem e hmem)) hshape h
    cases e with
    | attach slot child =>
      obtain ⟨m, hm, h⟩ := gives_attach.1 h
      exact hnext (hshape.fill slot (hchild List.mem_cons_self hm)) h
    | attachSequence first second =>
      obtain ⟨a, ha, b, hb, h⟩ := gives_attachSequence.1 h
      have hsequence : Node.Throughout Shape.Canonical ⟨.modelGroup .sequence .once [a, b]⟩ := by
        refine throughout_iff.2 ⟨⟨⟨trivial, trivial⟩, trivial⟩, ?_⟩
        simpa [Shape.children] using ⟨hchild (by simp [Edit.children]) ha, hchild (by simp [Edit.children]) hb⟩
      exact hnext (hshape.fill .particle hsequence) h
    | discard child => exact hnext hshape (gives_discard.1 h).2
    | follow m =>
      obtain ⟨inside, henter, s, hs, h⟩ := gives_follow.1 h
      exact hnext (hfollow m inside shape s List.mem_cons_self hshape henter hs) h
    | change change =>
      rw [inlineEdits_change] at h
      refine hnext (hshape.change fun form heq => hform form ?_) h
      rw [heq]
      exact List.mem_cons_self
    | wildcard w =>
      rw [inlineEdits_wildcard] at h
      exact hnext (hshape.wildcard w) h
    | warn text =>
      rw [inlineEdits_warn] at h
      exact hnext hshape h
    | stop f =>
      rw [inlineEdits_stop] at h
      exact absurd h gives_throw

/-- An element is copied without a form, from its own declaration or from another element. -/
theorem form_notMem_elementEdits {s : Schema} {d : ElementDecl} {own : Option Node} {form : String} :
    .change (.form form) ∉ elementEdits s target d own := by
  have htype : .change (.form form) ∉ typeEdits s false d.typeName own := by
    unfold typeEdits
    grind [Edit.fail]
  have hfollowed (head : Node) : .change (.form form) ∉ followEdits target head := by
    unfold followEdits
    grind
  unfold elementEdits
  grind [Edit.fail]

theorem kind_of_follow_mem_elementEdits {s : Schema} (hs : s.Proper) {d : ElementDecl} {own : Option Node} {m : Node}
    (h : .follow m ∈ elementEdits s target d own) : m.shape.kind = .element := by
  unfold elementEdits at h
  split at h
  · exact absurd h (follow_notMem_typeEdits false d.typeName own)
  · split at h
    · simp [Edit.fail] at h
    · rename_i head hfind
      obtain ⟨c, d, own, rfl⟩ := (hs.find hfind).2.element
      simp only [followEdits, Node.shape] at h
      split at h
      · obtain rfl : m = ⟨.element c d own⟩ := by simpa using h
        rfl
      · simp at h

/-- The finished copy of a child is canonical, where the copy of its origin is tidy and canonical inside. -/
private theorem canonical_child (hs : c.source.Proper) {child : Child} (hn : child.origin.Proper)
    (hcopy : child.origin.shape.kind.copy? = some target)
    (hopened : ∀ inside start r, enter path (child.key? c.source.space) = .ok inside →
      child.origin.shape.kind.copy? = some start.kind → Opened start.kind false start →
      (inlineNode c inside child.origin start).Gives r → Opened start.kind false r)
    {m : Node} (h : (inlineChild c path child).Gives m) : m.Throughout Shape.Canonical := by
  obtain ⟨start, hstart, inside, henter, r, hr, rfl⟩ := gives_child.1 h
  obtain ⟨_, hstart', hcomplete⟩ := complete_outline hn hcopy
  cases hstart.symm.trans hstart'
  have hcopy' : child.origin.shape.kind.copy? = some start.kind := by rw [hcopy, hcomplete.kind]
  exact (hopened inside start r henter hcopy' (opened_child hstart) hr).canonical (whole_inlineNode hs hn hcopy' hr)

theorem opened_inlineNode (hs : c.source.Proper) (hn : n.Proper) (hcopy : n.shape.kind.copy? = some target)
    (hinner : topLevel = false ∨ n.shape.kind = .element) (hshape : Opened target topLevel shape)
    (h : (inlineNode c path n shape).Gives r) : Opened target topLevel r := by
  induction hd : depth c.source path n using WellFoundedLT.induction generalizing path n target topLevel shape r with
  | ind d ih =>
    subst hd
    have hrule := lawful_edits (c := c) hs hn hcopy
    rw [inlineNode, hshape.kind] at h
    refine opened_inlineEdits (fun e he child hchild m hm => ?_) (fun m inside shape' r' hm hshape' henter h' => ?_)
      (fun form hform => ?_) hshape h
    · obtain ⟨kind, hapt⟩ := hrule.apt he hchild
      refine canonical_child hs hapt.descends.proper hapt.copy (fun inside start r' henter hcopy' hstart hr' => ?_) hm
      exact ih _ (depth_lt hapt.descends henter) hapt.descends.proper hcopy' (.inl rfl) hstart hr' rfl
    · have hasked := hrule.asked _ hm
      have hdesc := hasked.descends _ (List.mem_singleton.2 rfl)
      refine ih _ (depth_lt hdesc henter) hdesc.proper hasked.sensible (hinner.imp_right fun hkind => ?_) hshape' h' rfl
      obtain ⟨origin⟩ := n
      obtain ⟨co, d, own, rfl⟩ := Shape.exists_of_kind_element hkind
      exact kind_of_follow_mem_elementEdits hs hm
    · refine hinner.resolve_right fun hkind => ?_
      obtain ⟨origin⟩ := n
      obtain ⟨co, d, own, rfl⟩ := Shape.exists_of_kind_element hkind
      exact form_notMem_elementEdits hform

theorem opened_blank (c : Context) (seed : Seed) : Opened .element seed.topLevel (seed.blank c) := by
  have hblank {name form : Option String} {topLevel : Bool} (hform : topLevel → form = none) :
      Opened .element topLevel (blankElement name topLevel form) := by
    refine ⟨rfl, rfl, ⟨⟨rfl, ?_⟩, by simp [Shape.OneType, blankElement]⟩, by simp [blankElement, Shape.children]⟩
    cases topLevel with
    | true => exact ⟨rfl, hform rfl⟩
    | false => rfl
  cases seed with
  | element n topLevel => exact hblank (by rintro rfl; rfl)
  | type name n topLevel => exact hblank fun _ => rfl

theorem Seed.canonical_inline {seed : Seed} (hs : c.source.Proper) (hseed : seed.IsFrom c.source)
    (h : (seed.inline c).Gives n) : n.Throughout Shape.Canonical := by
  obtain ⟨r, hr, hn⟩ := gives_bind.1 h
  rw [gives_pure] at hn
  subst hn
  have hproper := hseed.proper hs
  have hblank := opened_blank c seed
  have hopened : Opened .element seed.topLevel r := by
    cases seed with
    | element n topLevel =>
      obtain ⟨shape⟩ := n
      obtain ⟨own, d, type, rfl⟩ := Shape.exists_of_kind_element hseed.2
      have hedits : Seed.edits (.element ⟨.element own d type⟩ topLevel) =
          [.change (.element d), .follow ⟨.element own d type⟩] := rfl
      rw [hedits, inlineEdits_change] at hr
      obtain ⟨inside, -, s, hs', hr⟩ := gives_follow.1 hr
      rw [inlineEdits_nil, gives_pure] at hr
      subst hr
      exact opened_inlineNode hs hproper rfl (.inr rfl) (hblank.change (by simp)) hs'
    | type name n topLevel =>
      obtain ⟨m, hm, hr⟩ := gives_attach.1 hr
      rw [inlineEdits_nil, gives_pure] at hr
      subst hr
      refine hblank.fill .type (canonical_child hs hproper (copy?_of_isType hseed.2).1 ?_ hm)
      exact fun _ _ _ _ hcopy hstart hr => opened_inlineNode hs hproper hcopy (.inl rfl) hstart hr
  exact hopened.canonical (whole_of_kind (by simp [hopened.kind]) (by simp [hopened.kind]))

end Copies

end PayloadSchema.Extraction
