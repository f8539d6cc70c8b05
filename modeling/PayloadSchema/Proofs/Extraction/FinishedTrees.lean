import PayloadSchema.Proofs.Rules.LawfulEdits

/-!
# Finished trees

A finished tree holds no reference, gives no name to a type, and names no type that is not built in.  A copy
starts as such a tree, and lawful edits keep it one.
-/

namespace PayloadSchema.Schema

/-- Whether a kind is one of types. -/
def Kind.isType : Kind → Bool
  | .simpleType | .complexType => true
  | _ => false

/-- A construct that refers to no component. -/
structure Shape.Plain {α : Type} (s : Shape α) : Prop where
  reference : s.isReference = false
  unnamed : s.kind.isType → s.isNamed = false
  builtin : ∀ q ∈ s.typeNames, q.isBuiltin

/-- What a construct refers to is not changed where its kind, its name and its references are not. -/
theorem Shape.Plain.congr {α β : Type} {s : Shape α} {s' : Shape β} (hs : s.Plain)
    (hkind : s'.kind = s.kind) (hreference : s'.isReference = s.isReference)
    (hnamed : s.kind.isType → s'.isNamed = s.isNamed)
    (hnames : ∀ q ∈ s'.typeNames, q ∈ s.typeNames ∨ q.isBuiltin) : s'.Plain where
  reference := by rw [hreference, hs.reference]
  unnamed htype := by
    rw [hkind] at htype
    rw [hnamed htype, hs.unnamed htype]
  builtin q hq := (hnames q hq).elim (hs.builtin q) id

/-- A well-formed tree of constructs that refer to no component. -/
abbrev Node.Finished (n : Node) : Prop := n.Built Shape.Plain

end PayloadSchema.Schema

namespace PayloadSchema.Extraction

open Schema

/-! ## Edits -/

section Edits

variable {α : Type} {s : Shape α} {x : α} {slot : Slot} {role : Role} {change : Change}

theorem parts_fill {part : Role × α} (h : part ∈ (slot.fill x s).parts) :
    part ∈ s.parts ∨ slot.role? s.kind = some part.1 ∧ part.2 = x := by
  obtain ⟨role, y⟩ := part
  cases slot <;> cases s <;> first | exact .inl h | skip
  case item.modelGroup order bounds items =>
    have hrole : Slot.item.role? (Shape.modelGroup order bounds items).kind = some .item := by
      cases order <;> rfl
    simp [Slot.fill, Shape.parts, hrole] at h ⊢
    grind
  case particle.complexDerivation how base particle members any =>
    have hrole : Slot.particle.role? (Shape.complexDerivation how base particle members any).kind =
        some .particle := by
      cases how <;> rfl
    simp [Slot.fill, Shape.parts, hrole] at h ⊢
    grind
  case attribute.complexDerivation how base particle members any =>
    have hrole : Slot.attribute.role? (Shape.complexDerivation how base particle members any).kind =
        some .attribute := by
      cases how <;> rfl
    simp [Slot.fill, Shape.addAttribute, Shape.parts, hrole] at h ⊢
    grind
  all_goals
    simp [Slot.fill, Shape.addAttribute, Shape.parts, Slot.role?, Shape.kind] at h ⊢
    grind

theorem plain_fill (hs : s.Plain) : (slot.fill x s).Plain := by
  refine hs.congr (Slot.kind_fill x slot s) ?_ (fun _ => ?_) ?_
  · cases slot <;> cases s <;> rfl
  · cases slot <;> cases s <;> rfl
  · cases slot <;> cases s <;> simp [Slot.fill, Shape.addAttribute, Shape.typeNames] <;> tauto

theorem plain_change (hs : s.Plain) (h : change.Builtin) : (change.apply s).Plain := by
  refine hs.congr (Change.kind_apply change s) ?_ (fun htype => ?_) ?_
  · cases change <;> cases s <;> rfl
  · cases change <;> cases s <;> first | rfl | cases htype
  · cases change <;> cases s <;> simp_all [Change.apply, Shape.typeNames, Change.Builtin]; grind

theorem plain_withAny (hs : s.Plain) (a : Option α) : (s.withAny a).Plain := by
  refine hs.congr (Shape.kind_withAny a s) ?_ (fun _ => ?_) ?_
  · cases s <;> rfl
  · cases s <;> rfl
  · cases s <;> simp [Shape.withAny, Shape.typeNames] <;> tauto

theorem plain_withOccurs (hs : s.Plain) (o : Occurs) : (s.withOccurs o).Plain := by
  refine hs.congr (Shape.kind_withOccurs o s) ?_ (fun _ => ?_) ?_
  · cases s <;> rfl
  · cases s <;> rfl
  · cases s <;> simp [Shape.withOccurs, Shape.typeNames] <;> tauto

theorem parts_change {part : Role × α} (h : part ∈ (change.apply s).parts) : part ∈ s.parts := by
  cases change <;> cases s <;> simp_all [Change.apply, Shape.parts]

theorem parts_withAny {part : Role × α} (h : part ∈ (s.withAny (some x)).parts) :
    part ∈ s.parts ∨ part = (.anyAttribute, x) := by
  cases s <;> simp [Shape.withAny, Shape.parts] at h ⊢ <;> grind

theorem parts_withOccurs (s : Shape α) (o : Occurs) : (s.withOccurs o).parts = s.parts := by
  cases s <;> rfl

@[simp] theorem isTopLevel_fill : (slot.fill x s).isTopLevel = s.isTopLevel := by
  cases slot <;> cases s <;> rfl

@[simp] theorem isTopLevel_change : (change.apply s).isTopLevel = s.isTopLevel := by
  cases change <;> cases s <;> rfl

@[simp] theorem isTopLevel_withAny (a : Option α) : (s.withAny a).isTopLevel = s.isTopLevel := by
  cases s <;> rfl

@[simp] theorem isTopLevel_withOccurs (o : Occurs) : (s.withOccurs o).isTopLevel = s.isTopLevel := by
  cases s <;> rfl

end Edits

section Finished

variable {s : Shape Node} {n x : Node} {slot : Slot} {role : Role} {kind : Kind}

theorem finished_fill (hs : Node.Finished ⟨s⟩) (hslot : slot.role? s.kind = some role)
    (hx : Fits Shape.Plain role x) : Node.Finished ⟨slot.fill x s⟩ := by
  obtain ⟨hplain, hparts⟩ := built_iff.1 hs
  refine built_iff.2 ⟨plain_fill hplain, fun part hpart => ?_⟩
  rcases parts_fill hpart with hpart | ⟨hrole, hpart⟩
  · exact hparts part hpart
  · cases hslot.symm.trans hrole
    rwa [hpart]

theorem finished_change {change : Change} (hs : Node.Finished ⟨s⟩) (h : change.Builtin) :
    Node.Finished ⟨change.apply s⟩ := by
  obtain ⟨hplain, hparts⟩ := built_iff.1 hs
  exact built_iff.2 ⟨plain_change hplain h, fun part hpart => hparts part (parts_change hpart)⟩

private theorem fits_leaf (hadmits : role.admits s.kind) (htop : s.isTopLevel = false)
    (hplain : s.Plain) (hparts : s.parts = []) : Fits Shape.Plain role ⟨s⟩ :=
  ⟨hadmits, htop, built_iff.2 ⟨hplain, by simp [hparts]⟩⟩

private theorem fits_anyAttribute (w : Wildcard) :
    Fits Shape.Plain .anyAttribute ⟨.anyAttribute w⟩ :=
  fits_leaf rfl rfl ⟨rfl, by simp [Shape.kind, Kind.isType], by simp [Shape.typeNames]⟩ rfl

theorem finished_wildcard {w : Wildcard} (hs : Node.Finished ⟨s⟩) :
    Node.Finished ⟨s.withAny (some ⟨.anyAttribute w⟩)⟩ := by
  obtain ⟨hplain, hparts⟩ := built_iff.1 hs
  refine built_iff.2 ⟨plain_withAny hplain _, fun part hpart => ?_⟩
  rcases parts_withAny hpart with hpart | rfl
  · exact hparts part hpart
  · exact fits_anyAttribute w

theorem finished_withOccurs {o : Occurs} (hs : Node.Finished ⟨s⟩) :
    Node.Finished ⟨s.withOccurs o⟩ := by
  obtain ⟨hplain, hparts⟩ := built_iff.1 hs
  refine built_iff.2 ⟨plain_withOccurs hplain o, fun part hpart => ?_⟩
  rw [parts_withOccurs] at hpart
  exact hparts part hpart

/-! ## The start of a copy -/

private theorem outlineAny_spec {any : Option Node} (h : ∀ m ∈ any, m.Plays .anyAttribute) :
    ∃ o, outlineAny any = .ok o ∧ ∀ m ∈ o, Fits Shape.Plain .anyAttribute m := by
  cases any with
  | none => exact ⟨none, rfl, by simp⟩
  | some m =>
    have hadmits := (h m rfl).admits
    obtain ⟨shape⟩ := m
    cases shape with
    | anyAttribute w =>
      refine ⟨_, rfl, ?_⟩
      rintro _ ⟨rfl⟩
      exact fits_anyAttribute w
    | modelGroup order _ _ => cases order <;> cases hadmits
    | complexDerivation how _ _ _ _ => cases how <;> cases hadmits
    | _ => cases hadmits

private theorem outlineFacets_spec {facets : List Node} (h : ∀ m ∈ facets, m.Plays .facet) :
    ∃ ns, outlineFacets facets = .ok ns ∧ ∀ m ∈ ns, Fits Shape.Plain .facet m := by
  induction facets with
  | nil => exact ⟨[], rfl, by simp⟩
  | cons m facets ih =>
    obtain ⟨ns, hns, hfits⟩ := ih fun m' hm' => h m' (List.mem_cons_of_mem m hm')
    have hadmits := (h m List.mem_cons_self).admits
    obtain ⟨shape⟩ := m
    cases shape with
    | facet f =>
      refine ⟨⟨.facet f⟩ :: ns, ?_, ?_⟩
      · rw [outlineFacets] at hns ⊢
        rw [List.mapM_cons, hns]
        rfl
      · refine List.forall_mem_cons.2 ⟨?_, hfits⟩
        exact fits_leaf rfl rfl ⟨rfl, by simp [Shape.kind, Kind.isType], by simp [Shape.typeNames]⟩ rfl
    | modelGroup order _ _ => cases order <;> cases hadmits
    | complexDerivation how _ _ _ _ => cases how <;> cases hadmits
    | _ => cases hadmits

private theorem plain_start {s : Shape Node} (hreference : s.isReference = false)
    (hnamed : s.kind.isType → s.isNamed = false) (hnames : s.typeNames = []) : s.Plain :=
  ⟨hreference, hnamed, by simp [hnames]⟩

theorem finished_outline (hn : n.Proper) (hcopy : n.shape.kind.copy? = some kind) :
    ∃ s, outline n = .ok s ∧ s.kind = kind ∧ s.isTopLevel = false ∧ Node.Finished ⟨s⟩ := by
  have hany (any : Option Node) (h : ∀ m ∈ any, (Role.anyAttribute, m) ∈ n.shape.parts) :
      ∃ o, outlineAny any = .ok o ∧ ∀ m ∈ o, Fits Shape.Plain .anyAttribute m :=
    outlineAny_spec fun m hm => hn.part (h m hm)
  have hfacets (facets : List Node) (h : ∀ m ∈ facets, (Role.facet, m) ∈ n.shape.parts) :
      ∃ ns, outlineFacets facets = .ok ns ∧ ∀ m ∈ ns, Fits Shape.Plain .facet m :=
    outlineFacets_spec fun m hm => hn.part (h m hm)
  have hbare {s : Shape Node} (hs : s.Plain) (hparts : s.parts = []) : Node.Finished ⟨s⟩ :=
    built_iff.2 ⟨hs, by simp [hparts]⟩
  obtain ⟨shape⟩ := n
  cases shape with
  | schemaNode | facet | anyAttribute | attributeGroupRef | attributeGroup | groupRef | group =>
    cases hcopy
  | elementRef | attributeRef | element | «attribute» | wildcard | simpleList | simpleUnion
  | simpleContent | complexContent =>
    cases hcopy
    exact ⟨_, rfl, rfl, rfl, hbare (plain_start rfl (by simp [Shape.kind, Kind.isType]) rfl) rfl⟩
  | simpleType =>
    cases hcopy
    exact ⟨_, rfl, rfl, rfl, hbare (plain_start rfl (fun _ => rfl) rfl) rfl⟩
  | simpleRestriction base own facets =>
    cases hcopy
    obtain ⟨ns, hns, hfits⟩ := hfacets facets (by simp [Node.shape, Shape.parts])
    refine ⟨.simpleRestriction none none ns, ?_, rfl, rfl, ?_⟩
    · simp [outline, Node.shape, hns]
    · exact built_iff.2 ⟨plain_start rfl (by simp [Shape.kind, Kind.isType]) rfl,
        by simpa [Shape.parts] using hfits⟩
  | simpleContentExtension base members any =>
    cases hcopy
    obtain ⟨o, ho, hfits⟩ := hany any (by simp [Node.shape, Shape.parts])
    refine ⟨.simpleContentExtension none [] o, ?_, rfl, rfl, ?_⟩
    · simp [outline, Node.shape, ho]
    · exact built_iff.2 ⟨plain_start rfl (by simp [Shape.kind, Kind.isType]) rfl,
        by simpa [Shape.parts] using hfits⟩
  | simpleContentRestriction base own facets members any =>
    cases hcopy
    obtain ⟨ns, hns, hlimits⟩ := hfacets facets (by simp [Node.shape, Shape.parts])
    obtain ⟨o, ho, hfits⟩ := hany any (by simp [Node.shape, Shape.parts])
    refine ⟨.simpleContentRestriction none none ns [] o, ?_, rfl, rfl, ?_⟩
    · simp only [outline, Node.shape, ho, hns]
      rfl
    · exact built_iff.2 ⟨plain_start rfl (by simp [Shape.kind, Kind.isType]) rfl,
        by simpa [Shape.parts, or_imp, forall_and] using ⟨hlimits, hfits⟩⟩
  | complexDerivation how base particle members any =>
    obtain ⟨o, ho, hfits⟩ := hany any (by simp [Node.shape, Shape.parts])
    refine ⟨.complexDerivation how none none [] o, ?_, ?_, rfl, ?_⟩
    · simp [outline, Node.shape, ho]
    · cases how <;> cases hcopy <;> rfl
    · exact built_iff.2 ⟨plain_start rfl (by cases how <;> simp [Shape.kind, Kind.isType]) rfl,
        by simpa [Shape.parts] using hfits⟩
  | modelGroup order bounds items =>
    cases order with
    | unspecified => cases hcopy
    | sequence | choice | all =>
      cases hcopy
      exact ⟨_, rfl, rfl, rfl, hbare (plain_start rfl (by simp [Shape.kind, Kind.isType]) rfl) rfl⟩
  | complexType c d members any model particle =>
    cases hcopy
    obtain ⟨o, ho, hfits⟩ := hany any (by simp [Node.shape, Shape.parts])
    refine ⟨.complexType ⟨none, false⟩ ⟨d.mixed, false⟩ [] o none none, ?_, rfl, rfl, ?_⟩
    · simp [outline, Node.shape, ho]
    · exact built_iff.2 ⟨plain_start rfl (fun _ => rfl) rfl, by simpa [Shape.parts] using hfits⟩

end Finished

end PayloadSchema.Extraction
