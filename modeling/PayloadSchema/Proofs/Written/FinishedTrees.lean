import PayloadSchema.Proofs.Extraction.FinishedTrees
import PayloadSchema.Schema.Writer

/-!
# Finished trees are written

The writer stops at references, at names of types that are not built in, and at constructs that stand
where they do not fit.  A finished tree has none of these.
-/

namespace PayloadSchema.Schema.Writer

/-! ## Results -/

def Written {α : Type} (e : Except Fault α) : Prop := ∃ a, e = .ok a

section Written

variable {α β : Type} {e : Except Fault α} {next : α → Except Fault β}

@[simp] theorem written_ok {a : α} : Written (.ok a : Except Fault α) := ⟨a, rfl⟩

@[simp] theorem written_pure {a : α} : Written (pure a : Except Fault α) := ⟨a, rfl⟩

theorem Written.bind (he : Written e) (hnext : ∀ a, Written (next a)) : Written (e >>= next) := by
  obtain ⟨a, rfl⟩ := he
  exact hnext a

theorem written_mapM {f : α → Except Fault β} {l : List α} (h : ∀ a ∈ l, Written (f a)) :
    Written (l.mapM f) := by
  induction l with
  | nil => simp
  | cons a l ih =>
    rw [List.mapM_cons]
    exact (h a List.mem_cons_self).bind fun _ =>
      (ih fun x hx => h x (List.mem_cons_of_mem a hx)).bind fun _ => written_pure

end Written

/-! ## Content of types -/

def simpleDerivation (label : String) (content : Option Node) : Except Fault (List Xml.Tree) :=
  match content.map Node.shape with
  | some (.simpleContentExtension base members any) => do
    let written ← typeAttribute label "base" base
    pure [tag label "extension" written (← attributes label members any)]
  | some (.simpleContentRestriction base baseType fs members any) => do
    let written ← typeAttribute label "base" base
    let own ← ownSimpleType label baseType
    let limits ← facets label fs
    pure [tag label "restriction" written (own ++ limits ++ (← attributes label members any))]
  | _ => pure []

theorem simpleContent_eq (label : String) (content : Option Node) :
    simpleContent label content = (do pure (tag label "simpleContent" [] (← simpleDerivation label content))) := by
  rw [simpleContent, simpleDerivation]
  cases content with
  | none => rfl
  | some m =>
    obtain ⟨s⟩ := m
    cases s with
    | simpleContentExtension base members any => simp [Node.shape]
    | simpleContentRestriction base own fs members any => simp [Node.shape]
    | _ => rfl

def typeContent (label : String) (model own : Option Node) : Except Fault (List Xml.Tree) :=
  match model with
  | some ⟨.simpleContent content⟩ => do pure [← simpleContent label content]
  | some ⟨.complexContent mixed content⟩ => do
    let written := given "mixed" (mixed.map fun b => if b then "true" else "false")
    pure [tag label "complexContent" written (← complexDerivation label content)]
  | _ => ownParticle label own

theorem elementType_complexType (label : String) (c : Component) (d : ComplexDecl) (members : List Node)
    (any model own : Option Node) :
    elementType label (some ⟨.complexType c d members any model own⟩) = (do
      let content ← typeContent label model own
      let declared ← attributes label members any
      pure [tag label "complexType" (flag "mixed" d.mixed) (content ++ declared)]) := by
  rw [elementType.eq_def]
  cases model with
  | none => rfl
  | some m =>
    obtain ⟨s⟩ := m
    cases s with
    | simpleContent content => simp [typeContent]
    | complexContent mixed content => simp [typeContent]
    | _ => rfl

/-! ## Constructs by their roles -/

/-- Whether a construct is written where it plays a role. -/
def Accepts (label : String) : Role → Node → Prop
  | .elementType, n => Written (elementType label (some n))
  | .simpleType, n => Written (simpleType label n)
  | .facet, n => n.shape.facet?.isSome
  | .simpleVariety, n => Written (simpleTypeContent label (some n))
  | .attribute, n => n.shape.kind = .attribute ∧ Written (attributeDecl label n)
  | .anyAttribute, n => n.shape.wildcard?.isSome
  | .model, n => ∀ own, Written (typeContent label (some n) own)
  | .simpleDerivation, n => Written (simpleDerivation label (some n))
  | .complexDerivation, n => Written (complexDerivation label (some n))
  | .particle, n | .item, n | .groupContent, n => Written (particle label n)

section Parts

variable {label key : String} {s : Shape Node} {ns members : List Node} {own any model : Option Node}

theorem written_typeName {q : QName} (h : q.isBuiltin) : Written (typeName label q) := by
  simp [typeName, h]

theorem written_typeAttribute {q : Option QName} (h : ∀ r ∈ q.toList, r.isBuiltin) :
    Written (typeAttribute label key q) := by
  cases q with
  | none => exact written_ok
  | some r => exact (written_typeName (h r (by simp))).bind fun _ => written_pure

theorem written_facets (h : ∀ m ∈ ns, Accepts label .facet m) : Written (facets label ns) := by
  refine written_mapM fun m hm => ?_
  obtain ⟨f, hf⟩ := Option.isSome_iff_exists.1 (h m hm)
  simp [hf]

theorem written_anyAttribute (h : ∀ m ∈ any, Accepts label .anyAttribute m) : Written (anyAttribute label any) := by
  cases any with
  | none => exact written_ok
  | some m =>
    obtain ⟨w, hw⟩ := Option.isSome_iff_exists.1 (h m rfl)
    simp [anyAttribute, hw]

theorem written_attributes (hmembers : ∀ m ∈ members, Accepts label .attribute m)
    (hany : ∀ m ∈ any, Accepts label .anyAttribute m) : Written (attributes label members any) := by
  refine (written_mapM fun m hm => ?_).bind fun _ => (written_anyAttribute hany).bind fun _ => written_pure
  obtain ⟨hkind, hwritten⟩ := hmembers m hm
  obtain ⟨c, d, type, hs⟩ := Shape.exists_of_kind_attribute hkind
  rw [hs]
  exact hwritten

theorem written_ownSimpleType (h : ∀ m ∈ own, Accepts label .simpleType m) : Written (ownSimpleType label own) := by
  cases own with
  | none => exact written_ok
  | some m => exact Written.bind (h m rfl) fun _ => written_pure

theorem written_simpleTypes (h : ∀ m ∈ ns, Accepts label .simpleType m) : Written (simpleTypes label ns) := by
  induction ns with
  | nil => exact written_ok
  | cons m ns ih =>
    rw [simpleTypes]
    exact Written.bind (h m List.mem_cons_self) fun _ =>
      (ih fun x hx => h x (List.mem_cons_of_mem m hx)).bind fun _ => written_pure

theorem written_ownParticle (h : ∀ m ∈ own, Accepts label .particle m) : Written (ownParticle label own) := by
  cases own with
  | none =>
    rw [ownParticle]
    exact written_ok
  | some m =>
    rw [ownParticle]
    exact Written.bind (h m rfl) fun _ => written_pure

theorem written_particles (h : ∀ m ∈ ns, Accepts label .item m) : Written (particles label ns) := by
  induction ns with
  | nil =>
    rw [particles]
    exact written_ok
  | cons m ns ih =>
    rw [particles]
    exact Written.bind (h m List.mem_cons_self) fun _ =>
      (ih fun x hx => h x (List.mem_cons_of_mem m hx)).bind fun _ => written_pure

theorem written_typeContent (hmodel : ∀ m ∈ model, Accepts label .model m)
    (hown : ∀ m ∈ own, Accepts label .particle m) : Written (typeContent label model own) := by
  cases model with
  | none => exact written_ownParticle hown
  | some m => exact hmodel m rfl own

theorem written_simpleTypeContent (h : ∀ m ∈ own, Accepts label .simpleVariety m) :
    Written (simpleTypeContent label own) := by
  cases own with
  | none => exact written_ok
  | some m => exact h m rfl

theorem written_elementType (h : ∀ m ∈ own, Accepts label .elementType m) : Written (elementType label own) := by
  cases own with
  | none =>
    rw [elementType]
    exact written_ok
  | some m => exact h m rfl

theorem written_complexDerivation (h : ∀ m ∈ own, Accepts label .complexDerivation m) :
    Written (complexDerivation label own) := by
  cases own with
  | none =>
    rw [complexDerivation]
    · exact written_ok
    · rintro _ _ _ _ _ ⟨⟩
  | some m => exact h m rfl

theorem written_simpleContent (h : ∀ m ∈ own, Accepts label .simpleDerivation m) :
    Written (simpleContent label own) := by
  rw [simpleContent_eq]
  cases own with
  | none => exact written_pure
  | some m => exact Written.bind (h m rfl) fun _ => written_pure

theorem written_simpleType {c : Component} {content : Option Node} (h : ∀ m ∈ content, Accepts label .simpleVariety m) :
    Written (simpleType label ⟨.simpleType c content⟩) := by
  rw [simpleType]
  exact (written_simpleTypeContent h).bind fun _ => written_pure

theorem written_element {c : Component} {d : ElementDecl} {type : Option Node}
    (hbuiltin : ∀ q ∈ d.typeName.toList, q.isBuiltin) (htype : ∀ m ∈ type, Accepts label .elementType m) :
    Written (elementDecl label ⟨.element c d type⟩) := by
  rw [elementDecl]
  exact (written_typeAttribute hbuiltin).bind fun _ => (written_elementType htype).bind fun _ => written_pure

theorem written_modelGroup {order : Order} {bounds : Occurs} {items : List Node} (horder : order ≠ .unspecified)
    (hitems : ∀ m ∈ items, Accepts label .item m) : Written (particle label ⟨.modelGroup order bounds items⟩) := by
  rw [particle]
  cases order with
  | unspecified => exact absurd rfl horder
  | sequence | choice | all => exact (written_particles hitems).bind fun _ => written_pure

/-- A construct that refers to nothing is written in its role if its parts are written in theirs. -/
theorem accepts_step {role : Role} (hplain : s.Plain) (hsuits : s.Suits role)
    (hparts : ∀ r m, (r, m) ∈ s.parts → Accepts label r m) : Accepts label role ⟨s⟩ := by
  have hbuiltin := hplain.builtin
  have hattributes (members : List Node) (any : Option Node) (hmembers : ∀ m ∈ members, (.attribute, m) ∈ s.parts)
      (hany : ∀ m ∈ any, (.anyAttribute, m) ∈ s.parts) : Written (attributes label members any) :=
    written_attributes (fun m hm => hparts _ m (hmembers m hm)) fun m hm => hparts _ m (hany m hm)
  have hsimpleType (own : Option Node) (h : ∀ m ∈ own, (.simpleType, m) ∈ s.parts) :
      Written (ownSimpleType label own) := written_ownSimpleType fun m hm => hparts _ m (h m hm)
  have hlimits (fs : List Node) (h : ∀ m ∈ fs, (.facet, m) ∈ s.parts) : Written (facets label fs) :=
    written_facets fun m hm => hparts _ m (h m hm)
  have hparticle (own : Option Node) (h : ∀ m ∈ own, (.particle, m) ∈ s.parts) : Written (ownParticle label own) :=
    written_ownParticle fun m hm => hparts _ m (h m hm)
  cases hsuits with
  | simpleType c content => exact written_simpleType fun m hm => hparts _ m (by simp_all [Shape.parts])
  | ownSimpleType c content =>
    show Written (elementType label _)
    rw [elementType]
    exact (written_simpleType fun m hm => hparts _ m (by simp_all [Shape.parts])).bind fun _ => written_pure
  | complexType c d members any model own =>
    show Written (elementType label _)
    rw [elementType_complexType]
    refine (written_typeContent (fun m hm => hparts _ m ?_) fun m hm => hparts _ m ?_).bind fun _ =>
      (hattributes members any ?_ ?_).bind fun _ => written_pure
    all_goals simp_all [Shape.parts]
  | facet f => rfl
  | anyAttribute w => rfl
  | simpleRestriction base own fs =>
    show Written (simpleTypeContent label _)
    rw [simpleTypeContent]
    exact (written_typeAttribute hbuiltin).bind fun _ => (hsimpleType own (by simp [Shape.parts])).bind fun _ =>
      (hlimits fs (by simp [Shape.parts])).bind fun _ => written_pure
  | simpleList item own =>
    show Written (simpleTypeContent label _)
    rw [simpleTypeContent]
    exact (written_typeAttribute hbuiltin).bind fun _ => (hsimpleType own (by simp [Shape.parts])).bind fun _ =>
      written_pure
  | simpleUnion names types =>
    show Written (simpleTypeContent label _)
    rw [simpleTypeContent]
    refine (written_mapM fun q hq => written_typeName (hbuiltin q hq)).bind fun _ => ?_
    exact (written_simpleTypes fun m hm => hparts _ m (by simp_all [Shape.parts])).bind fun _ => written_pure
  | «attribute» c d type =>
    refine ⟨rfl, ?_⟩
    rw [attributeDecl]
    exact (written_typeAttribute hbuiltin).bind fun _ => (hsimpleType type (by simp [Shape.parts])).bind fun _ =>
      written_pure
  | simpleContent content =>
    intro own
    rw [typeContent]
    exact (written_simpleContent fun m hm => hparts _ m (by simp_all [Shape.parts])).bind fun _ => written_pure
  | complexContent mixed content =>
    intro own
    rw [typeContent]
    exact (written_complexDerivation fun m hm => hparts _ m (by simp_all [Shape.parts])).bind fun _ => written_pure
  | simpleContentExtension base members any =>
    have hwritten := hattributes members any (by simp [Shape.parts]) (by simp [Shape.parts])
    exact (written_typeAttribute hbuiltin).bind fun _ => hwritten.bind fun _ => written_pure
  | simpleContentRestriction base own fs members any =>
    have hwritten := hattributes members any (by simp [Shape.parts]) (by simp [Shape.parts])
    exact (written_typeAttribute hbuiltin).bind fun _ => (hsimpleType own (by simp [Shape.parts])).bind fun _ =>
      (hlimits fs (by simp [Shape.parts])).bind fun _ => hwritten.bind fun _ => written_pure
  | complexDerivation how base own members any =>
    show Written (complexDerivation label _)
    rw [complexDerivation]
    exact (written_typeAttribute hbuiltin).bind fun _ => (hparticle own (by simp [Shape.parts])).bind fun _ =>
      (hattributes members any (by simp [Shape.parts]) (by simp [Shape.parts])).bind fun _ => written_pure
  | particle order bounds items horder =>
    exact written_modelGroup horder fun m hm => hparts _ m (by simp_all [Shape.parts])
  | item order bounds items horder =>
    exact written_modelGroup horder fun m hm => hparts _ m (by simp_all [Shape.parts])
  | groupContent order bounds items horder =>
    exact written_modelGroup horder fun m hm => hparts _ m (by simp_all [Shape.parts])
  | element c d type =>
    show Written (particle label _)
    rw [particle]
    exact written_element hbuiltin fun m hm => hparts _ m (by simp_all [Shape.parts])
  | wildcard w bounds =>
    show Written (particle label _)
    rw [particle]
    exact written_ok

end Parts

theorem accepts {label : String} {role : Role} {n : Node} (h : Fits Shape.Plain role n) : Accepts label role n :=
  h.induction fun _ _ hfits hparts =>
    accepts_step hfits.built.here (hfits.suits hfits.built.here.reference) hparts

theorem written_elementDecl {label : String} {n : Node} (hkind : n.shape.kind = .element) (h : n.Finished) :
    Written (elementDecl label n) := by
  have hbuiltin := h.here.builtin
  obtain ⟨s⟩ := n
  obtain ⟨c, d, type, rfl⟩ := Shape.exists_of_kind_element hkind
  refine written_element hbuiltin fun m hm => ?_
  have hfits : Fits Shape.Plain .elementType m :=
    (built_iff.1 h).2 (.elementType, m) (by simpa [Shape.parts] using hm)
  exact accepts hfits

theorem written_toTree {s : Schema} (helements : ∀ n ∈ s.elements.values,
    n.shape.kind = .element ∧ n.Finished) (hattributes : s.attributes = []) (htypes : s.types = [])
    (hgroups : s.groups = []) (hattributeGroups : s.attributeGroups = []) (label : String) :
    Written (s.toTree label) := by
  rw [toTree, hattributes, htypes, hgroups, hattributeGroups]
  refine (written_mapM fun n hn => ?_).bind fun _ => ?_
  · exact written_elementDecl (helements n hn).1 (helements n hn).2
  · exact written_ok

end PayloadSchema.Schema.Writer
