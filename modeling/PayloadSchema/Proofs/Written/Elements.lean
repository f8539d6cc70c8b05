import PayloadSchema.Proofs.Written.SimpleTypes

/-!
# Elements are read again

The types of elements, their content and the particles in it: what is written of each is read again as the same.
-/

namespace PayloadSchema.Schema.Writer

open Xml (Element Tree isPlainName)
open Reader (construct? Construct ReadsAs ReadsAsContent ReadsAsGroup ReadsAsItem ReadsAsMembers Declare)

variable {ok : Char → Prop} {label : String} {base : Option QName} {members fs items : List Node}
  {own any model content : Option Node}

/-! ## Simple content -/

theorem recites_simpleContentExtension (hlabel : Usable ok label)
    (hsettled : (Shape.simpleContentExtension base members any).Settled ok)
    (hmembers : ∀ m ∈ members, Recites ok label .attribute m) (hany : ∀ m ∈ any, Recites ok label .anyAttribute m) :
    Recites ok label .simpleDerivation ⟨.simpleContentExtension base members any⟩ := by
  have hbase := hsettled.typeName (q := base) (by simp [Shape.typeNames])
  obtain ⟨ts, hts, hyields⟩ := rereads_attributes hmembers hany
  have hkeys : Distinct ["base"] := by decide
  have hwritten : simpleDerivation label (some ⟨.simpleContentExtension base members any⟩) =
      .ok [tag label "extension" (given "base" (base.map fun r => label ++ ":" ++ r.name)) ts] := by
    dsimp only [simpleDerivation, Option.map_some, Node.shape]
    rw [typeAttribute_eq fun r hr => (hbase r hr).1, hts]
    rfl
  refine ⟨_, hwritten, (hyields.tag (by decide) keys_given hkeys
    (carried_given (hlabel.carried_typeName fun r hr => (hbase r hr).2.1))
    fun e htag hscope hlookup hread => ?_).alone⟩
  have hreadBase := name?_of_written hlabel hscope ((hlookup "base" rfl).trans lookup_given) fun r hr =>
    ⟨(hbase r hr).1, (hbase r hr).2.2⟩
  have hreadMembers := Reader.attributes_only hread
  have hconstruct : construct? e = some .extension := construct?_of_tag htag (by decide)
  obtain ⟨tag, attributes, text, scope, inner⟩ := e
  rw [Element.children] at hreadMembers
  rw [Reader.simpleDerivation, hconstruct, hreadMembers]
  simp only [bind, Except.bind, Option.isNone_some, Bool.false_eq_true, if_false]
  rw [hreadBase, Node.asRead_eq]
  simp only [Reader.simpleDerivation]
  rfl

theorem recites_simpleContentRestriction (hlabel : Usable ok label)
    (hsettled : (Shape.simpleContentRestriction base own fs members any).Settled ok)
    (hown : ∀ m ∈ own, Recites ok label .simpleType m) (hfacets : ∀ m ∈ fs, Recites ok label .facet m)
    (hmembers : ∀ m ∈ members, Recites ok label .attribute m) (hany : ∀ m ∈ any, Recites ok label .anyAttribute m) :
    Recites ok label .simpleDerivation ⟨.simpleContentRestriction base own fs members any⟩ := by
  have hbase := hsettled.typeName (q := base) (by simp [Shape.typeNames])
  obtain ⟨ts, hts, hown⟩ := rereads_ownSimpleType hown
  obtain ⟨us, hus, hfacets⟩ := rereads_facets hfacets
  obtain ⟨vs, hvs, hmembers⟩ := rereads_attributes hmembers hany
  have hkeys : Distinct ["base"] := by decide
  have hwritten : simpleDerivation label (some ⟨.simpleContentRestriction base own fs members any⟩) =
      .ok [tag label "restriction" (given "base" (base.map fun r => label ++ ":" ++ r.name)) (ts ++ us ++ vs)] := by
    dsimp only [simpleDerivation, Option.map_some, Node.shape]
    rw [typeAttribute_eq fun r hr => (hbase r hr).1, hts, hus, hvs]
    rfl
  refine ⟨_, hwritten, (((hown.append hfacets).append hmembers).tag (by decide) keys_given hkeys
    (carried_given (hlabel.carried_typeName fun r hr => (hbase r hr).2.1))
    fun e htag hscope hlookup hread => ?_).alone⟩
  have hreadBase := name?_of_written hlabel hscope ((hlookup "base" rfl).trans lookup_given) fun r hr =>
    ⟨(hbase r hr).1, (hbase r hr).2.2⟩
  obtain ⟨front, back, hinner, ⟨es, limits, rfl, hes, hlimits⟩, hback⟩ := hread
  obtain ⟨hreadOwn, hreadFacets⟩ := Reader.restricted_of hes hlimits hback.declare
  have hbody : Declare false (es ++ limits) := Declare.append
    (Reader.forall_of_reads hes fun e n he => ⟨_, he.1, rfl⟩)
    (Reader.forall_of_reads hlimits fun e n he => he.construct.elim fun name hname => ⟨_, hname, rfl⟩)
  have hreadMembers := Reader.attributes_of hbody hback
  have hconstruct : construct? e = some .restriction := construct?_of_tag htag (by decide)
  obtain ⟨tag, attributes, text, scope, inner⟩ := e
  rw [Element.children] at hinner
  subst hinner
  rw [Reader.simpleDerivation, hconstruct, hreadMembers]
  simp only [bind, Except.bind, Option.isNone_some, Bool.false_eq_true, if_false]
  rw [hreadBase, hreadOwn, hreadFacets, Node.asRead_eq]
  simp only [Reader.simpleDerivation]
  rfl

theorem recites_simpleContent (hcontent : ∀ m ∈ content, Recites ok label .simpleDerivation m) :
    Recites ok label .model ⟨.simpleContent content⟩ := by
  intro own
  obtain ⟨ts, hts, hyields⟩ := rereads_simpleDerivation hcontent
  have hkeys : Distinct [] := by decide
  have hwritten : typeContent label (some ⟨.simpleContent content⟩) own = .ok [tag label "simpleContent" [] ts] := by
    rw [typeContent, simpleContent_eq, hts]
    rfl
  refine ⟨_, hwritten, (hyields.tag (by decide) keys_nil hkeys (by simp) fun e htag _ _ hread => ?_).alone⟩
  refine Reader.readsAsContent_simple ⟨construct?_of_tag htag (by decide), ?_⟩
  obtain ⟨tag, attributes, text, scope, inner⟩ := e
  rw [Element.children] at hread
  rw [Reader.simpleContent, hread, Node.asRead_eq]
  rfl

/-! ## Complex content -/

theorem recites_complexDerivation (hlabel : Usable ok label) {how : Derivation}
    (hsettled : (Shape.complexDerivation how base own members any).Settled ok)
    (hown : ∀ m ∈ own, Recites ok label .particle m) (hmembers : ∀ m ∈ members, Recites ok label .attribute m)
    (hany : ∀ m ∈ any, Recites ok label .anyAttribute m) :
    Recites ok label .complexDerivation ⟨.complexDerivation how base own members any⟩ := by
  have hbase := hsettled.typeName (q := base) (by simp [Shape.typeNames])
  obtain ⟨ts, hts, hown⟩ := rereads_ownParticle hown
  obtain ⟨us, hus, hmembers⟩ := rereads_attributes hmembers hany
  have hkeys : Distinct ["base"] := by decide
  have hname : isPlainName (derivationName how) ∧ derivationName how ≠ "annotation" := by
    cases how <;> decide
  have hwritten : complexDerivation label (some ⟨.complexDerivation how base own members any⟩) =
      .ok [tag label (derivationName how) (given "base" (base.map fun r => label ++ ":" ++ r.name)) (ts ++ us)] := by
    rw [complexDerivation, typeAttribute_eq fun r hr => (hbase r hr).1, hts, hus]
    rfl
  refine ⟨_, hwritten, ((hown.append hmembers).tag hname.1 keys_given hkeys
    (carried_given (hlabel.carried_typeName fun r hr => (hbase r hr).2.1))
    fun e htag hscope hlookup hread => ?_).alone⟩
  have hreadBase := name?_of_written hlabel hscope ((hlookup "base" rfl).trans lookup_given) fun r hr =>
    ⟨(hbase r hr).1, (hbase r hr).2.2⟩
  obtain ⟨fs, gs, hinner, hfs, hgs⟩ := hread
  have hreadMembers := Reader.attributes_of (Reader.forall_of_reads hfs (by
    rintro e n ⟨order, he⟩
    exact ⟨_, he.1, rfl⟩)) hgs
  have hreadOwn := Reader.innerParticle_of hfs hgs.declare
  obtain ⟨tag, attributes, text, scope, inner⟩ := e
  rw [Element.children] at hinner
  subst hinner
  cases how
  case' extension => have hconstruct : construct? _ = some .extension := construct?_of_tag htag hname.2
  case' restriction => have hconstruct : construct? _ = some .restriction := construct?_of_tag htag hname.2
  all_goals
    rw [Reader.complexDerivation, hconstruct]
    dsimp only
    rw [hreadBase, hreadMembers]
    simp only [bind, Except.bind]
    rw [hreadOwn, Node.asRead_eq]
    simp only [Reader.complexDerivation]
    rfl

theorem recites_complexContent (hlabel : Usable ok label) {mixed : Option Bool}
    (hcontent : ∀ m ∈ content, Recites ok label .complexDerivation m) :
    Recites ok label .model ⟨.complexContent mixed content⟩ := by
  intro own
  obtain ⟨ts, hts, hyields⟩ := rereads_complexDerivation hcontent
  have hkeys : Distinct ["mixed"] := by decide
  have hwritten : typeContent label (some ⟨.complexContent mixed content⟩) own = .ok [tag label "complexContent"
      (given "mixed" (mixed.map fun b => if b then "true" else "false")) ts] := by
    rw [typeContent, hts]
    rfl
  refine ⟨_, hwritten, (hyields.tag (by decide) keys_given hkeys (carried_given fun v hv => ?_)
    fun e htag _ hlookup hread => ?_).alone⟩
  · obtain ⟨b, -, rfl⟩ := Option.map_eq_some_iff.1 hv
    cases b <;> exact hlabel.printable.carried (by decide)
  · refine Reader.readsAsContent_complex ⟨construct?_of_tag htag (by decide), ?_⟩
    have hmixed : ((e.attribute? "mixed").map fun _ => Reader.flag e "mixed") = mixed := by
      have hvalue := (hlookup "mixed" rfl).trans lookup_given
      rw [Reader.flag, hvalue]
      cases mixed with
      | none => rfl
      | some flag => cases flag <;> decide
    obtain ⟨tag, attributes, text, scope, inner⟩ := e
    rw [Element.children] at hread
    rw [Reader.complexContent, hread, hmixed, Node.asRead_eq]
    rfl

/-! ## Types of elements -/

theorem recites_ownSimpleType {c : Component} (h : Recites ok label .simpleType ⟨.simpleType c content⟩) :
    Recites ok label .elementType ⟨.simpleType c content⟩ := by
  obtain ⟨t, ht, hyields⟩ := h
  refine ⟨[t], by rw [elementType, ht]; rfl, hyields.single.imp ?_⟩
  rintro es ⟨e, rfl, hkind, hread⟩
  rw [Reader.elementType, hkind]
  dsimp only
  rw [hread]
  simp only [bind, Except.bind, Reader.elementType]
  rfl

/-- What is written of the content of a complex type is read as its model or, without one, as its particle. -/
theorem rereads_typeContent (hmodel : ∀ m ∈ model, Recites ok label .model m)
    (hown : ∀ m ∈ own, Recites ok label .particle m) : RereadsAll ok label (typeContent label model own) fun es =>
      ReadsAsContent (model.map Node.asRead) (if model.isSome then none else own.map Node.asRead) es := by
  cases model with
  | none =>
    obtain ⟨ts, hts, hyields⟩ := rereads_ownParticle hown
    exact ⟨ts, hts, hyields.imp fun es hes => Reader.readsAsContent_particle hes⟩
  | some m => exact hmodel m rfl own

theorem recites_complexType (hlabel : Usable ok label) {c : Component} {d : ComplexDecl}
    (hsettled : (Shape.complexType c d members any model own).Settled ok) (htop : c.topLevel = false)
    (hmodel : ∀ m ∈ model, Recites ok label .model m) (hown : ∀ m ∈ own, Recites ok label .particle m)
    (hmembers : ∀ m ∈ members, Recites ok label .attribute m) (hany : ∀ m ∈ any, Recites ok label .anyAttribute m) :
    Recites ok label .elementType ⟨.complexType c d members any model own⟩ := by
  obtain rfl := component_of_type hsettled rfl rfl htop
  obtain ⟨ts, hts, hcontent⟩ := rereads_typeContent hmodel hown
  obtain ⟨us, hus, hmembers⟩ := rereads_attributes hmembers hany
  have hkeys : Distinct ["mixed"] := by decide
  refine ⟨_, by rw [elementType_complexType, hts, hus]; rfl, ((hcontent.append hmembers).tag (by decide)
    (by rw [flag_eq_given]; exact keys_given) hkeys (carried_flag hlabel)
    fun e htag hscope hlookup hread => ?_).alone⟩
  have hvalue (key : String) (hkey : isPlainName key) := hlookup key hkey
  simp only [flag_eq_given, lookup_given] at hvalue
  have hreadMixed : Reader.flag e "mixed" = d.mixed := flag_of_written (by simpa using hvalue "mixed" rfl)
  have hreadAbstract : Reader.flag e "abstract" = d.abstract := by
    have hnone : d.abstract = false := hsettled.explicit
    exact flag_of_written (by rw [hvalue _ rfl, hnone]; rfl)
  have hreadName : e.attribute? "name" = none := hvalue "name" rfl
  have hconstruct : construct? e = some .complexType := construct?_of_tag htag (by decide)
  obtain ⟨fs, gs, hinner, ⟨hfs, hparts⟩, hgs⟩ := hread
  have hreadMembers := Reader.attributes_of hfs hgs
  have hreadParts := hparts gs hgs.declare
  obtain ⟨tag, attributes, text, scope, inner⟩ := e
  rw [Element.children] at hinner
  subst hinner
  rw [Reader.elementType, hconstruct]
  dsimp only
  rw [Reader.complexType, hreadMembers]
  simp only [bind, Except.bind]
  rw [hreadParts, hreadMixed, hreadAbstract, Reader.component, hreadName, Node.asRead_eq]
  simp only [pure, Except.pure, Reader.elementType]
  cases model <;> rfl

/-! ## Elements and particles -/

theorem place_eq {c : Component} {d : ElementDecl} {type : Option Node} (h : (Shape.element c d type).Explicit) :
    (if c.topLevel then flag "abstract" d.abstract else given "form" d.form ++ occurs d.occurs) =
      flag "abstract" d.abstract ++ (given "form" d.form ++ occurs d.occurs) := by
  obtain ⟨-, h⟩ := h
  split at h
  · rename_i htop
    rw [if_pos htop, h.1, h.2]
    exact (List.append_nil _).symm
  · rename_i htop
    rw [if_neg htop, h]
    rfl

theorem rereads_elementDecl (hlabel : Usable ok label) {c : Component} {d : ElementDecl} {type : Option Node}
    (hsettled : (Shape.element c d type).Settled ok)
    (hown : ∀ m ∈ type, Recites ok label .elementType m) :
    Rereads ok label (elementDecl label ⟨.element c d type⟩) fun e =>
      ReadsAs .element (Reader.element c.topLevel) e (Node.asRead ⟨.element c d type⟩) := by
  have htype := hsettled.typeName (q := d.typeName) (by simp [Shape.typeNames])
  obtain ⟨ts, hts, hyields⟩ := rereads_elementType hown
  have hwritten : elementDecl label ⟨.element c d type⟩ = .ok (tag label "element"
      (given "name" (some (c.name.getD "")) ++ given "type" (d.typeName.map fun r => label ++ ":" ++ r.name) ++
        (flag "abstract" d.abstract ++ (given "form" d.form ++ occurs d.occurs)) ++ flag "nillable" d.nillable ++
        given "default" d.default ++ given "fixed" d.fixed) ts) := by
    rw [elementDecl, typeAttribute_eq fun r hr => (htype r hr).1, hts, place_eq hsettled.explicit]
    rfl
  have htexts {value : Option String} (hvalue : ∀ v ∈ value, v ∈ c.name.toList ++ d.texts) :
      ∀ v ∈ value, Carried ok v := fun v hv => hsettled.texts v (hvalue v hv)
  have hname : ∀ v ∈ some (c.name.getD ""), Carried ok v := by
    simpa using carried_name hsettled (c := c) (by simp +contextual [Shape.texts])
  have hkeys : Distinct (["name"] ++ ["type"] ++ (["abstract"] ++ (["form"] ++ (["minOccurs"] ++ ["maxOccurs"]))) ++
      ["nillable"] ++ ["default"] ++ ["fixed"]) := by
    decide
  refine ⟨_, hwritten, hyields.tag (by decide) ?_ hkeys ?_ fun e htag hscope hlookup hread => ?_⟩
  · rw [flag_eq_given, flag_eq_given, occurs_eq_given]
    exact keys_append (keys_append (keys_append (keys_append (keys_append keys_given keys_given)
      (keys_append keys_given (keys_append keys_given (keys_append keys_given keys_given)))) keys_given) keys_given)
      keys_given
  · refine carried_append (carried_append (carried_append (carried_append (carried_append (carried_given hname)
      (carried_given (hlabel.carried_typeName fun r hr => (htype r hr).2.1)))
      (carried_append (carried_flag hlabel) (carried_append (carried_given (htexts ?_)) (carried_occurs hlabel _))))
      (carried_flag hlabel)) (carried_given (htexts ?_))) (carried_given (htexts ?_)) <;>
      simp +contextual [ElementDecl.texts]
  · have hvalue (key : String) (hkey : isPlainName key) := hlookup key hkey
    simp only [flag_eq_given, occurs_eq_given, lookup_append, lookup_given] at hvalue
    have hreadRef : Reader.name? e "ref" = .ok none := by
      rw [Reader.name?, hvalue _ rfl]
      rfl
    have hreadType : Reader.name? e "type" = .ok d.typeName :=
      name?_of_written hlabel hscope (by simpa using hvalue "type" rfl) fun r hr => ⟨(htype r hr).1, (htype r hr).2.2⟩
    have hreadGroup : Reader.name? e "substitutionGroup" = .ok none := by
      rw [Reader.name?, hvalue _ rfl]
      rfl
    have hreadOccurs : Reader.occurs e = .ok d.occurs :=
      occurs_of_written (by simpa using hvalue "minOccurs" rfl) (by simpa using hvalue "maxOccurs" rfl)
        (hsettled.bounds d.occurs rfl) (hsettled.bounded d.occurs rfl)
    have hreadNillable : Reader.flag e "nillable" = d.nillable := flag_of_written (by simpa using hvalue "nillable" rfl)
    have hreadAbstract : Reader.flag e "abstract" = d.abstract := flag_of_written (by simpa using hvalue "abstract" rfl)
    have hreadName : e.attribute? "name" = some (c.name.getD "") := by simpa using hvalue "name" rfl
    have hreadDefault : e.attribute? "default" = d.default := by simpa using hvalue "default" rfl
    have hreadFixed : e.attribute? "fixed" = d.fixed := by simpa using hvalue "fixed" rfl
    have hreadForm : e.attribute? "form" = d.form := by simpa using hvalue "form" rfl
    refine ⟨construct?_of_tag htag (by decide), ?_⟩
    obtain ⟨tag, attributes, text, scope, inner⟩ := e
    rw [Element.children] at hread
    rw [Reader.element, hreadRef]
    simp only [bind, Except.bind]
    rw [hreadType, hreadGroup, hreadOccurs, hread, hreadNillable, hreadAbstract, hreadDefault, hreadFixed, hreadForm,
      Reader.component, hreadName, Node.asRead_eq, ← hsettled.explicit.1]
    rfl

theorem rereads_modelGroup (hlabel : Usable ok label) {order : Order} {bounds : Occurs} {items : List Node}
    (hsettled : (Shape.modelGroup order bounds items).Settled ok) (horder : order ≠ .unspecified)
    (hitems : ∀ m ∈ items, Recites ok label .item m) :
    Rereads ok label (particle label ⟨.modelGroup order bounds items⟩) fun e =>
      ReadsAsGroup e (Node.asRead ⟨.modelGroup order bounds items⟩) := by
  obtain ⟨ts, hts, hyields⟩ := rereads_particles hitems
  obtain ⟨name, hname, hordered, hplain⟩ : ∃ name, orderName? order = some name ∧
      Construct.ofName name = .ordered order ∧ isPlainName name ∧ name ≠ "annotation" := by
    cases order with
    | unspecified => exact absurd rfl horder
    | sequence => exact ⟨_, rfl, by decide⟩
    | choice => exact ⟨_, rfl, by decide⟩
    | all => exact ⟨_, rfl, by decide⟩
  have hkeys : Distinct (["minOccurs"] ++ ["maxOccurs"]) := by decide
  refine ⟨tag label name (occurs bounds) ts, by rw [particle, hname, hts]; rfl,
    hyields.tag hplain.1 (by rw [occurs_eq_given]; exact keys_append keys_given keys_given) hkeys
      (carried_occurs hlabel bounds) fun e htag _ hlookup hread => ⟨order, ?_⟩⟩
  have hvalue (key : String) (hkey : isPlainName key) := hlookup key hkey
  simp only [occurs_eq_given, lookup_append, lookup_given] at hvalue
  have hreadOccurs : Reader.occurs e = .ok bounds :=
    occurs_of_written (by simpa using hvalue "minOccurs" rfl) (by simpa using hvalue "maxOccurs" rfl)
      (hsettled.bounds bounds rfl) (hsettled.bounded bounds rfl)
  have hconstruct := construct?_of_tag htag hplain.2
  rw [hordered] at hconstruct
  refine ⟨hconstruct, ?_⟩
  have hreadItems := Reader.items_of hread
  obtain ⟨tag, attributes, text, scope, inner⟩ := e
  rw [Element.children] at hreadItems
  rw [Reader.particle, hconstruct]
  dsimp only
  rw [hreadOccurs, hreadItems, Node.asRead_eq]
  rfl

theorem recites_wildcard (hlabel : Usable ok label) {w : Wildcard} {bounds : Occurs}
    (hsettled : (Shape.wildcard w bounds : Shape Node).Settled ok) :
    Recites ok label .item ⟨.wildcard w bounds⟩ := by
  have hnil : YieldAll ok label [] fun _ => True := .nil trivial
  have hkeys : Distinct (["namespace"] ++ ["processContents"] ++ (["minOccurs"] ++ ["maxOccurs"])) := by
    decide
  refine ⟨tag label "any" (wildcard w ++ occurs bounds) [], by rw [particle],
    hnil.tag (by decide) ?_ hkeys (carried_append (carried_wildcard hsettled.texts)
      (carried_occurs hlabel bounds)) fun e htag _ hlookup _ =>
        .inr (.inr ⟨construct?_of_tag htag (by decide), ?_⟩)⟩
  · rw [occurs_eq_given, wildcard]
    exact keys_append (keys_append keys_given keys_given) (keys_append keys_given keys_given)
  · have hreadWildcard : Reader.wildcard e = w := by
      refine wildcard_of_written (hlookup _ rfl) (hlookup _ rfl) ?_
      rw [occurs_eq_given]
      simp [lookup_append, lookup_given]
    have hvalue (key : String) (hkey : isPlainName key) := hlookup key hkey
    simp only [wildcard, occurs_eq_given, lookup_append, lookup_given] at hvalue
    have hreadOccurs : Reader.occurs e = .ok bounds :=
      occurs_of_written (by simpa using hvalue "minOccurs" rfl) (by simpa using hvalue "maxOccurs" rfl)
        (hsettled.bounds bounds rfl) (hsettled.bounded bounds rfl)
    dsimp only
    rw [hreadWildcard, hreadOccurs, Node.asRead_eq]
    rfl

/-- A settled construct is read again in its role if its parts are read again in theirs. -/
theorem recites_step (hlabel : Usable ok label) {role : Role} {s : Shape Node} (hsettled : s.Settled ok)
    (hinner : s.isTopLevel = false) (hsuits : s.Suits role) (hparts : ∀ r m, (r, m) ∈ s.parts → Recites ok label r m) :
    Recites ok label role ⟨s⟩ := by
  have hall (r : Role) (ns : List Node) (h : ∀ m ∈ ns, (r, m) ∈ s.parts) : ∀ m ∈ ns, Recites ok label r m :=
    fun m hm => hparts r m (h m hm)
  have hone (r : Role) (own : Option Node) (h : ∀ m ∈ own, (r, m) ∈ s.parts) : ∀ m ∈ own, Recites ok label r m :=
    fun m hm => hparts r m (h m hm)
  cases hsuits with
  | ownSimpleType c content =>
    exact recites_ownSimpleType (recites_simpleType hsettled hinner (hone _ content (by simp [Shape.parts])))
  | complexType c d members any model own =>
    exact recites_complexType hlabel hsettled hinner (hone _ model (by simp [Shape.parts]))
      (hone _ own (by simp [Shape.parts])) (hall _ members (by simp [Shape.parts])) (hone _ any (by simp [Shape.parts]))
  | simpleType c content => exact recites_simpleType hsettled hinner (hone _ content (by simp [Shape.parts]))
  | facet f => exact recites_facet hlabel hsettled
  | simpleRestriction base own fs =>
    exact recites_simpleRestriction hlabel hsettled (hone _ own (by simp [Shape.parts]))
      (hall _ fs (by simp [Shape.parts]))
  | simpleList item own => exact recites_simpleList hlabel hsettled (hone _ own (by simp [Shape.parts]))
  | simpleUnion names types => exact recites_simpleUnion hlabel hsettled (hall _ types (by simp [Shape.parts]))
  | «attribute» c d type => exact recites_attribute hlabel hsettled (hone _ type (by simp [Shape.parts]))
  | anyAttribute w => exact recites_anyAttribute hsettled
  | simpleContent content => exact recites_simpleContent (hone _ content (by simp [Shape.parts]))
  | complexContent mixed content => exact recites_complexContent hlabel (hone _ content (by simp [Shape.parts]))
  | simpleContentExtension base members any =>
    exact recites_simpleContentExtension hlabel hsettled (hall _ members (by simp [Shape.parts]))
      (hone _ any (by simp [Shape.parts]))
  | simpleContentRestriction base own fs members any =>
    exact recites_simpleContentRestriction hlabel hsettled (hone _ own (by simp [Shape.parts]))
      (hall _ fs (by simp [Shape.parts])) (hall _ members (by simp [Shape.parts])) (hone _ any (by simp [Shape.parts]))
  | complexDerivation how base own members any =>
    exact recites_complexDerivation hlabel hsettled (hone _ own (by simp [Shape.parts]))
      (hall _ members (by simp [Shape.parts])) (hone _ any (by simp [Shape.parts]))
  | particle order bounds items horder =>
    exact rereads_modelGroup hlabel hsettled horder (hall _ items (by simp [Shape.parts]))
  | groupContent order bounds items horder =>
    exact rereads_modelGroup hlabel hsettled horder (hall _ items (by simp [Shape.parts]))
  | item order bounds items horder =>
    exact (rereads_modelGroup hlabel hsettled horder (hall _ items (by simp [Shape.parts]))).imp fun e he =>
      .inr (.inl he)
  | element c d type =>
    have hwritten := rereads_elementDecl hlabel hsettled (hone _ type (by simp [Shape.parts]))
    rw [show c.topLevel = false from hinner] at hwritten
    show Rereads ok label (particle label _) _
    rw [particle]
    exact hwritten.imp fun e he => .inl he
  | wildcard w bounds => exact recites_wildcard hlabel hsettled

theorem recites (hlabel : Usable ok label) {role : Role} {n : Node} (h : Ready ok role n) : Recites ok label role n :=
  h.induction fun _ _ hready hparts => recites_step hlabel hready.built.here hready.inner
    (hready.suits hready.built.here.reference) hparts

theorem rereads_element (hlabel : Usable ok label) {n : Node} (hkind : n.shape.kind = .element)
    (h : n.Built (Shape.Settled ok)) : Rereads ok label (elementDecl label n) fun e =>
      ReadsAs .element (Reader.element n.shape.isTopLevel) e n.asRead := by
  have hsettled := h.here
  obtain ⟨s⟩ := n
  obtain ⟨c, d, type, rfl⟩ := Shape.exists_of_kind_element hkind
  refine rereads_elementDecl hlabel hsettled fun m hm => recites hlabel ?_
  exact (built_iff.1 h).2 (.elementType, m) (by simpa [Shape.parts] using hm)

end PayloadSchema.Schema.Writer
