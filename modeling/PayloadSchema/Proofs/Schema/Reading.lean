import PayloadSchema.Proofs.Log.Reports
import PayloadSchema.Proofs.Schema.LegibleConstructs

/-!
# Well-formed sources

Whatever a document holds, the schema that is read from it is well-formed: every construct that the reader
keeps is of a kind that fits the place where it is kept.  What a construct says is legible, with characters
that are in the document.

Of every element the reader makes a construct by itself, whatever is inside of it.  What holds of these single
constructs holds throughout what is read.
-/

namespace PayloadSchema.Schema.Reader

open Xml (Element)

section Bind

variable {ε α β : Type}

theorem bind_eq_ok {x : Except ε α} {next : α → Except ε β} {b : β} :
    (x >>= next) = .ok b ↔ ∃ a, x = .ok a ∧ next a = .ok b := by
  match x with
  | .error f => simp [bind, Except.bind]
  | .ok a => simp [bind, Except.bind]

theorem pure_eq_ok {a b : α} : (pure a : Except ε α) = .ok b ↔ a = b := by
  simp [pure, Except.pure]

theorem eq_ok_of_toOption {x : Except ε α} {a : α} (h : x.toOption = some a) : x = .ok a := by
  cases x with
  | error f => cases h
  | ok b =>
    cases h
    rfl

theorem run_eq_ok {σ : Type} {run : Except ε α × σ} {a : α} (h : run.1.toOption = some a) : run = (.ok a, run.2) :=
  Prod.ext (eq_ok_of_toOption h) rfl

end Bind

variable {ok : Char → Prop}

/-! ## Attributes of markup -/

section Markup

variable {e : Element} {key : String}

theorem resolve_name {scope : Xml.Scope} {value : String} {q : QName} (h : resolve scope value = .ok q) :
    q.name = (Xml.splitName value).2 := by
  rw [resolve] at h
  split at h <;> rename_i heq
  · split at h
    · cases h
      rw [heq]
    · cases h
  · cases h
    rw [heq]

theorem carried_attribute (he : ∀ a ∈ e.attributes, Carried ok a.2) {value : String}
    (h : e.attribute? key = some value) : Carried ok value :=
  he _ (Table.mem_of_get? h)

theorem legible_name? (he : ∀ a ∈ e.attributes, Carried ok a.2) {o : Option QName} (h : name? e key = .ok o) :
    ∀ q ∈ o, Spellable ok q := by
  rw [name?] at h
  split at h
  · cases h
    simp
  · rename_i value hvalue
    rintro q ⟨rfl⟩
    cases hresolve : resolve e.scope (Text.trim value) with
    | error f =>
      rw [hresolve] at h
      cases h
    | ok q =>
      rw [hresolve] at h
      cases h
      have hsuffix := Xml.splitName_suffix (Text.trim value)
      rw [← resolve_name hresolve] at hsuffix
      refine ⟨fun c hc => carried_attribute he hvalue c (Text.mem_of_mem_trim (hsuffix.subset hc)), ?_⟩
      refine Text.EndsClean.of_suffix ?_ hsuffix
      rw [Text.trim, String.toList_ofList]
      exact Text.endsClean_trimChars _

theorem legible_members (he : ∀ a ∈ e.attributes, Carried ok a.2) {qs : List QName}
    (h : (Text.words ((e.attribute? key).getD "")).mapM (resolve e.scope) = .ok qs) :
    ∀ q ∈ qs, Carried ok q.name ∧ Text.NoBlank q.name.toList := by
  have hvalue : ∀ w ∈ Text.words ((e.attribute? key).getD ""), Text.NoBlank w.toList ∧ Carried ok w := by
    intro w hw
    obtain ⟨hblank, hmem⟩ := Text.mem_words hw
    refine ⟨hblank, fun c hc => ?_⟩
    cases hkey : e.attribute? key with
    | none => simp [hkey] at hmem hc; exact absurd hc (hmem c)
    | some value => exact carried_attribute he hkey c (by simpa [hkey] using hmem c hc)
  generalize Text.words ((e.attribute? key).getD "") = words at h hvalue
  induction words generalizing qs with
  | nil =>
    cases h
    simp
  | cons w words ih =>
    rw [List.mapM_cons] at h
    obtain ⟨q, hq, h⟩ := bind_eq_ok.1 h
    obtain ⟨more, hmore, h⟩ := bind_eq_ok.1 h
    cases h
    obtain ⟨⟨hblank, hcarried⟩, hrest⟩ := List.forall_mem_cons.1 hvalue
    have hsuffix := Xml.splitName_suffix w
    rw [← resolve_name hq] at hsuffix
    exact List.forall_mem_cons.2 ⟨⟨fun c hc => hcarried c (hsuffix.subset hc),
      fun c hc => hblank c (hsuffix.subset hc)⟩, ih hmore hrest⟩

theorem short_occurs {o : Occurs} (h : occurs e = .ok o) : o.Short := by
  have hbound {value : Option String} {r : Option Int} (h : bound value = .ok r) :
      ∀ n, r = some n → n.natAbs < 10 ^ Text.maxDigits := by
    rintro n rfl
    rw [bound.eq_def] at h
    split at h
    · cases h
      exact Nat.one_lt_pow (by decide) (by decide)
    · cases h
    · split at h
      · rename_i hread
        cases h
        exact Text.natAbs_lt_of_readInteger hread
      · cases h
  rw [occurs] at h
  obtain ⟨min, hmin, h⟩ := bind_eq_ok.1 h
  obtain ⟨max, hmax, h⟩ := bind_eq_ok.1 h
  cases h
  exact fun n hn => hn.elim (hbound hmin n) (hbound hmax n)

private theorem carried_option (he : ∀ a ∈ e.attributes, Carried ok a.2) (key : String) :
    ∀ t ∈ (e.attribute? key).toList, Carried ok t := by
  intro t ht
  exact carried_attribute he (Option.mem_toList.1 ht)

private theorem carried_usage (he : ∀ a ∈ e.attributes, Carried ok a.2) : ∀ t ∈ (usage e).texts, Carried ok t := by
  intro t ht
  simp only [usage, AttributeUse.texts, List.mem_append] at ht
  rcases ht with (ht | ht) | ht <;> exact carried_option he _ t ht

private theorem carried_wildcard (he : ∀ a ∈ e.attributes, Carried ok a.2) :
    ∀ t ∈ (wildcard e).texts, Carried ok t := by
  intro t ht
  simp only [wildcard, Wildcard.texts, List.mem_append] at ht
  rcases ht with ht | ht <;> exact carried_option he _ t ht

end Markup

/-! ## Single constructs -/

/-- What the reader makes of an element by itself, whatever is inside of it and whatever place it has. -/
inductive Made (e : Element) : Shape Node → Prop where
  | facet {f : Facet} (h : facet? e = some f) : Made e (.facet f)
  | simpleType (topLevel : Bool) (own : Option Node) : Made e (.simpleType (component e topLevel) own)
  | simpleRestriction {base : Option QName} (h : name? e "base" = .ok base) (own : Option Node) (facets : List Node) :
      Made e (.simpleRestriction base own facets)
  | simpleList {item : Option QName} (h : name? e "itemType" = .ok item) (own : Option Node) :
      Made e (.simpleList item own)
  | simpleUnion {members : List QName}
      (h : (Text.words ((e.attribute? "memberTypes").getD "")).mapM (resolve e.scope) = .ok members)
      (types : List Node) : Made e (.simpleUnion members types)
  | attributeRef (ref : Option QName) : Made e (.attributeRef ref (usage e))
  | attributeDecl {typeName : Option QName} (h : name? e "type" = .ok typeName) (topLevel : Bool) (own : Option Node) :
      Made e (.attribute (component e topLevel) ⟨typeName, usage e, e.attribute? "form"⟩ own)
  | attributeGroupRef (ref : Option QName) : Made e (.attributeGroupRef ref)
  | anyAttribute : Made e (.anyAttribute (wildcard e))
  | elementRef {bounds : Occurs} (h : occurs e = .ok bounds) (ref : Option QName) : Made e (.elementRef ref bounds)
  | element {typeName : Option QName} {bounds : Occurs} (hname : name? e "type" = .ok typeName)
      (h : occurs e = .ok bounds) (topLevel : Bool) (substitutionGroup : Option QName) (own : Option Node) :
      Made e (.element (component e topLevel) ⟨typeName, substitutionGroup, bounds, flag e "nillable",
        flag e "abstract", e.attribute? "default", e.attribute? "fixed", e.attribute? "form"⟩ own)
  | modelGroup {bounds : Occurs} (h : occurs e = .ok bounds) (order : Order) (items : List Node) :
      Made e (.modelGroup order bounds items)
  | groupRef {bounds : Occurs} (h : occurs e = .ok bounds) (ref : Option QName) : Made e (.groupRef ref bounds)
  | wildcard {bounds : Occurs} (h : occurs e = .ok bounds) : Made e (.wildcard (wildcard e) bounds)
  | complexType (topLevel : Bool) (members : List Node) (any model own : Option Node) :
      Made e (.complexType (component e topLevel) ⟨flag e "mixed", flag e "abstract"⟩ members any model own)
  | simpleContent (content : Option Node) : Made e (.simpleContent content)
  | complexContent (content : Option Node) :
      Made e (.complexContent ((e.attribute? "mixed").map fun _ => flag e "mixed") content)
  | simpleContentExtension {base : Option QName} (h : name? e "base" = .ok base) (members : List Node)
      (any : Option Node) : Made e (.simpleContentExtension base members any)
  | simpleContentRestriction {base : Option QName} (h : name? e "base" = .ok base) (own : Option Node)
      (facets members : List Node) (any : Option Node) :
      Made e (.simpleContentRestriction base own facets members any)
  | complexDerivation {base : Option QName} (h : name? e "base" = .ok base) (how : Derivation) (own : Option Node)
      (members : List Node) (any : Option Node) : Made e (.complexDerivation how base own members any)
  | group (topLevel : Bool) (own : Option Node) : Made e (.group (component e topLevel) own)
  | attributeGroup (topLevel : Bool) (members : List Node) (any : Option Node) :
      Made e (.attributeGroup (component e topLevel) members any)

section Made

variable {e : Element} {s : Shape Node}

private theorem legible_naming (h : ∀ q ∈ s.typeNames, Spellable ok q) (htexts : s.texts = [])
    (hmembers : s.members = []) (hbounds : s.occurs? = none) (hfacet : s.facet? = none) : s.Legible ok :=
  ⟨by simp [htexts], h, by simp [hmembers], by simp [hbounds], by simp [hfacet]⟩

private theorem legible_bounded {o : Occurs} (h : o.Short) (hbounds : s.occurs? = some o) (htexts : s.texts = [])
    (hnames : s.typeNames = []) (hmembers : s.members = []) (hfacet : s.facet? = none) : s.Legible ok :=
  ⟨by simp [htexts], by simp [hnames], by simp [hmembers], by simpa [hbounds] using h, by simp [hfacet]⟩

theorem mem_facetNames {name : String} (h : construct? e = some (.facet name)) : name ∈ facetNames := by
  unfold construct? at h
  split at h
  · rw [Option.some_inj, Construct.ofName.eq_def] at h
    split at h <;> first | cases h | skip
    split at h
    · rename_i hmem
      cases h
      exact hmem
    · cases h
  · cases h

theorem legible_facet {f : Facet} (he : ∀ a ∈ e.attributes, Carried ok a.2) (h : facet? e = some f) :
    (Shape.facet f : Shape Node).Legible ok := by
  rw [facet?] at h
  split at h
  · rename_i name hname
    cases h
    refine ⟨?_, by simp [Shape.typeNames], by simp [Shape.members], by simp [Shape.occurs?], ?_⟩
    · simp only [Shape.texts, List.mem_singleton, forall_eq]
      cases hvalue : e.attribute? "value" with
      | none => simp [Carried]
      | some value => exact carried_attribute he hvalue
    · rintro _ ⟨rfl⟩
      exact mem_facetNames hname
  · cases h

theorem Made.legible (h : Made e s) (he : ∀ a ∈ e.attributes, Carried ok a.2) : s.Legible ok := by
  cases h with
  | facet h => exact legible_facet he h
  | simpleType | attributeGroupRef | complexType | simpleContent | complexContent | group | attributeGroup =>
    exact Shape.legible_silent rfl rfl rfl rfl rfl
  | simpleRestriction h | simpleList h | simpleContentExtension h | simpleContentRestriction h | complexDerivation h =>
    exact legible_naming (by simpa [Shape.typeNames] using legible_name? he h) rfl rfl rfl rfl
  | simpleUnion h =>
    have hmembers := legible_members he h
    exact ⟨by simp [Shape.texts], fun q hq => ⟨(hmembers q hq).1, (hmembers q hq).2.endsClean⟩,
      fun q hq => (hmembers q hq).2, by simp [Shape.occurs?], by simp [Shape.facet?]⟩
  | attributeRef =>
    exact ⟨carried_usage he, by simp [Shape.typeNames], by simp [Shape.members], by simp [Shape.occurs?],
      by simp [Shape.facet?]⟩
  | attributeDecl hname =>
    refine ⟨fun t ht => ?_, by simpa [Shape.typeNames] using legible_name? he hname, by simp [Shape.members],
      by simp [Shape.occurs?], by simp [Shape.facet?]⟩
    simp only [Shape.texts, component, List.mem_append] at ht
    rcases ht with (ht | ht) | ht
    · exact carried_option he _ t ht
    · exact carried_usage he t ht
    · exact carried_option he _ t ht
  | anyAttribute =>
    exact ⟨carried_wildcard he, by simp [Shape.typeNames], by simp [Shape.members], by simp [Shape.occurs?],
      by simp [Shape.facet?]⟩
  | elementRef h | modelGroup h | groupRef h => exact legible_bounded (short_occurs h) rfl rfl rfl rfl rfl
  | element hname h =>
    refine ⟨fun t ht => ?_, by simpa [Shape.typeNames] using legible_name? he hname, by simp [Shape.members],
      by simpa [Shape.occurs?] using short_occurs h, by simp [Shape.facet?]⟩
    simp only [Shape.texts, component, ElementDecl.texts, List.mem_append] at ht
    rcases ht with ht | (ht | ht) | ht <;> exact carried_option he _ t ht
  | wildcard h =>
    exact ⟨carried_wildcard he, by simp [Shape.typeNames], by simp [Shape.members],
      by simpa [Shape.occurs?] using short_occurs h, by simp [Shape.facet?]⟩

theorem Made.occurs_eq (h : Made e s) {o : Occurs} (ho : s.occurs? = some o) : occurs e = .ok o := by
  cases h with
  | elementRef h | modelGroup h | groupRef h | wildcard h =>
    cases ho
    exact h
  | element _ h =>
    cases ho
    exact h
  | _ => cases ho

theorem Made.withComponent {c : Component} (h : Made e s) (hown : s.component? = some c) :
    Made e (s.withComponent { c with topLevel := true }) := by
  cases h with
  | simpleType =>
    cases hown
    exact .simpleType true _
  | attributeDecl h =>
    cases hown
    exact .attributeDecl h true _
  | element hname h =>
    cases hown
    exact .element hname h true _ _
  | complexType =>
    cases hown
    exact .complexType true _ _ _ _
  | group =>
    cases hown
    exact .group true _
  | attributeGroup =>
    cases hown
    exact .attributeGroup true _ _
  | _ => cases hown

end Made

/-! ## Trees -/

/-- A construct that the reader makes of an element with a property. -/
def MadeOf (has : Element → Prop) (s : Shape Node) : Prop :=
  ∃ e, has e ∧ Made e s

abbrev Stems (has : Element → Prop) (role : Role) (n : Node) : Prop := Fits (MadeOf has) role n

variable {has : Element → Prop}

theorem Made.built {e : Element} {s : Shape Node} (h : Made e s) (he : e.Everywhere has)
    (hparts : ∀ part ∈ s.parts, Stems has part.1 part.2) : Node.Built (MadeOf has) ⟨s⟩ :=
  built_iff.2 ⟨⟨e, he.here, h⟩, hparts⟩

theorem Made.stems {e : Element} {s : Shape Node} {role : Role} (h : Made e s) (he : e.Everywhere has)
    (hadmits : role.admits s.kind) (htop : s.isTopLevel = false)
    (hparts : ∀ part ∈ s.parts, Stems has part.1 part.2) : Stems has role ⟨s⟩ :=
  ⟨hadmits, htop, h.built he hparts⟩

theorem facets_stem {es : List Element} (hes : ∀ e ∈ es, e.Everywhere has) :
    ∀ n ∈ facets es, Stems has .facet n := by
  intro n hn
  obtain ⟨f, hf, rfl⟩ := List.mem_map.1 hn
  obtain ⟨e, he, hf⟩ := List.mem_filterMap.1 hf
  exact (Made.facet hf).stems (hes e he) rfl rfl (by simp [Shape.parts])

theorem order_ne_unspecified {e : Element} {order : Order}
    (h : construct? e = some (.ordered order)) : order ≠ .unspecified := by
  rintro rfl
  unfold construct? at h
  split at h
  · rw [Option.some_inj, Construct.ofName.eq_def] at h
    split at h <;> first | cases h | skip
    split at h <;> cases h
  · cases h

private theorem admits_ordered {role : Role} (hrole : role = .particle ∨ role = .item ∨ role = .groupContent)
    {order : Order} (horder : order ≠ .unspecified) (bounds : Occurs) (items : List Node) :
    role.admits (Shape.modelGroup order bounds items).kind := by
  rcases hrole with rfl | rfl | rfl <;> cases order <;> first | rfl | exact absurd rfl horder

/-! ## Simple types and attributes -/

-- One lemma for each function of the reader: what it makes stems from the elements that it is given.
mutual

theorem simpleType_stems {e : Element} {n : Node} (he : e.Everywhere has) (h : simpleType e = .ok n) :
    Stems has .simpleType n := by
  cases e with
  | mk _ _ _ _ inner =>
    rw [simpleType, bind_eq_ok] at h
    obtain ⟨content, hcontent, h⟩ := h
    rw [pure_eq_ok] at h
    subst h
    have hstems := simpleTypeContent_stems (fun x hx => he.child hx) (by simp) hcontent
    exact (Made.simpleType false content).stems he rfl rfl (by simpa [Shape.parts] using hstems)

theorem simpleTypeContent_stems {es : List Element} {own o : Option Node} (hes : ∀ e ∈ es, e.Everywhere has)
    (hown : ∀ n ∈ own, Stems has .simpleVariety n) (h : simpleTypeContent own es = .ok o) :
    ∀ n ∈ o, Stems has .simpleVariety n := by
  cases es with
  | nil =>
    rw [simpleTypeContent, pure_eq_ok] at h
    exact h ▸ hown
  | cons e es =>
    obtain ⟨he, hrest⟩ := List.forall_mem_cons.1 hes
    cases e with
    | mk _ _ _ _ inner =>
      have hinner : ∀ x ∈ inner, x.Everywhere has := fun x hx => he.child hx
      rw [simpleTypeContent] at h
      split at h
      · simp only [bind_eq_ok] at h
        obtain ⟨base, hname, baseType, hbase, h⟩ := h
        have hbase := innerSimpleType_stems hinner (by simp) hbase
        refine simpleTypeContent_stems hrest ?_ h
        rintro n ⟨rfl⟩
        refine (Made.simpleRestriction hname _ _).stems he rfl rfl ?_
        simpa [Shape.parts, or_imp, forall_and] using ⟨hbase, facets_stem hinner⟩
      · simp only [bind_eq_ok] at h
        obtain ⟨item, hname, itemType, hitem, h⟩ := h
        have hitem := innerSimpleType_stems hinner (by simp) hitem
        refine simpleTypeContent_stems hrest ?_ h
        rintro n ⟨rfl⟩
        exact (Made.simpleList hname _).stems he rfl rfl (by simpa [Shape.parts] using hitem)
      · simp only [bind_eq_ok] at h
        obtain ⟨members, hnames, memberTypes, hmembers, h⟩ := h
        have hmembers := simpleTypes_stem hinner hmembers
        refine simpleTypeContent_stems hrest ?_ h
        rintro n ⟨rfl⟩
        exact (Made.simpleUnion hnames _).stems he rfl rfl (by simpa [Shape.parts] using hmembers)
      · exact simpleTypeContent_stems hrest hown h

theorem innerSimpleType_stems {es : List Element} {own o : Option Node} (hes : ∀ e ∈ es, e.Everywhere has)
    (hown : ∀ n ∈ own, Stems has .simpleType n) (h : innerSimpleType own es = .ok o) :
    ∀ n ∈ o, Stems has .simpleType n := by
  cases es with
  | nil =>
    rw [innerSimpleType, pure_eq_ok] at h
    exact h ▸ hown
  | cons e es =>
    obtain ⟨he, hrest⟩ := List.forall_mem_cons.1 hes
    rw [innerSimpleType] at h
    split at h
    · rw [bind_eq_ok] at h
      obtain ⟨t, ht, h⟩ := h
      have ht := simpleType_stems he ht
      exact innerSimpleType_stems hrest (by rintro n ⟨rfl⟩; exact ht) h
    · exact innerSimpleType_stems hrest hown h

theorem simpleTypes_stem {es : List Element} {ns : List Node} (hes : ∀ e ∈ es, e.Everywhere has)
    (h : simpleTypes es = .ok ns) : ∀ n ∈ ns, Stems has .simpleType n := by
  cases es with
  | nil =>
    rw [simpleTypes, pure_eq_ok] at h
    simp [← h]
  | cons e es =>
    obtain ⟨he, hrest⟩ := List.forall_mem_cons.1 hes
    rw [simpleTypes] at h
    split at h
    · simp only [bind_eq_ok, pure_eq_ok] at h
      obtain ⟨t, ht, ts, hts, rfl⟩ := h
      exact List.forall_mem_cons.2 ⟨simpleType_stems he ht, simpleTypes_stem hrest hts⟩
    · exact simpleTypes_stem hrest h

end

/-- An attribute that is read stands where it is said to stand, or refers to one. -/
theorem attributeOrRef_built {topLevel : Bool} {e : Element} {n : Node} (he : e.Everywhere has)
    (h : attributeOrRef topLevel e = .ok n) :
    n.Built (MadeOf has) ∧ ((∃ ref usage, n = ⟨.attributeRef ref usage⟩) ∨
      ∃ decl type, n = ⟨.attribute (component e topLevel) decl type⟩) := by
  cases e with
  | mk _ _ _ _ inner =>
    rw [attributeOrRef, bind_eq_ok] at h
    obtain ⟨ref, -, h⟩ := h
    cases ref with
    | some ref =>
      cases h
      exact ⟨(Made.attributeRef (some ref)).built he (by simp [Shape.parts]), .inl ⟨_, _, rfl⟩⟩
    | none =>
      simp only [bind_eq_ok, pure_eq_ok] at h
      obtain ⟨typeName, hname, own, hown, rfl⟩ := h
      have hown := innerSimpleType_stems (fun x hx => he.child hx) (by simp) hown
      exact ⟨(Made.attributeDecl hname topLevel own).built he (by simpa [Shape.parts] using hown), .inr ⟨_, _, rfl⟩⟩

theorem attributeOrRef_stems {e : Element} {n : Node} (he : e.Everywhere has) (h : attributeOrRef false e = .ok n) :
    Stems has .attribute n := by
  obtain ⟨hbuilt, ⟨ref, usage, rfl⟩ | ⟨decl, type, rfl⟩⟩ := attributeOrRef_built he h
  · exact ⟨rfl, rfl, hbuilt⟩
  · exact ⟨rfl, rfl, hbuilt⟩

theorem attributes_stem {es : List Element} {any o : Option Node} {ns : List Node}
    (hes : ∀ e ∈ es, e.Everywhere has) (hany : ∀ n ∈ any, Stems has .anyAttribute n)
    (h : attributes any es = .ok (ns, o)) :
    (∀ n ∈ ns, Stems has .attribute n) ∧ ∀ n ∈ o, Stems has .anyAttribute n := by
  induction es generalizing any ns o with
  | nil =>
    rw [attributes, pure_eq_ok] at h
    cases h
    exact ⟨by simp, hany⟩
  | cons e es ih =>
    obtain ⟨he, hrest⟩ := List.forall_mem_cons.1 hes
    rw [attributes.eq_def] at h
    simp only at h
    split at h
    · simp only [bind_eq_ok, pure_eq_ok] at h
      obtain ⟨a, ha, ⟨more, any'⟩, hmore, h⟩ := h
      cases h
      obtain ⟨hmore, hany'⟩ := ih hrest hany hmore
      exact ⟨List.forall_mem_cons.2 ⟨attributeOrRef_stems he ha, hmore⟩, hany'⟩
    · simp only [bind_eq_ok, pure_eq_ok] at h
      obtain ⟨ref, -, ⟨more, any'⟩, hmore, h⟩ := h
      cases h
      obtain ⟨hmore, hany'⟩ := ih hrest hany hmore
      have hgroup : Stems has .attribute ⟨.attributeGroupRef ref⟩ :=
        (Made.attributeGroupRef ref).stems he rfl rfl (by simp [Shape.parts])
      exact ⟨List.forall_mem_cons.2 ⟨hgroup, hmore⟩, hany'⟩
    · refine ih hrest ?_ h
      rintro n ⟨rfl⟩
      exact Made.anyAttribute.stems he rfl rfl (by simp [Shape.parts])
    · exact ih hrest hany h

/-! ## Elements, particles and complex types -/

mutual

/-- An element that is read stands where it is said to stand, or refers to one. -/
theorem element_built {topLevel : Bool} {e : Element} {n : Node} (he : e.Everywhere has)
    (h : element topLevel e = .ok n) :
    n.Built (MadeOf has) ∧ ((∃ ref bounds, n = ⟨.elementRef ref bounds⟩) ∨
      ∃ decl type, n = ⟨.element (component e topLevel) decl type⟩) := by
  cases e with
  | mk _ _ _ _ inner =>
    rw [element, bind_eq_ok] at h
    obtain ⟨ref, -, h⟩ := h
    cases ref with
    | some ref =>
      simp only [bind_eq_ok, pure_eq_ok] at h
      obtain ⟨bounds, hbounds, rfl⟩ := h
      exact ⟨(Made.elementRef hbounds (some ref)).built he (by simp [Shape.parts]), .inl ⟨_, _, rfl⟩⟩
    | none =>
      simp only [bind_eq_ok, pure_eq_ok] at h
      obtain ⟨typeName, hname, substitutionGroup, -, bounds, hbounds, own, hown, rfl⟩ := h
      have hown := elementType_stems (fun x hx => he.child hx) (by simp) hown
      exact ⟨(Made.element hname hbounds topLevel substitutionGroup own).built he
        (by simpa [Shape.parts] using hown), .inr ⟨_, _, rfl⟩⟩

theorem elementType_stems {es : List Element} {own o : Option Node} (hes : ∀ e ∈ es, e.Everywhere has)
    (hown : ∀ n ∈ own, Stems has .elementType n) (h : elementType own es = .ok o) :
    ∀ n ∈ o, Stems has .elementType n := by
  cases es with
  | nil =>
    rw [elementType, pure_eq_ok] at h
    exact h ▸ hown
  | cons e es =>
    obtain ⟨he, hrest⟩ := List.forall_mem_cons.1 hes
    rw [elementType] at h
    split at h
    · rw [bind_eq_ok] at h
      obtain ⟨t, ht, h⟩ := h
      have ht := simpleType_stems he ht
      have hkind : Role.elementType.admits t.shape.kind := by
        have := ht.admits
        revert this
        cases t.shape.kind <;> decide
      exact elementType_stems hrest (by rintro n ⟨rfl⟩; exact ⟨hkind, ht.inner, ht.built⟩) h
    · rw [bind_eq_ok] at h
      obtain ⟨t, ht, h⟩ := h
      have ht := complexType_stems he ht
      exact elementType_stems hrest (by rintro n ⟨rfl⟩; exact ht.1) h
    · exact elementType_stems hrest hown h

/-- A particle that is read is a model group, or a reference to one where the markup is none. -/
theorem particle_stems {e : Element} {n : Node} (he : e.Everywhere has) (h : particle e = .ok n) :
    (∀ role, role = .particle ∨ role = .item → Stems has role n) ∧
      ((∃ order, construct? e = some (.ordered order)) → Stems has .groupContent n) := by
  cases e with
  | mk tag attrs text tail inner =>
    rw [particle] at h
    split at h
    · rename_i order horder
      simp only [bind_eq_ok, pure_eq_ok] at h
      obtain ⟨bounds, hbounds, is, his, rfl⟩ := h
      have his := items_stem (fun x hx => he.child hx) his
      have hne := order_ne_unspecified horder
      have hstems {role : Role} (hrole : role = .particle ∨ role = .item ∨ role = .groupContent) :
          Stems has role ⟨.modelGroup order bounds is⟩ :=
        (Made.modelGroup hbounds order is).stems he (admits_ordered hrole hne bounds is) rfl
          (by simpa [Shape.parts] using his)
      exact ⟨fun role hrole => hstems (by tauto), fun _ => hstems (by tauto)⟩
    · rename_i hother
      simp only [bind_eq_ok, pure_eq_ok] at h
      obtain ⟨ref, -, bounds, hbounds, rfl⟩ := h
      refine ⟨?_, fun ⟨order, horder⟩ => absurd horder (hother order)⟩
      rintro role (rfl | rfl) <;> exact (Made.groupRef hbounds ref).stems he rfl rfl (by simp [Shape.parts])

theorem items_stem {es : List Element} {ns : List Node} (hes : ∀ e ∈ es, e.Everywhere has)
    (h : items es = .ok ns) : ∀ n ∈ ns, Stems has .item n := by
  cases es with
  | nil =>
    rw [items, pure_eq_ok] at h
    simp [← h]
  | cons e es =>
    obtain ⟨he, hrest⟩ := List.forall_mem_cons.1 hes
    rw [items] at h
    split at h
    · simp only [bind_eq_ok, pure_eq_ok] at h
      obtain ⟨n, hn, more, hmore, rfl⟩ := h
      have hn : Stems has .item n := by
        obtain ⟨hbuilt, ⟨ref, bounds, rfl⟩ | ⟨decl, type, rfl⟩⟩ := element_built he hn
        · exact ⟨rfl, rfl, hbuilt⟩
        · exact ⟨rfl, rfl, hbuilt⟩
      exact List.forall_mem_cons.2 ⟨hn, items_stem hrest hmore⟩
    · simp only [bind_eq_ok, pure_eq_ok] at h
      obtain ⟨n, hn, more, hmore, rfl⟩ := h
      exact List.forall_mem_cons.2 ⟨(particle_stems he hn).1 .item (.inr rfl), items_stem hrest hmore⟩
    · simp only [bind_eq_ok, pure_eq_ok] at h
      obtain ⟨n, hn, more, hmore, rfl⟩ := h
      exact List.forall_mem_cons.2 ⟨(particle_stems he hn).1 .item (.inr rfl), items_stem hrest hmore⟩
    · simp only [bind_eq_ok, pure_eq_ok] at h
      obtain ⟨bounds, hbounds, more, hmore, rfl⟩ := h
      refine List.forall_mem_cons.2 ⟨?_, items_stem hrest hmore⟩
      exact (Made.wildcard hbounds).stems he rfl rfl (by simp [Shape.parts])
    · exact items_stem hrest h

theorem innerParticle_stems {groups : Bool} {es : List Element} {own o : Option Node}
    (hes : ∀ e ∈ es, e.Everywhere has)
    (hown : ∀ n ∈ own, Stems has (if groups then .particle else .groupContent) n)
    (h : innerParticle groups own es = .ok o) :
    ∀ n ∈ o, Stems has (if groups then .particle else .groupContent) n := by
  cases es with
  | nil =>
    rw [innerParticle, pure_eq_ok] at h
    exact h ▸ hown
  | cons e es =>
    obtain ⟨he, hrest⟩ := List.forall_mem_cons.1 hes
    rw [innerParticle] at h
    split at h
    · rename_i order horder
      rw [bind_eq_ok] at h
      obtain ⟨p, hp, h⟩ := h
      obtain ⟨hparticle, hcontent⟩ := particle_stems he hp
      refine innerParticle_stems hrest ?_ h
      rintro n ⟨rfl⟩
      cases groups with
      | true => exact hparticle .particle (.inl rfl)
      | false => exact hcontent ⟨order, horder⟩
    · split at h
      · rename_i hgroups
        subst hgroups
        rw [bind_eq_ok] at h
        obtain ⟨p, hp, h⟩ := h
        have hp := (particle_stems he hp).1 .particle (.inl rfl)
        exact innerParticle_stems hrest (by rintro n ⟨rfl⟩; exact hp) h
      · exact innerParticle_stems hrest hown h
    · exact innerParticle_stems hrest hown h

theorem complexType_stems {e : Element} {n : Node} (he : e.Everywhere has) (h : complexType e = .ok n) :
    Stems has .elementType n ∧ n.shape.kind = .complexType := by
  cases e with
  | mk _ _ _ _ inner =>
    have hinner : ∀ x ∈ inner, x.Everywhere has := fun x hx => he.child hx
    simp only [complexType, bind_eq_ok, pure_eq_ok] at h
    obtain ⟨⟨members, any⟩, hmembers, ⟨model, own⟩, hparts, rfl⟩ := h
    obtain ⟨hmembers, hany⟩ := attributes_stem hinner (by simp) hmembers
    obtain ⟨hmodel, hown⟩ := complexParts_stem hinner (by simp) (by simp) hparts
    refine ⟨(Made.complexType false members any model own).stems he rfl rfl ?_, rfl⟩
    simpa [Shape.parts, or_imp, forall_and] using ⟨hmodel, hown, hmembers, hany⟩

theorem complexParts_stem {es : List Element} {model own model' own' : Option Node}
    (hes : ∀ e ∈ es, e.Everywhere has)
    (hmodel : ∀ n ∈ model, Stems has .model n) (hown : ∀ n ∈ own, Stems has .particle n)
    (h : complexParts model own es = .ok (model', own')) :
    (∀ n ∈ model', Stems has .model n) ∧ ∀ n ∈ own', Stems has .particle n := by
  cases es with
  | nil =>
    rw [complexParts, pure_eq_ok] at h
    cases h
    exact ⟨hmodel, hown⟩
  | cons e es =>
    obtain ⟨he, hrest⟩ := List.forall_mem_cons.1 hes
    rw [complexParts] at h
    split at h
    · rw [bind_eq_ok] at h
      obtain ⟨p, hp, h⟩ := h
      have hp := (particle_stems he hp).1 .particle (.inl rfl)
      exact complexParts_stem hrest hmodel (by rintro n ⟨rfl⟩; exact hp) h
    · rw [bind_eq_ok] at h
      obtain ⟨p, hp, h⟩ := h
      have hp := (particle_stems he hp).1 .particle (.inl rfl)
      exact complexParts_stem hrest hmodel (by rintro n ⟨rfl⟩; exact hp) h
    · rw [bind_eq_ok] at h
      obtain ⟨m, hm, h⟩ := h
      have hm := simpleContent_stems he hm
      exact complexParts_stem hrest (by rintro n ⟨rfl⟩; exact hm) hown h
    · rw [bind_eq_ok] at h
      obtain ⟨m, hm, h⟩ := h
      have hm := complexContent_stems he hm
      exact complexParts_stem hrest (by rintro n ⟨rfl⟩; exact hm) hown h
    · exact complexParts_stem hrest hmodel hown h

theorem simpleContent_stems {e : Element} {n : Node} (he : e.Everywhere has) (h : simpleContent e = .ok n) :
    Stems has .model n := by
  cases e with
  | mk _ _ _ _ inner =>
    rw [simpleContent, bind_eq_ok] at h
    obtain ⟨content, hcontent, h⟩ := h
    rw [pure_eq_ok] at h
    subst h
    have hcontent := simpleDerivation_stems (fun x hx => he.child hx) (by simp) hcontent
    exact (Made.simpleContent content).stems he rfl rfl (by simpa [Shape.parts] using hcontent)

theorem simpleDerivation_stems {es : List Element} {own o : Option Node} (hes : ∀ e ∈ es, e.Everywhere has)
    (hown : ∀ n ∈ own, Stems has .simpleDerivation n) (h : simpleDerivation own es = .ok o) :
    ∀ n ∈ o, Stems has .simpleDerivation n := by
  cases es with
  | nil =>
    rw [simpleDerivation, pure_eq_ok] at h
    exact h ▸ hown
  | cons e es =>
    obtain ⟨he, hrest⟩ := List.forall_mem_cons.1 hes
    cases e with
    | mk _ _ _ _ inner =>
      have hinner : ∀ x ∈ inner, x.Everywhere has := fun x hx => he.child hx
      rw [simpleDerivation] at h
      split at h
      · exact simpleDerivation_stems hrest hown h
      · rw [bind_eq_ok] at h
        obtain ⟨⟨members, any⟩, hmembers, h⟩ := h
        obtain ⟨hmembers, hany⟩ := attributes_stem hinner (by simp) hmembers
        simp only at h
        split at h
        · rw [bind_eq_ok] at h
          obtain ⟨base, hname, h⟩ := h
          refine simpleDerivation_stems hrest ?_ h
          rintro n ⟨rfl⟩
          refine (Made.simpleContentExtension hname members any).stems he rfl rfl ?_
          simpa [Shape.parts, or_imp, forall_and] using ⟨hmembers, hany⟩
        · simp only [bind_eq_ok] at h
          obtain ⟨base, hname, baseType, hbase, h⟩ := h
          have hbase := innerSimpleType_stems hinner (by simp) hbase
          refine simpleDerivation_stems hrest ?_ h
          rintro n ⟨rfl⟩
          refine (Made.simpleContentRestriction hname _ _ members any).stems he rfl rfl ?_
          simpa [Shape.parts, or_imp, forall_and] using ⟨hbase, facets_stem hinner, hmembers, hany⟩
        · exact simpleDerivation_stems hrest hown h

theorem complexContent_stems {e : Element} {n : Node} (he : e.Everywhere has) (h : complexContent e = .ok n) :
    Stems has .model n := by
  cases e with
  | mk _ _ _ _ inner =>
    rw [complexContent, bind_eq_ok] at h
    obtain ⟨content, hcontent, h⟩ := h
    rw [pure_eq_ok] at h
    subst h
    have hcontent := complexDerivation_stems (fun x hx => he.child hx) (by simp) hcontent
    exact (Made.complexContent content).stems he rfl rfl (by simpa [Shape.parts] using hcontent)

theorem complexDerivation_stems {es : List Element} {own o : Option Node} (hes : ∀ e ∈ es, e.Everywhere has)
    (hown : ∀ n ∈ own, Stems has .complexDerivation n) (h : complexDerivation own es = .ok o) :
    ∀ n ∈ o, Stems has .complexDerivation n := by
  cases es with
  | nil =>
    rw [complexDerivation, pure_eq_ok] at h
    exact h ▸ hown
  | cons e es =>
    obtain ⟨he, hrest⟩ := List.forall_mem_cons.1 hes
    cases e with
    | mk tag attrs text scope inner =>
      have hinner : ∀ x ∈ inner, x.Everywhere has := fun x hx => he.child hx
      have hderived (how : Derivation) {base : Option QName} {members : List Node}
          {any particle : Option Node} (hname : name? (.mk tag attrs text scope inner) "base" = .ok base)
          (hmembers : (∀ n ∈ members, Stems has .attribute n) ∧ ∀ n ∈ any, Stems has .anyAttribute n)
          (hparticle : ∀ n ∈ particle, Stems has .particle n) :
          Stems has .complexDerivation ⟨.complexDerivation how base particle members any⟩ := by
        refine (Made.complexDerivation hname how particle members any).stems he (by cases how <;> rfl) rfl ?_
        simpa [Shape.parts, or_imp, forall_and] using ⟨hparticle, hmembers.1, hmembers.2⟩
      rw [complexDerivation] at h
      split at h
      · simp only [bind_eq_ok] at h
        obtain ⟨base, hname, ⟨members, any⟩, hmembers, own', hown', h⟩ := h
        have hmembers := attributes_stem hinner (by simp) hmembers
        have hown' := innerParticle_stems hinner (by simp) hown'
        exact complexDerivation_stems hrest (by rintro n ⟨rfl⟩; exact hderived _ hname hmembers hown') h
      · simp only [bind_eq_ok] at h
        obtain ⟨base, hname, ⟨members, any⟩, hmembers, own', hown', h⟩ := h
        have hmembers := attributes_stem hinner (by simp) hmembers
        have hown' := innerParticle_stems hinner (by simp) hown'
        exact complexDerivation_stems hrest (by rintro n ⟨rfl⟩; exact hderived _ hname hmembers hown') h
      · exact complexDerivation_stems hrest hown h

end

/-! ## Schemas -/

theorem group_built {e : Element} {n : Node} (he : e.Everywhere has) (h : group e = .ok n) :
    n.Built (MadeOf has) ∧ n.shape.kind = .group := by
  simp only [group, bind_eq_ok, pure_eq_ok] at h
  obtain ⟨own, hown, rfl⟩ := h
  have hown := innerParticle_stems (fun x hx => he.child hx) (by simp) hown
  exact ⟨(Made.group true own).built he (by simpa [Shape.parts] using hown), rfl⟩

theorem attributeGroup_built {e : Element} {n : Node} (he : e.Everywhere has) (h : attributeGroup e = .ok n) :
    n.Built (MadeOf has) ∧ n.shape.kind = .attributeGroup := by
  simp only [attributeGroup, bind_eq_ok, pure_eq_ok] at h
  obtain ⟨⟨members, any⟩, hmembers, rfl⟩ := h
  obtain ⟨hmembers, hany⟩ := attributes_stem (fun x hx => he.child hx) (by simp) hmembers
  refine ⟨(Made.attributeGroup true members any).built he ?_, rfl⟩
  simpa [Shape.parts, or_imp, forall_and] using ⟨hmembers, hany⟩

end PayloadSchema.Schema.Reader

namespace PayloadSchema.Schema

open Reader

theorem Components.mem_put {α : Type} {t : Components α} {name : Option String} {a : α}
    {e : Option String × α} (h : e ∈ t.put name a) : e ∈ t ∨ e = (name, a) := by
  induction t with
  | nil => simpa [Table.put] using h
  | cons e' t ih =>
    rw [Table.put] at h
    split at h
    · rcases List.mem_cons.1 h with h | h
      · exact .inr h
      · exact .inl (List.mem_cons_of_mem e' h)
    · rcases List.mem_cons.1 h with rfl | h
      · exact .inl List.mem_cons_self
      · exact (ih h).imp_left (List.mem_cons_of_mem e')

@[simp] theorem Shape.kind_withComponent {α : Type} (c : Component) (s : Shape α) :
    (s.withComponent c).kind = s.kind := by
  cases s <;> rfl

theorem Shape.component?_withComponent {α : Type} {c own : Component} {s : Shape α}
    (h : s.component? = some own) : (s.withComponent c).component? = some c := by
  cases s <;> first | rfl | cases h

theorem Components.mem_keys_put {α : Type} {t : Components α} {name key : Option String} {a : α} :
    key ∈ (t.put name a).map (·.1) ↔ key = name ∨ key ∈ t.map (·.1) := by
  induction t with
  | nil => simp [Table.put]
  | cons e t ih =>
    rw [Table.put]
    split
    · rename_i he
      simp [he]
    · rw [List.map_cons, List.mem_cons, ih, List.map_cons, List.mem_cons, or_left_comm]

theorem Components.nodup_put {α : Type} {t : Components α} (h : (t.map (·.1)).Nodup) (name : Option String)
    (a : α) : ((t.put name a).map (·.1)).Nodup := by
  induction t with
  | nil => simp [Table.put]
  | cons e t ih =>
    rw [List.map_cons, List.nodup_cons] at h
    rw [Table.put]
    split
    · rename_i he
      rw [List.map_cons, List.nodup_cons, ← he]
      exact h
    · rename_i he
      rw [List.map_cons, List.nodup_cons]
      exact ⟨fun hmem => (mem_keys_put.1 hmem).elim he h.1, ih h.2⟩

theorem Proper.put {s : Schema} (hs : s.Proper) {table : TableName} {name : Option String} {n : Node}
    (hn : ProperEntry table name n) : Schema.Proper (s.put table name n) := by
  refine ⟨fun other e he => ?_, fun other => ?_⟩
  · by_cases hother : other = table
    · subst hother
      have he' : e ∈ (s.table other).put name n := by
        cases other <;> exact he
      rcases Components.mem_put he' with he | rfl
      · exact hs.entry other e he
      · exact hn
    · refine hs.entry other e ?_
      cases other <;> cases table <;> first | exact he | exact absurd rfl hother
  · have hkeyed := hs.keyed other
    have hput := Components.nodup_put hkeyed name n
    cases other <;> cases table <;> first | exact hkeyed | exact hput

/-- A well-formed schema that the reader makes of elements with a property. -/
structure Stemming (has : Xml.Element → Prop) (s : Schema) : Prop extends s.Proper where
  built : ∀ table, ∀ e ∈ s.table table, e.2.Built (MadeOf has)

section Stemming

variable {has : Xml.Element → Prop} {s s' : Schema}

theorem Stemming.add (hs : s.Stemming has) {table : TableName} {n : Node} (hn : n.Built (MadeOf has))
    (hadmits : n.shape.component?.isSome → table.admits n.shape.kind) (h : s.add table n = .ok s') :
    s'.Stemming has := by
  rw [Schema.add] at h
  match hown : n.shape.component? with
  | none => simp [hown] at h
  | some c =>
    rw [hown] at h hadmits
    cases h
    have hcomponent := Shape.component?_withComponent (c := { c with topLevel := true }) hown
    have hbuilt : Node.Built (MadeOf has) ⟨n.shape.withComponent { c with topLevel := true }⟩ := by
      obtain ⟨shape⟩ := n
      obtain ⟨⟨e, he, hmade⟩, hparts⟩ := built_iff.1 hn
      refine built_iff.2 ⟨⟨e, he, hmade.withComponent hown⟩, ?_⟩
      rw [Shape.parts_withComponent]
      exact hparts
    have hentry : ProperEntry table c.name ⟨n.shape.withComponent { c with topLevel := true }⟩ :=
      ⟨by simpa [Node.shape] using hadmits rfl, hcomponent, hbuilt.mono fun _ _ => trivial⟩
    refine ⟨hs.toProper.put hentry, fun other e he => ?_⟩
    by_cases hother : other = table
    · subst hother
      have he' : e ∈ (s.table other).put c.name
          (⟨n.shape.withComponent { c with topLevel := true }⟩ : Node) := by
        cases other <;> exact he
      rcases Components.mem_put he' with he | rfl
      · exact hs.built other e he
      · exact hbuilt
    · refine hs.built other e ?_
      cases other <;> cases table <;> first | exact he | exact absurd rfl hother

private theorem stemming_addConstruct (hs : s.Stemming has) {e : Xml.Element} (he : e.Everywhere has)
    {log log' : Array Log.Entry} (h : (addConstruct s e).run.run log = (.ok s', log')) :
    s'.Stemming has := by
  have hread (x : Except Fault Node) (table : TableName)
      (hx : ∀ n, x = .ok n → n.Built (MadeOf has) ∧ (n.shape.component?.isSome → table.admits n.shape.kind))
      (h : (Run.ofExcept (do s.add table (← x))).run.run log = (.ok s', log')) : s'.Stemming has := by
    rw [Run.run_ofExcept] at h
    obtain ⟨n, hn, hadd⟩ := bind_eq_ok.1 (Prod.mk.inj h).1
    exact hs.add (hx n hn).1 (hx n hn).2 hadd
  rw [addConstruct] at h
  split at h
  · refine hread _ .elements (fun n hn => ?_) h
    obtain ⟨hbuilt, ⟨_, _, rfl⟩ | ⟨_, _, rfl⟩⟩ := element_built he hn
    · exact ⟨hbuilt, by simp [Node.shape, Shape.component?]⟩
    · exact ⟨hbuilt, fun _ => rfl⟩
  · refine hread _ .attributes (fun n hn => ?_) h
    obtain ⟨hbuilt, ⟨_, _, rfl⟩ | ⟨_, _, rfl⟩⟩ := attributeOrRef_built he hn
    · exact ⟨hbuilt, by simp [Node.shape, Shape.component?]⟩
    · exact ⟨hbuilt, fun _ => rfl⟩
  · refine hread _ .types (fun n hn => ?_) h
    have hstems := simpleType_stems he hn
    refine ⟨hstems.built, fun _ => ?_⟩
    have hkind := hstems.admits
    revert hkind
    cases n.shape.kind <;> decide
  · refine hread _ .types (fun n hn => ?_) h
    obtain ⟨hstems, hkind⟩ := complexType_stems he hn
    exact ⟨hstems.built, fun _ => by rw [hkind]; rfl⟩
  · refine hread _ .groups (fun n hn => ?_) h
    obtain ⟨hbuilt, hkind⟩ := group_built he hn
    exact ⟨hbuilt, fun _ => by rw [hkind]; rfl⟩
  · refine hread _ .attributeGroups (fun n hn => ?_) h
    obtain ⟨hbuilt, hkind⟩ := attributeGroup_built he hn
    exact ⟨hbuilt, fun _ => by rw [hkind]; rfl⟩
  · by_cases hname : e.tag.name ∈ ignored <;> simp only [hname, not_true, not_false_iff, if_true, if_false] at h
    · cases h
      exact hs
    · cases h
      exact hs
  · cases h
    exact hs

private theorem stemming_foldlM (hs : s.Stemming has) {es : List Xml.Element} (hes : ∀ e ∈ es, e.Everywhere has)
    {log log' : Array Log.Entry} (h : (es.foldlM addConstruct s).run.run log = (.ok s', log')) :
    s'.Stemming has := by
  induction es generalizing s log with
  | nil =>
    cases h
    exact hs
  | cons e es ih =>
    obtain ⟨he, hrest⟩ := List.forall_mem_cons.1 hes
    rw [List.foldlM_cons] at h
    obtain ⟨s₁, log₁, hfirst, h⟩ := Run.run_bind_eq_ok.1 h
    exact ih (stemming_addConstruct hs he hfirst) hrest h

/-- What is read from an element is well-formed, and made of the element and of those inside of it. -/
theorem stemming_ofElement {e : Xml.Element} (he : e.Everywhere has) {log log' : Array Log.Entry}
    (h : (ofElement e).run.run log = (.ok s, log')) : s.Stemming has := by
  refine stemming_foldlM ⟨⟨fun table entry hentry => ?_, fun table => ?_⟩, fun table entry hentry => ?_⟩
    (fun x hx => he.child hx) h
  · cases table <;> cases hentry
  · cases table <;> exact List.nodup_nil
  · cases table <;> cases hentry

/-- Every node of a schema that is read is what the reader makes of one element of the document. -/
theorem made_of_mem_nodes {e : Xml.Element} {log log' : Array Log.Entry}
    (h : (ofElement e).run.run log = (.ok s, log')) : ∀ n ∈ s.nodes, ∃ x ∈ e.preorder, Made x n.shape := by
  have hstemming : s.Stemming (· ∈ e.preorder) := stemming_ofElement (fun x hx => hx) h
  exact fun n hn => ((mem_nodes.1 hn).built hstemming.built).here

end Stemming

/-- A well-formed schema of legible components. -/
structure WellRead (ok : Char → Prop) (s : Schema) : Prop extends s.Proper where
  legible : ∀ table, ∀ e ∈ s.table table, e.2.Legible ok

theorem wellRead_ofElement {ok : Char → Prop} {s : Schema} {e : Xml.Element} (he : e.Carries ok)
    {log log' : Array Log.Entry} (h : (ofElement e).run.run log = (.ok s, log')) : s.WellRead ok := by
  have hstemming := stemming_ofElement he h
  refine ⟨hstemming.toProper, fun table entry hentry => (hstemming.built table entry hentry).mono ?_⟩
  rintro shape ⟨x, hx, hmade⟩
  exact hmade.legible hx

/-- A schema that is read from an element, whatever has been reported before. -/
def IsRead (s : Schema) : Prop :=
  ∃ e log log', (ofElement e).run.run log = (.ok s, log')

theorem IsRead.proper {s : Schema} (h : IsRead s) : s.Proper := by
  obtain ⟨e, log, log', h⟩ := h
  exact (stemming_ofElement (fun _ _ => trivial : e.Everywhere fun _ => True) h).toProper

/-- A schema that is read from a document is read from the element at its root. -/
theorem isRead_of_ofBytes {s : Schema} {bytes : List UInt8} {log log' : Array Log.Entry}
    (h : (ofBytes bytes).run.run log = (.ok s, log')) : IsRead s := by
  rw [ofBytes] at h
  obtain ⟨root, log₁, -, h⟩ := Run.run_bind_eq_ok.1 h
  split at h
  · exact ⟨root, log₁, log', h⟩
  · cases h

/-- A construct that is read into one entry of a table, whatever has been read before. -/
def Reader.Enters (e : Xml.Element) (entry : TableName × Option String × Node) : Prop :=
  ∀ s log, (addConstruct s e).run.run log = (.ok (s.put entry.1 entry.2.1 entry.2.2), log)

theorem run_addConstructs {es : List Xml.Element} {entries : List (TableName × Option String × Node)}
    (h : List.Forall₂ Enters es entries) (s : Schema) (log : Array Log.Entry) :
    (es.foldlM addConstruct s).run.run log =
      (.ok (entries.foldl (fun s entry => s.put entry.1 entry.2.1 entry.2.2) s), log) := by
  induction h generalizing s with
  | nil => rfl
  | cons henters _ ih => rw [List.foldlM_cons, Run.run_bind_of_ok (henters s log), ih, List.foldl_cons]

/-! ## A sample -/

/-- A tag of a schema, where names without a prefix are those of one namespace. -/
def sampleTag (name : String) (attributes : List (String × String)) (inner : List Xml.Element) :
    Xml.Element :=
  .mk (xsd name) (attributes.map fun a => (⟨"", a.1⟩, a.2)) none
    ⟨[("", "urn:s"), ("xs", xsdSpace)]⟩ inner

def sampleDocument : Xml.Element :=
  sampleTag "schema" [("targetNamespace", "urn:s")]
    [sampleTag "element" [("name", "a"), ("type", "T")] [],
      sampleTag "simpleType" [("name", "T")] [sampleTag "restriction" [("base", "xs:string")] []]]

def sampleElement : Node :=
  ⟨.element ⟨some "a", true⟩ ⟨some ⟨"urn:s", "T"⟩, none, .once, false, false, none, none, none⟩ none⟩

def sampleType : Node :=
  ⟨.simpleType ⟨some "T", true⟩ (some ⟨.simpleRestriction (some (xsd "string")) none []⟩)⟩

def sampleSchema : Schema :=
  { SchemaOf.empty "urn:s" defaultForm defaultForm with
    elements := [(some "a", sampleElement)]
    types := [(some "T", sampleType)] }

theorem isRead_sampleSchema : IsRead sampleSchema :=
  ⟨sampleDocument, #[], #[], rfl⟩

end PayloadSchema.Schema
