import PayloadSchema.Proofs.Rules.Following
import PayloadSchema.Proofs.Rules.LawfulEdits

/-!
# Lawful attributes

Attributes that come from groups and from the bases of simple content are reached through the groups and the
bases, and a group or a base that is met again can be reached from itself.
-/

namespace PayloadSchema.Extraction

open Schema

/-! ## Attributes -/

section Attributes

variable {s : Schema} {target : Kind} {n m : Node} {key : Option ComponentKey} {met : List QName}

theorem lawful_wildcardEdits {any : Option Node} (hany : ∀ m ∈ any, m.Plays .anyAttribute) :
    AllLawful s target n (wildcardEdits any) := by
  cases any with
  | none => exact .nil
  | some m =>
    have hadmits := (hany m rfl).admits
    obtain ⟨shape⟩ := m
    cases shape with
    | anyAttribute w => exact .single .wildcard
    | modelGroup order _ _ => cases order <;> cases hadmits
    | complexDerivation how _ _ _ _ => cases how <;> cases hadmits
    | _ => cases hadmits

structure Supplied (s : Schema) (n : Node) (key : Option ComponentKey) (met : List QName) (m : Node) :
    Prop where
  plays : m.Plays .attribute
  contained : Contains s n → Contains s m
  covers : ∀ a, Covers s a n → Covers s a m
  keyed : ∀ k, key = some k → Covers s k.component m
  groups : ∀ q ∈ met, Covers s ⟨.attributeGroups, q⟩ m

private theorem Supplied.member {q : QName} {c : Component} {members : List Node} {any : Option Node}
    (hs : s.Proper) (hm : Supplied s n key met m) (hshape : m.shape = .attributeGroupRef (some q))
    (hfind : s.find? .attributeGroups (some q) = some ⟨.attributeGroup c members any⟩) {a : Node}
    (ha : a ∈ members) : Supplied s n key (met ++ [q]) a := by
  have hpart : (Role.attribute, a) ∈ (Shape.attributeGroup c members any).parts := by
    simp [Shape.parts, ha]
  have hlift (b : ComponentName) (hb : Covers s b m) : Covers s b a := by
    have hreaches : Reaches s b ⟨.attributeGroups, q⟩ :=
      hb.reaches (by simp [hshape, Shape.references])
    exact (Covers.found hreaches hfind).part hpart
  refine ⟨(hs.find hfind).2.proper.part hpart, fun _ => (contains_of_find? hfind).part hpart,
    fun b hb => hlift b (hm.covers b hb), fun k hk => hlift _ (hm.keyed k hk), fun r hr => ?_⟩
  rcases List.mem_append.1 hr with hr | hr
  · exact hlift _ (hm.groups r hr)
  · rw [List.mem_singleton.1 hr]
    have hself : Covers s ⟨.attributeGroups, q⟩ ⟨.attributeGroup c members any⟩ := covers_self hfind
    exact hself.part hpart

private theorem apt_attribute (hstratum : n.shape.kind.stratum = 1)
    (hkey : ∀ k, key = some k → (∃ t, s.find? k.component.table (some k.component.name) = some t) ∧
      ∀ a, Covers s a n → Reaches s a k.component)
    (hm : Supplied s n key met m) (hgroup : m.shape.kind ≠ .attributeGroupRef) :
    Child.Apt s n ⟨m, key, none⟩ .attribute := by
  have hkind : m.shape.kind.copy? = some .attribute ∧ m.shape.kind.stratum = 0 := by
    have hadmits := hm.plays.admits
    revert hadmits hgroup
    cases m.shape.kind <;> decide
  have hown : m.shape.key? s.space = none := key?_of_inner hm.plays.inner
  refine ⟨hkind.1, ?_, fun _ => hm.plays.inner⟩
  cases key with
  | none =>
    have hlower : m.rank < n.rank := rank_lt_of_stratum_lt (by omega)
    refine ⟨hm.plays.built, hm.contained, hm.covers, ?_, fun _ => hlower⟩
    intro k hk
    simp [Child.key?, hown] at hk
  | some k =>
    obtain ⟨⟨t, hfind⟩, hreaches⟩ := hkey k rfl
    exact descends_keyed hm.plays.built hfind (hm.keyed k rfl) hreaches

theorem lawful_attributeEdits (hs : s.Proper) (hslot : Slot.attribute.role? target = some .attribute)
    (hstratum : n.shape.kind.stratum = 1)
    (hkey : ∀ k, key = some k → (∃ t, s.find? k.component.table (some k.component.name) = some t) ∧
      ∀ a, Covers s a n → Reaches s a k.component)
    {accepts hasAny : Bool} (haccepts : accepts = true) {ns : List Node}
    (hns : ∀ m ∈ ns, Supplied s n key met m) :
    AllLawful s target n (attributeEdits s accepts key met hasAny ns) := by
  fun_induction attributeEdits s accepts key met hasAny ns with
  | case1 met hasAny => exact .nil
  | case2 => exact .single (lawful_fail (by simp) (by simp [Problem.errorClass]))
  | case3 => exact .single (lawful_fail (by simp) (by simp [Problem.errorClass]))
  | case4 met hasAny m ms q hshape g hfind hmet =>
    have hcircle : Reaches s ⟨.attributeGroups, q⟩ ⟨.attributeGroups, q⟩ :=
      ((hns m List.mem_cons_self).groups q hmet).reaches (by simp [hshape, Shape.references])
    have hgenuine : Genuine s (.problem (.circularAttributeGroup met q)) :=
      ⟨_, rfl, by simp, fun _ => ⟨met, q, _, hcircle, .inr ⟨rfl, rfl⟩⟩⟩
    exact .single (.stop (hgenuine.intrinsic (by simp [Problem.errorClass]) (by simp [Problem.IsBare])))
  | case5 met hasAny m ms q hshape g hfind hnew members any hmembers hany inner hasAny' wild ih₁ ih₂ =>
    obtain ⟨c, members', any', rfl⟩ := (hs.find hfind).2.attributeGroup
    cases hmembers
    cases hany
    have hm := hns m List.mem_cons_self
    have hinner := ih₁ fun a ha => hm.member hs hshape hfind ha
    have hrest := ih₂ fun a ha => hns a (List.mem_cons_of_mem m ha)
    have hwild : AllLawful s target n wild := by
      simp only [wild]
      split
      · exact .nil
      · refine lawful_wildcardEdits fun w hw => ?_
        have hpart : (Role.anyAttribute, w) ∈ (Shape.attributeGroup c members any).parts := by
          simp only [Shape.parts, List.mem_append, List.mem_map, Option.mem_toList]
          exact .inr ⟨w, hw, rfl⟩
        exact (hs.find hfind).2.proper.part hpart
    exact (hinner.append hwild).append hrest
  | case6 met hasAny m ms q hshape g hfind hnew hnone =>
    obtain ⟨c, members, any, rfl⟩ := (hs.find hfind).2.attributeGroup
    exact absurd rfl (hnone members any rfl)
  | case7 met hasAny m ms _ hnone hsome ih =>
    have hm := hns m List.mem_cons_self
    have hgroup : m.shape.kind ≠ .attributeGroupRef := by
      intro hkind
      obtain ⟨ref, hshape⟩ := Shape.exists_of_kind_attributeGroupRef hkind
      cases ref with
      | none => exact hnone hshape
      | some q => exact hsome q hshape
    have hadmits : Role.attribute.admits .attribute := rfl
    exact .cons (.attach hslot hadmits (apt_attribute hstratum hkey hm hgroup))
      (ih fun a ha => hns a (List.mem_cons_of_mem m ha))
  | case8 met hasAny m ms hrefuses => exact absurd haccepts hrefuses

theorem lawful_ownAttributes (hs : s.Proper) (hn : n.Proper)
    (hslot : Slot.attribute.role? target = some .attribute) (hstratum : n.shape.kind.stratum = 1)
    {hasAny : Bool} {ns : List Node} (hns : ∀ m ∈ ns, (Role.attribute, m) ∈ n.shape.parts) :
    AllLawful s target n (attributeEdits s true none [] hasAny ns) := by
  refine lawful_attributeEdits hs hslot hstratum (by simp) rfl fun m hm => ?_
  exact ⟨hn.part (hns m hm), fun h => h.part (hns m hm), fun a ha => ha.part (hns m hm), by simp, by simp⟩

theorem lawful_keyedAttributes (hs : s.Proper) (hslot : Slot.attribute.role? target = some .attribute)
    (hstratum : n.shape.kind.stratum = 1) {k : ComponentKey} {t : Node}
    (hfind : s.find? k.component.table (some k.component.name) = some t)
    (hreaches : ∀ a, Covers s a n → Reaches s a k.component) {hasAny : Bool} {ns : List Node}
    (hns : ∀ m ∈ ns, m.Plays .attribute ∧ Covers s k.component m) :
    AllLawful s target n (attributeEdits s true (some k) [] hasAny ns) := by
  refine lawful_attributeEdits hs hslot hstratum ?_ rfl fun m hm => ?_
  · rintro _ ⟨⟩
    exact ⟨⟨t, hfind⟩, hreaches⟩
  · obtain ⟨hplays, hcovers⟩ := hns m hm
    refine ⟨hplays, fun _ => hcovers.contained, fun a ha => ⟨hcovers.contained, fun b hb => ?_⟩, ?_,
      by simp⟩
    · exact (hreaches a ha).trans (hcovers.mentions b hb)
    · rintro _ ⟨⟩
      exact hcovers

theorem lawful_attributeListEdits {hasAny : Bool} {lists : List (Option ComponentKey × List Node)}
    (h : ∀ l ∈ lists, ∀ hasAny, AllLawful s target n (attributeEdits s true l.1 [] hasAny l.2)) :
    AllLawful s target n (attributeListEdits s hasAny lists) := by
  induction lists generalizing hasAny with
  | nil => exact .nil
  | cons l lists ih =>
    rw [attributeListEdits]
    exact (h l List.mem_cons_self hasAny).append
      (ih fun l' hl' => h l' (List.mem_cons_of_mem l hl'))

end Attributes

/-! ## Bases of simple content -/

section BaseChain

variable {s : Schema} {target : Kind} {n : Node} {content : Option Node} {q : QName} {f : Fault}

private theorem variety_base {base : Option QName} {t : Node} {facets : List Node}
    (h : Node.Plays ⟨.simpleRestriction base (some t) facets⟩ .simpleVariety) : t.Plays .simpleType := by
  have hpart : (Role.simpleType, t) ∈ (Shape.simpleRestriction base (some t) facets).parts := by
    simp [Shape.parts]
  exact h.built.part hpart

/-- The root of a simple type is built in, or it is mentioned inside of the type. -/
theorem simpleRoot_spec (hcontent : ∀ m ∈ content, m.Plays .simpleVariety) :
    ∃ q, simpleRoot content = .ok q ∧
      (q.isBuiltin ∨ ∃ m ∈ content, m.Mentions ⟨.types, q⟩) := by
  fun_induction simpleRoot content with
  | case1 q own facets =>
    refine ⟨q, rfl, .inr ⟨_, rfl, .here ?_⟩⟩
    simp [Node.shape, Shape.references, Shape.typeNames]
  | case2 c content facets ih =>
    have htype := variety_base (hcontent _ rfl)
    have hinner : ∀ m ∈ content, m.Plays .simpleVariety := by
      intro m hm
      have hpart : (Role.simpleVariety, m) ∈ (Shape.simpleType c content).parts := by
        simpa [Shape.parts] using hm
      exact htype.built.part hpart
    obtain ⟨q, hq, hroot⟩ := ih hinner
    refine ⟨q, hq, hroot.imp_right ?_⟩
    rintro ⟨m, hm, hmentions⟩
    refine ⟨_, rfl, .inside (m := ⟨.simpleType c content⟩) ?_ (.inside (m := m) ?_ hmentions)⟩
    · simp [Node.children, Node.shape, Shape.children]
    · simpa [Node.children, Node.shape, Shape.children] using hm
  | case3 | case4 => cases (variety_base (hcontent _ rfl)).admits
  | case5 t facets hsimple =>
    have hadmits := (variety_base (hcontent _ rfl)).admits
    obtain ⟨shape⟩ := t
    cases shape with
    | simpleType c content => exact absurd rfl (hsimple c content)
    | modelGroup order _ _ => cases order <;> cases hadmits
    | complexDerivation how _ _ _ _ => cases how <;> cases hadmits
    | _ => cases hadmits
  | case6 => exact ⟨_, rfl, .inl rfl⟩

private theorem derivation_views {m : Node} (h : m.Plays .simpleDerivation) :
    ∃ members base, m.shape.attributes? = some members ∧ m.shape.base? = some base ∧
      (∀ a ∈ members, (Role.attribute, a) ∈ m.shape.parts) ∧ ∀ q ∈ base, q ∈ m.shape.typeNames := by
  have hadmits := h.admits
  obtain ⟨shape⟩ := m
  cases shape with
  | simpleContentExtension base members any =>
    exact ⟨members, base, rfl, rfl, fun a ha => by simp [Node.shape, Shape.parts, ha],
      fun q hq => by simpa [Node.shape, Shape.typeNames] using hq⟩
  | simpleContentRestriction base own facets members any =>
    exact ⟨members, base, rfl, rfl, fun a ha => by simp [Node.shape, Shape.parts, ha],
      fun q hq => by simpa [Node.shape, Shape.typeNames] using hq⟩
  | modelGroup order _ _ => cases order <;> cases hadmits
  | complexDerivation how _ _ _ _ => cases how <;> cases hadmits
  | _ => cases hadmits

/-- The simple content of a type in a table derives from what the type mentions, and gives the attributes of the type. -/
private theorem derivation_found (hs : s.Proper) {t content : Node} {c : Component} {d : ComplexDecl}
    {outer : List Node} {any own : Option Node} (hfind : s.find? .types (some q) = some t)
    (hshape : t.shape = .complexType c d outer any (some ⟨.simpleContent (some content)⟩) own) :
    ∃ members base, content.shape.attributes? = some members ∧ content.shape.base? = some base ∧
      (∀ r ∈ base, t.Mentions ⟨.types, r⟩) ∧
      (∀ m ∈ members, m.Plays .attribute ∧ Covers s ⟨.types, q⟩ m) ∧
      ∀ m ∈ outer, m.Plays .attribute ∧ Covers s ⟨.types, q⟩ m := by
  have hself : Covers s ⟨.types, q⟩ t := covers_self hfind
  have hproper := (hs.find hfind).2.proper
  have hmodel : (Role.model, (⟨.simpleContent (some content)⟩ : Node)) ∈ t.shape.parts := by
    simp [hshape, Shape.parts]
  have hinner : (Role.simpleDerivation, content) ∈ (Shape.simpleContent (some content)).parts := by
    simp [Shape.parts]
  have hplays := (hproper.part hmodel).built.part hinner
  obtain ⟨members, base, hmembers, hbase, hparts, hnames⟩ := derivation_views hplays
  refine ⟨members, base, hmembers, hbase, fun r hr => ?_, fun m hm => ?_, fun m hm => ?_⟩
  · refine .inside (Shape.mem_children_of_mem_parts hmodel) (.inside (m := content) ?_ (.here ?_))
    · exact Shape.mem_children_of_mem_parts hinner
    · exact List.mem_append_left _ (List.mem_map_of_mem (hnames r hr))
  · exact ⟨hplays.built.part (hparts m hm), ((hself.part hmodel).part hinner).part (hparts m hm)⟩
  · have hpart : (Role.attribute, m) ∈ t.shape.parts := by simp [hshape, Shape.parts, hm]
    exact ⟨hproper.part hpart, hself.part hpart⟩

/-- A simple type in a table comes down to a type that is built in or that it mentions. -/
private theorem root_found (hs : s.Proper) {t : Node} {c : Component} {content : Option Node}
    (hfind : s.find? .types (some q) = some t) (hshape : t.shape = .simpleType c content) :
    ∃ root, simpleRoot content = .ok root ∧ (root.isBuiltin = false → t.Mentions ⟨.types, root⟩) := by
  have hplays : ∀ m ∈ content, m.Plays .simpleVariety := by
    intro m hm
    have hpart : (Role.simpleVariety, m) ∈ t.shape.parts := by
      simpa [hshape, Shape.parts] using hm
    exact (hs.find hfind).2.proper.part hpart
  obtain ⟨root, hroot, hspec⟩ := simpleRoot_spec hplays
  refine ⟨root, hroot, fun hbuiltin => ?_⟩
  rcases hspec with hb | ⟨m, hm, hmentions⟩
  · rw [hb] at hbuiltin
    cases hbuiltin
  · refine .inside (m := m) ?_ hmentions
    simpa [Node.children, hshape, Shape.children] using hm

/-- A base that is reached from what is copied, and from all the bases that have been met before. -/
structure Pursued (s : Schema) (n : Node) (met : List QName) (base : Option QName) : Prop where
  reaches : ∀ q ∈ base, q.isBuiltin = false → ∀ a, Covers s a n → Reaches s a ⟨.types, q⟩
  met : ∀ p ∈ met, ∀ q ∈ base, q.isBuiltin = false → Reaches s ⟨.types, p⟩ ⟨.types, q⟩

private theorem Pursued.next {met : List QName} {base : Option QName} {t : Node}
    (h : Pursued s n met (some q)) (hq : q.isBuiltin = false)
    (hfind : s.find? .types (some q) = some t)
    (hbase : ∀ r ∈ base, r.isBuiltin = false → t.Mentions ⟨.types, r⟩) :
    Pursued s n (met ++ [q]) base := by
  have hstep (r : QName) (hr : r ∈ base) (hbuiltin : r.isBuiltin = false) :
      Reaches s ⟨.types, q⟩ ⟨.types, r⟩ :=
    (covers_self (b := ⟨.types, q⟩) hfind).mentions _ (hbase r hr hbuiltin)
  refine ⟨fun r hr hbuiltin a ha => ?_, fun p hp r hr hbuiltin => ?_⟩
  · exact (h.reaches q rfl hq a ha).trans (hstep r hr hbuiltin)
  · rcases List.mem_append.1 hp with hp | hp
    · exact (h.met p hp q rfl hq).trans (hstep r hr hbuiltin)
    · rw [List.mem_singleton.1 hp]
      exact hstep r hr hbuiltin

/-- What a chain of bases may give: attributes of types that can be reached, and a base that is built in. -/
structure Sourced (s : Schema) (n : Node) (chain : BaseChain) : Prop where
  inherited : ∀ e ∈ chain.inherited, (∃ t, s.find? .types (some e.1) = some t) ∧
    (∀ a, Covers s a n → Reaches s a ⟨.types, e.1⟩) ∧
    ∀ m ∈ e.2, m.Plays .attribute ∧ Covers s ⟨.types, e.1⟩ m
  root : ∀ base, chain.root = .ok base → ∀ q ∈ base, q.isBuiltin
  error : ∀ f, chain.root = .error f → Intrinsic s f

theorem sourced_error {f : Fault} (h : Intrinsic s f) : Sourced s n ⟨[], .error f⟩ :=
  ⟨by simp, by simp, by simpa using h⟩

theorem sourced_baseChain (hs : s.Proper) {withAttributes : Bool} {met : List QName}
    {base : Option QName} (hpursued : Pursued s n met base) :
    Sourced s n (baseChain s withAttributes met base) := by
  fun_induction baseChain s withAttributes met base with
  | case1 => exact ⟨by simp, by simp, by simp⟩
  | case2 met q hbuiltin => exact ⟨by simp, by simpa using hbuiltin, by simp⟩
  | case3 met q hbuiltin hmet =>
    have hcircle := hpursued.met q hmet q rfl (by simpa using hbuiltin)
    have hgenuine : Genuine s (.problem (.circularType met q)) :=
      ⟨_, rfl, by simp, fun _ => ⟨met, q, _, hcircle, .inl ⟨rfl, by simp⟩⟩⟩
    exact sourced_error (hgenuine.intrinsic (by simp [Problem.errorClass]) (by simp [Problem.IsBare]))
  | case4 => exact sourced_error (intrinsic_problem (by simp) (by simp [Problem.errorClass]))
  | case5 met q hbuiltin hmet t hfind c content hshape root hroot ih =>
    obtain ⟨root', hroot', hmentions⟩ := root_found hs hfind hshape
    cases hroot.symm.trans hroot'
    refine ih (hpursued.next (by simpa using hbuiltin) hfind ?_)
    rintro _ ⟨rfl⟩ hr
    exact hmentions hr
  | case6 met q hbuiltin hmet t hfind c content hshape f hroot =>
    obtain ⟨root, hroot', -⟩ := root_found hs hfind hshape
    cases hroot.symm.trans hroot'
  | case7 met q hbuiltin hmet t hfind c d outer any content own hshape hnone =>
    obtain ⟨members, base, hmembers, -⟩ := derivation_found hs hfind hshape
    cases hnone.symm.trans hmembers
  | case8 met q hbuiltin hmet t hfind c d outer any content own hshape members hnone =>
    obtain ⟨members, base, -, hbase, -⟩ := derivation_found hs hfind hshape
    cases hnone.symm.trans hbase
  | case9 met q hbuiltin hmet t hfind c d outer any content own hshape members base hbase hmembers hwith ih =>
    subst hwith
    obtain ⟨members', base', hmembers', hbase', hmentions, hinner, houter⟩ := derivation_found hs hfind hshape
    cases hmembers.symm.trans hmembers'
    cases hbase.symm.trans hbase'
    obtain ⟨hinherited, hroot, herror⟩ :=
      ih (hpursued.next (by simpa using hbuiltin) hfind fun r hr _ => hmentions r hr)
    have hreaches := hpursued.reaches q rfl (by simpa using hbuiltin)
    refine ⟨fun e he => ?_, hroot, herror⟩
    simp only [BaseChain.cons, List.cons_append, List.nil_append, List.mem_cons] at he
    rcases he with rfl | rfl | he
    · exact ⟨⟨t, hfind⟩, hreaches, hinner⟩
    · exact ⟨⟨t, hfind⟩, hreaches, houter⟩
    · exact hinherited e he
  | case10 met q hbuiltin hmet t hfind c d outer any content own hshape hnone =>
    obtain ⟨members, base, -, hbase, -⟩ := derivation_found hs hfind hshape
    cases hnone.symm.trans hbase
  | case11 met q hbuiltin hmet t hfind c d outer any content own hshape base hbase hwith ih =>
    subst hwith
    obtain ⟨members', base', -, hbase', hmentions, -⟩ := derivation_found hs hfind hshape
    cases hbase.symm.trans hbase'
    exact ih (hpursued.next (by simpa using hbuiltin) hfind fun r hr _ => hmentions r hr)
  | case12 => exact sourced_error (intrinsic_problem (by simp) (by simp [Problem.errorClass]))

end BaseChain

end PayloadSchema.Extraction
