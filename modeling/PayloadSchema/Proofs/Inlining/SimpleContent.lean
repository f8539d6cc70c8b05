import PayloadSchema.Proofs.Inlining.Acceptance
import PayloadSchema.Proofs.Schema.EffectiveAttributes

/-!
# Copies of simple content

The attributes of a type with simple content are copied one by one: those of an extension after all that its bases
have, and those of a restriction alone.
-/

namespace PayloadSchema.Extraction

open Schema Copying

/-! ## Attributes that edits copy -/

def attached (es : List Edit) : List Node :=
  es.filterMap fun
    | .attach .attribute child => some child.origin
    | _ => none

@[simp] theorem attached_append (es fs : List Edit) : attached (es ++ fs) = attached es ++ attached fs :=
  List.filterMap_append

/-- A tree that is a copy of a node. -/
def IsCopy (c : Context) (n m : Node) : Prop :=
  ∃ path child, child.origin = n ∧ (inlineChild c path child).Gives m

section Attached

variable {c : Context} {s : Schema} {path : List ComponentKey} {key : Option ComponentKey} {es rest : List Edit}
  {shape r : Shape Node} {met : List QName} {hasAny : Bool} {members : List Node}

@[simp] theorem attached_wildcardEdits (any : Option Node) : attached (wildcardEdits any) = [] := by
  unfold wildcardEdits
  split
  · rfl
  · split <;> rfl

theorem flattens_attributeEdits (h : ∀ f, .stop f ∉ attributeEdits s true key met hasAny members) :
    Flattens s members (attached (attributeEdits s true key met hasAny members)) := by
  fun_induction attributeEdits s true key met hasAny members with
  | case1 => exact .nil
  | case5 met hasAny n ns q hshape g hfind hnew inner any hinner hany here hasAny' wild ihinner ihrest =>
    obtain ⟨shape⟩ := n
    obtain rfl : shape = .attributeGroupRef (some q) := hshape
    simp only [List.mem_append, not_or] at h
    have hfirst := ihinner fun f => (h f).1.1
    have hothers := ihrest fun f => (h f).2
    have hwild : attached wild = [] := by
      dsimp only [wild]
      split
      · rfl
      · exact attached_wildcardEdits any
    rw [attached_append, attached_append, hwild, List.append_nil]
    exact .group hfind hinner hfirst hothers
  | case7 met hasAny n ns _ hnone hsome ih =>
    have hown : n.shape.kind ≠ .attributeGroupRef := by
      intro hkind
      obtain ⟨ref, href⟩ := Shape.exists_of_kind_attributeGroupRef hkind
      cases ref with
      | none => exact hnone href
      | some q => exact hsome q href
    exact .own hown (ih fun f hf => h f (List.mem_cons_of_mem _ hf))
  | case8 met hasAny n ns haccepts _ _ => exact absurd rfl haccepts
  | _ => exact absurd List.mem_cons_self (h _)

theorem flattens_attributeListEdits {lists : List (Option ComponentKey × List Node)}
    (h : ∀ f, .stop f ∉ attributeListEdits s hasAny lists) :
    Flattens s (lists.flatMap (·.2)) (attached (attributeListEdits s hasAny lists)) := by
  induction lists generalizing hasAny with
  | nil => exact .nil
  | cons l lists ih =>
    simp only [attributeListEdits, List.mem_append, not_or] at h
    rw [attributeListEdits, List.flatMap_cons, attached_append]
    exact (flattens_attributeEdits fun f => (h f).1).append (ih fun f => (h f).2)

/-- Edits of attributes come to an end with copies after the attributes that were there, and nothing else is
changed. -/
theorem gives_attached (hes : ∀ e ∈ es, e.IsIdle) {before : List Node} (hbefore : shape.attributes? = some before)
    (h : (inlineEdits c path (es ++ rest) shape).Gives r) :
    (∀ f, .stop f ∉ es) ∧ ∃ shape' copies, shape'.eraseAttributes = shape.eraseAttributes ∧
      shape'.attributes? = some (before ++ copies) ∧ List.Forall₂ (IsCopy c) (attached es) copies ∧
      (inlineEdits c path rest shape').Gives r := by
  induction es generalizing shape before with
  | nil => exact ⟨by simp, shape, [], rfl, by rw [hbefore, List.append_nil], .nil, h⟩
  | cons e es ih =>
    have hrest := fun e' he' => hes e' (List.mem_cons_of_mem e he')
    have he := hes e List.mem_cons_self
    rw [List.cons_append] at h
    cases he with
    | «attribute» =>
      rename_i child
      obtain ⟨m, hm, h⟩ := gives_attach.1 h
      have hfilled : (Slot.attribute.fill m shape).attributes? = some (before ++ [m]) := by
        cases shape <;> cases hbefore <;> rfl
      obtain ⟨hstop, shape', copies, herase, hmembers, hcopies, h⟩ := ih hrest hfilled h
      refine ⟨by simpa using hstop, shape', m :: copies, ?_, ?_, .cons ⟨path, child, rfl, hm⟩ hcopies, h⟩
      · rw [herase, eraseAttributes_fill_attribute]
      · rw [hmembers, List.append_assoc]
        rfl
    | wildcard =>
      rename_i w
      rw [inlineEdits_wildcard] at h
      have hkept : (shape.withAny (some ⟨.anyAttribute w⟩)).attributes? = some before := by
        cases shape <;> cases hbefore <;> rfl
      obtain ⟨hstop, shape', copies, herase, hmembers, hcopies, h⟩ := ih hrest hkept h
      exact ⟨by simpa using hstop, shape', copies, by rw [herase, eraseAttributes_withAny], hmembers, hcopies, h⟩
    | warn =>
      rw [inlineEdits_warn] at h
      obtain ⟨hstop, hgives⟩ := ih hrest hbefore h
      exact ⟨by simpa using hstop, hgives⟩
    | stop =>
      rw [inlineEdits_stop] at h
      exact absurd h gives_throw

end Attached

/-! ## Bases -/

section Bases

variable {s : Schema} {met : List QName} {base : Option QName} {root : Option QName} {t content : Node}
  {c : Component} {decl : ComplexDecl} {members outer flat : List Node} {any particle : Option Node}

theorem exists_of_simpleDerivation (h : content.Plays .simpleDerivation) :
    (∃ base members any, content = ⟨.simpleContentExtension base members any⟩) ∨
      ∃ base own facets members any, content = ⟨.simpleContentRestriction base own facets members any⟩ := by
  have hadmits := h.admits
  obtain ⟨shape⟩ := content
  cases shape with
  | simpleContentExtension base members any => exact .inl ⟨base, members, any, rfl⟩
  | simpleContentRestriction base own facets members any => exact .inr ⟨base, own, facets, members, any, rfl⟩
  | modelGroup order _ _ => cases order <;> cases hadmits
  | complexDerivation how _ _ _ _ => cases how <;> cases hadmits
  | _ => cases hadmits

theorem exists_simpleDerivation (h : content.Plays .simpleDerivation)
    (hmembers : content.shape.attributes? = some members)
    (hbase : content.shape.base? = some base) :
    ∃ how, Node.simpleDerivation? ⟨.complexType c decl outer any (some ⟨.simpleContent (some content)⟩) particle⟩ =
      some ⟨how, base, members, outer⟩ := by
  rcases exists_of_simpleDerivation h with ⟨_, _, _, rfl⟩ | ⟨_, _, _, _, _, rfl⟩ <;> cases hmembers <;> cases hbase
  · exact ⟨.extension, rfl⟩
  · exact ⟨.restriction, rfl⟩

/-- What stands on the chain of a base is what the base passes on, where every restriction on it leaves what it
inherits as it is. -/
theorem inherits_baseChain (hs : s.Proper) (hroot : (baseChain s true met base).root = .ok root)
    (hflat : Flattens s ((baseChain s true met base).inherited.flatMap (·.2)) flat)
    (hkeeps : KeepsInherited s base) : Inherits s base flat := by
  fun_induction baseChain s true met base generalizing flat with
  | case1 =>
    cases hflat
    exact .absent
  | case2 met q hq =>
    cases hflat
    exact .builtin hq
  | case5 met q hq _ t hfind _ content hshape root' hroot' ih =>
    obtain ⟨shape⟩ := t
    obtain rfl : shape = .simpleType _ content := hshape
    have hq' : q.isBuiltin = false := by simpa using hq
    exact .simple hq' hfind hroot' (ih hroot hflat fun d hd => hkeeps d (.simple hq' hfind hroot' hd))
  | case9 met q hq _ t hfind _ _ outer _ content _ hshape members base hbase hmembers _ ih =>
    obtain ⟨shape⟩ := t
    obtain rfl : shape = .complexType _ _ outer _ (some ⟨.simpleContent (some content)⟩) _ := hshape
    have hq' : q.isBuiltin = false := by simpa using hq
    have hplays := plays_simpleDerivation (hs.find hfind).2.proper
    obtain ⟨how, hd⟩ := exists_simpleDerivation hplays hmembers hbase
    have hflat' : Flattens s ((members ++ outer) ++ (baseChain s true (met ++ [q]) base).inherited.flatMap (·.2))
        flat := by
      simpa [BaseChain.cons] using hflat
    obtain ⟨own, rest, hown, hrest, rfl⟩ := hflat'.of_append
    have hinherits := ih hroot hrest fun e he => hkeeps e (.up hq' hfind hd he)
    have hcombine := combine_of_keeps hown hinherits (hkeeps _ (.here hq' hfind hd))
    rw [← hcombine]
    exact .derived hq' hfind hd hown hinherits
  | case11 => contradiction
  | _ => cases hroot

end Bases

/-! ## Copies of types -/

section Copies

variable {c : Context} {path : List ComponentKey} {shape r : Shape Node} {members outer : List Node}
  {any any' model particle own : Option Node} {base : Option QName} {facets : List Node} {content : Node}

private theorem eq_of_erase_extension (h : shape.eraseAttributes = .simpleContentExtension base [] none)
    (hmembers : shape.attributes? = some members) : ∃ any, shape = .simpleContentExtension base members any := by
  cases shape <;> cases h
  cases hmembers
  exact ⟨_, rfl⟩

private theorem eq_of_erase_restriction (h : shape.eraseAttributes = .simpleContentRestriction base own facets [] none)
    (hmembers : shape.attributes? = some members) :
    ∃ any, shape = .simpleContentRestriction base own facets members any := by
  cases shape <;> cases h
  cases hmembers
  exact ⟨_, rfl⟩

private theorem eq_of_erase_complexType {co : Component} {decl : ComplexDecl}
    (h : shape.eraseAttributes = .complexType co decl [] none model particle)
    (hmembers : shape.attributes? = some members) : ∃ any, shape = .complexType co decl members any model particle := by
  cases shape <;> cases h
  cases hmembers
  exact ⟨_, rfl⟩

theorem gives_simpleExtension (hs : c.source.Proper) (hkeeps : KeepsInherited c.source base)
    (h : (inlineEdits c path (simpleExtensionEdits c.source base members any.isSome)
      (.simpleContentExtension none [] any')).Gives r) :
    ∃ flat rest, Flattens c.source members flat ∧ Inherits c.source base rest ∧
      ∃ base' copies any'', r = .simpleContentExtension base' copies any'' ∧
        List.Forall₂ (IsCopy c) (rest ++ flat) copies := by
  unfold simpleExtensionEdits at h
  dsimp only at h
  rw [List.append_assoc] at h
  obtain ⟨hstop, shape, inherited, herase, hmembers, hinherited, h⟩ :=
    gives_attached (fun e he => idle_attributeListEdits he) rfl h
  obtain ⟨_, rfl⟩ := eq_of_erase_extension herase hmembers
  have hrest := flattens_attributeListEdits hstop
  rw [List.flatMap_map] at hrest
  cases hroot : (baseChain c.source true [] base).root with
  | error f =>
    rw [rootEdits, hroot, List.singleton_append, inlineEdits_stop] at h
    exact absurd h gives_throw
  | ok root =>
    rw [rootEdits, hroot, List.singleton_append, inlineEdits_change, ← List.append_nil (attributeEdits ..)] at h
    obtain ⟨hstop', shape', declared, herase', hmembers', hdeclared, h⟩ :=
      gives_attached (fun e he => idle_attributeEdits he) rfl h
    obtain ⟨_, rfl⟩ := eq_of_erase_extension herase' hmembers'
    rw [inlineEdits_nil, gives_pure] at h
    exact ⟨_, _, flattens_attributeEdits hstop', inherits_baseChain hs hroot hrest hkeeps, root, _, _, h.symm,
      List.rel_append hinherited hdeclared⟩

theorem gives_simpleRestriction
    (h : (inlineEdits c path (simpleRestrictionEdits c.source base own members any.isSome)
      (.simpleContentRestriction none none facets [] any')).Gives r) :
    ∃ flat, Flattens c.source members flat ∧ ∃ base' own' facets' copies any'',
      r = .simpleContentRestriction base' own' facets' copies any'' ∧ List.Forall₂ (IsCopy c) flat copies := by
  unfold simpleRestrictionEdits at h
  rw [List.append_assoc] at h
  obtain ⟨hstop, shape, copies, herase, hmembers, hcopies, h⟩ :=
    gives_attached (fun e he => idle_attributeEdits he) rfl h
  obtain ⟨_, rfl⟩ := eq_of_erase_restriction herase hmembers
  refine ⟨_, flattens_attributeEdits hstop, ?_⟩
  have hroot {own' : Option Node} {any'' : Option Node}
      (h : (inlineEdits c path (rootEdits (baseChain c.source false [] base))
        (.simpleContentRestriction none own' facets copies any'')).Gives r) :
      ∃ base', r = .simpleContentRestriction base' own' facets copies any'' := by
    cases hroot : (baseChain c.source false [] base).root with
    | error f =>
      rw [rootEdits, hroot, inlineEdits_stop] at h
      exact absurd h gives_throw
    | ok root =>
      rw [rootEdits, hroot, inlineEdits_change, inlineEdits_nil, gives_pure] at h
      exact ⟨root, h.symm⟩
  cases own with
  | none =>
    obtain ⟨base', rfl⟩ := hroot h
    exact ⟨base', none, facets, copies, _, rfl, hcopies⟩
  | some n =>
    obtain ⟨m, -, h⟩ := gives_attach.1 h
    obtain ⟨base', rfl⟩ := hroot h
    exact ⟨base', some m, facets, copies, _, rfl, hcopies⟩

theorem gives_complexType {co : Component} {decl : ComplexDecl} {m : Node}
    (h : (inlineEdits c path (complexTypeEdits c.source true outer any (some m) particle)
      (.complexType co decl [] any' none none)).Gives r) :
    ∃ flat, Flattens c.source outer flat ∧ ∃ m', (inlineChild c path (.plain m)).Gives m' ∧
      ∃ copies any'' particle', r = .complexType co decl copies any'' (some m') particle' ∧
        List.Forall₂ (IsCopy c) flat copies := by
  unfold complexTypeEdits at h
  dsimp only at h
  rw [List.append_assoc] at h
  obtain ⟨hstop, shape, copies, herase, hmembers, hcopies, h⟩ :=
    gives_attached (fun e he => idle_attributeEdits he) rfl h
  obtain ⟨any'', rfl⟩ := eq_of_erase_complexType herase hmembers
  obtain ⟨m', hm', h⟩ := gives_attach.1 h
  replace h : (inlineEdits c path (particleEdits c.source (.attach .particle) particle)
      (.complexType co decl copies any'' (some m') none)).Gives r := h
  refine ⟨_, flattens_attributeEdits hstop, m', hm', copies, any'', ?_⟩
  cases hchild : particleChild? c.source none particle with
  | error f =>
    rw [particleEdits, hchild, inlineEdits_stop] at h
    exact absurd h gives_throw
  | ok child =>
    have hedits : particleEdits c.source (.attach .particle) particle = child.toList.map (.attach .particle) := by
      rw [particleEdits, hchild]
    rw [hedits] at h
    cases child with
    | none =>
      rw [Option.toList_none, List.map_nil, inlineEdits_nil, gives_pure] at h
      exact ⟨none, h.symm, hcopies⟩
    | some child =>
      rw [Option.toList_some, List.map_singleton, gives_attach] at h
      obtain ⟨p, -, h⟩ := h
      rw [inlineEdits_nil, gives_pure] at h
      exact ⟨some p, h.symm, hcopies⟩

end Copies

section Types

variable {c : Context} {path : List ComponentKey} {t m : Node} {d : SimpleDerivation}

private theorem outline_plain {n : Node} {start : Shape Node} (h : (Child.plain n).outline = .ok start) :
    outline n = .ok start := by
  obtain ⟨shape, hshape, hbounds⟩ := Reader.bind_eq_ok.1 h
  cases hbounds
  exact hshape

theorem gives_simpleContent {content : Node}
    (h : (inlineChild c path (.plain ⟨.simpleContent (some content)⟩)).Gives m) :
    ∃ path' content', (inlineChild c path' (.plain content)).Gives content' ∧
      m = ⟨.simpleContent (some content')⟩ := by
  obtain ⟨start, hstart, inside, -, r, h, rfl⟩ := gives_child.1 h
  cases outline_plain hstart
  obtain ⟨content', hcontent', h⟩ := gives_attach.1 h
  rw [inlineEdits_nil, gives_pure] at h
  exact ⟨inside, content', hcontent', congrArg Node.mk h.symm⟩

theorem gives_extension {base : Option QName} {members : List Node} {any : Option Node} (hs : c.source.Proper)
    (hkeeps : KeepsInherited c.source base)
    (h : (inlineChild c path (.plain ⟨.simpleContentExtension base members any⟩)).Gives m) :
    ∃ flat rest, Flattens c.source members flat ∧ Inherits c.source base rest ∧
      ∃ base' copies any', m = ⟨.simpleContentExtension base' copies any'⟩ ∧
        List.Forall₂ (IsCopy c) (rest ++ flat) copies := by
  obtain ⟨start, hstart, inside, -, r, h, rfl⟩ := gives_child.1 h
  obtain ⟨any', -, hstart'⟩ := Reader.bind_eq_ok.1 (outline_plain hstart)
  cases hstart'
  obtain ⟨flat, rest, hflat, hrest, base', copies, any'', rfl, hcopies⟩ := gives_simpleExtension hs hkeeps h
  exact ⟨flat, rest, hflat, hrest, base', copies, any'', rfl, hcopies⟩

theorem gives_restriction {base : Option QName} {own : Option Node} {facets members : List Node} {any : Option Node}
    (h : (inlineChild c path (.plain ⟨.simpleContentRestriction base own facets members any⟩)).Gives m) :
    ∃ flat, Flattens c.source members flat ∧ ∃ base' own' facets' copies any',
      m = ⟨.simpleContentRestriction base' own' facets' copies any'⟩ ∧ List.Forall₂ (IsCopy c) flat copies := by
  obtain ⟨start, hstart, inside, -, r, h, rfl⟩ := gives_child.1 h
  obtain ⟨facets', -, hstart'⟩ := Reader.bind_eq_ok.1 (outline_plain hstart)
  obtain ⟨any', -, hstart'⟩ := Reader.bind_eq_ok.1 hstart'
  cases hstart'
  obtain ⟨flat, hflat, base', own', facets'', copies, any'', rfl, hcopies⟩ := gives_simpleRestriction h
  exact ⟨flat, hflat, base', own', facets'', copies, any'', rfl, hcopies⟩

/-- The copy of a type with simple content is derived as the type is, and declares what the type takes. -/
theorem copies_simpleDerivation (hs : c.source.Proper) (hd : t.simpleDerivation? = some d)
    (hkeeps : d.how = .extension → KeepsInherited c.source d.base)
    (h : (inlineChild c path (.plain t)).Gives m) :
    ∃ d' attributes order, m.simpleDerivation? = some d' ∧ d'.how = d.how ∧ d.Taken c.source attributes ∧
      order.Perm attributes ∧ List.Forall₂ (IsCopy c) order d'.declared := by
  obtain ⟨co, decl, any, content, particle, rfl, hcontent⟩ := Node.exists_of_simpleDerivation? hd
  obtain ⟨start, hstart, inside, -, r, h, rfl⟩ := gives_child.1 h
  obtain ⟨any', -, hstart'⟩ := Reader.bind_eq_ok.1 (outline_plain hstart)
  cases hstart'
  obtain ⟨outer, houter, model, hmodel, beside, any'', particle', rfl, hbeside⟩ := gives_complexType h
  obtain ⟨path', content', hcopy, rfl⟩ := gives_simpleContent hmodel
  rcases hcontent with ⟨hhow, _, rfl⟩ | ⟨hhow, _, _, _, rfl⟩
  · obtain ⟨flat, rest, hflat, hrest, base', copies, _, rfl, hcopies⟩ := gives_extension hs (hkeeps hhow) hcopy
    refine ⟨⟨.extension, base', copies, beside⟩, (flat ++ outer) ++ rest, (rest ++ flat) ++ outer, rfl, hhow.symm,
      ?_, ?_, List.rel_append hcopies hbeside⟩
    · rw [SimpleDerivation.Taken, hhow]
      refine ⟨flat ++ outer, rest, hflat.append houter, hrest, ?_⟩
      rw [hhow, Derivation.combine]
    · rw [List.append_assoc]
      exact List.perm_append_comm
  · obtain ⟨flat, hflat, base', own', facets', copies, _, rfl, hcopies⟩ := gives_restriction hcopy
    refine ⟨⟨.restriction, base', copies, beside⟩, flat ++ outer, flat ++ outer, rfl, hhow.symm, ?_, .rfl,
      List.rel_append hcopies hbeside⟩
    rw [SimpleDerivation.Taken, hhow]
    exact hflat.append houter

end Types

end PayloadSchema.Extraction
