import PayloadSchema.Proofs.Rules.DefiniteEdits
import PayloadSchema.Proofs.Rules.Outlines

/-!
# Copies that can be written

The copy of a construct of a definite source starts as one that loses at most what it refers to when it is written, and
definite edits keep it so.  What stands at the top keeps its name from the start.
-/

namespace PayloadSchema.Schema

section Titles

variable {α β : Type} {s : Shape α}

@[simp] theorem Shape.title?_map (f : α → β) (s : Shape α) : (s.map f).title? = s.title? := by
  rw [title?, title?, component?_map]

theorem Shape.isTopLevel_eq_title? (s : Shape α) : s.isTopLevel = s.title?.isSome := by
  rw [title?, isTopLevel]
  cases s.component? with
  | none => rfl
  | some c => cases htop : c.topLevel <;> simp [htop]

theorem Shape.title?_eq_none : s.title? = none ↔ s.isTopLevel = false := by
  rw [isTopLevel_eq_title?, Option.isSome_eq_false_iff, Option.isNone_iff_eq_none]

theorem Shape.component?_of_title? {name : Option String} (h : s.title? = some name) :
    s.component? = some ⟨name, true⟩ := by
  rw [title?] at h
  obtain ⟨c, hc, rfl⟩ := Option.map_eq_some_iff.1 h
  obtain ⟨hcomponent, htop⟩ := Option.filter_eq_some_iff.1 hc
  rw [hcomponent, ← show c.topLevel = true by simpa using htop]

end Titles

end PayloadSchema.Schema

namespace PayloadSchema.Extraction

open Schema

/-! ## Edits of a construct -/

section Edits

variable {α : Type} {ok : Char → Prop} {s : Shape α} {x : α} {slot : Slot}

@[simp] theorem title?_fill : (slot.fill x s).title? = s.title? := by
  cases slot <;> cases s <;> rfl

@[simp] theorem title?_withAny {any : Option α} : (s.withAny any).title? = s.title? := by
  cases s <;> rfl

@[simp] theorem title?_withOccurs {o : Occurs} : (s.withOccurs o).title? = s.title? := by
  cases s <;> rfl

theorem title?_change {change : Change} (h : change.Definite ok (s.isTopLevel = false)) :
    (change.apply s).title? = s.title? := by
  cases change <;> cases s <;> first | rfl | skip
  all_goals
    have hinside := h.1
    rw [Shape.title?_eq_none.2 hinside, Shape.title?_eq_none, isTopLevel_change, hinside]

theorem lasting_fill (slot : Slot) (h : s.Lasting ok) : (slot.fill x s).Lasting ok := by
  refine h.congr ?_ ?_ ?_ ?_ ?_ ?_ <;> cases slot <;> cases s <;>
    simp [Slot.fill, Shape.addAttribute, Shape.texts, ElementDecl.texts, AttributeUse.texts, Shape.typeNames,
      Shape.members, Shape.occurs?, Shape.facet?, Shape.Explicit]

theorem lasting_withAny {any : Option α} (h : s.Lasting ok) : (s.withAny any).Lasting ok := by
  refine h.congr ?_ ?_ ?_ ?_ ?_ ?_ <;> cases s <;>
    simp [Shape.withAny, Shape.texts, Shape.typeNames, Shape.members, Shape.occurs?, Shape.facet?, Shape.Explicit]

theorem lasting_withOwnType {own : Option α} (h : s.Lasting ok) : (s.withOwnType own).Lasting ok := by
  refine h.congr ?_ ?_ ?_ ?_ ?_ ?_ <;> cases s <;>
    simp [Shape.withOwnType, Shape.texts, Shape.typeNames, Shape.members, Shape.occurs?, Shape.facet?, Shape.Explicit]

theorem lasting_withOccurs {o : Occurs} (h : s.Lasting ok) (hinside : s.isTopLevel = false)
    (ho : o.Short ∧ o.min.isSome) : (s.withOccurs o).Lasting ok := by
  obtain ⟨⟨⟨htexts, hnames, hmembers, hbounds, hfacet⟩, hbounded⟩, hexplicit⟩ := h
  cases s with
  | element c d own =>
    have htop : c.topLevel = false := hinside
    refine ⟨⟨⟨htexts, hnames, hmembers, ?_, hfacet⟩, ?_⟩, ?_⟩
    · rintro _ ⟨rfl⟩
      exact ho.1
    · rintro _ ⟨rfl⟩
      exact ho.2
    · simpa [Shape.withOccurs, Shape.Explicit, htop] using hexplicit
  | wildcard | modelGroup | groupRef | elementRef =>
    refine ⟨⟨⟨htexts, hnames, hmembers, ?_, hfacet⟩, ?_⟩, trivial⟩
    · rintro _ ⟨rfl⟩
      exact ho.1
    · rintro _ ⟨rfl⟩
      exact ho.2
  | _ => exact ⟨⟨⟨htexts, hnames, hmembers, hbounds, hfacet⟩, hbounded⟩, hexplicit⟩

def Change.texts : Change → List String
  | .name own => own.toList
  | .form f => [f]
  | .element d => d.texts
  | .attribute u => u.texts
  | _ => []

/-- The types that a change names. -/
def Change.typeNames : Change → List QName
  | .typeName q | .base q => q.toList
  | .member q => [q]
  | _ => []

section Change

variable {change : Change} {inside : Prop}

private theorem mem_orElse {β : Type} {a b : Option β} {y : β} :
    y ∈ (a <|> b).toList → y ∈ a.toList ∨ y ∈ b.toList := by
  cases a with
  | none => exact .inr
  | some => exact .inl

theorem mem_texts_change {t : String} (h : t ∈ (change.apply s).texts) : t ∈ s.texts ∨ t ∈ change.texts := by
  cases change <;> cases s <;> first | exact .inl h | skip
  case element.element e c d own =>
    simp only [Change.apply, Shape.texts, Change.texts, ElementDecl.texts, List.mem_append] at h ⊢
    have hdefault := mem_orElse (a := d.default) (b := e.default) (y := t)
    have hfixed := mem_orElse (a := d.fixed) (b := e.fixed) (y := t)
    tauto
  case «attribute».attribute u c d own =>
    simp only [Change.apply, Shape.texts, Change.texts, AttributeUse.texts, List.mem_append] at h ⊢
    have huse := mem_orElse (a := d.usage.use) (b := u.use) (y := t)
    have hdefault := mem_orElse (a := d.usage.default) (b := u.default) (y := t)
    have hfixed := mem_orElse (a := d.usage.fixed) (b := u.fixed) (y := t)
    tauto
  all_goals
    simp only [Change.apply, Shape.texts, Change.texts, ElementDecl.texts, Option.toList_some, List.mem_append] at h ⊢
    tauto

theorem mem_typeNames_change {q : QName} (h : q ∈ (change.apply s).typeNames) :
    q ∈ s.typeNames ∨ q ∈ change.typeNames := by
  cases change <;> cases s <;> first | exact .inl h | exact .inr h | exact List.mem_append.1 h

theorem mem_members_change {q : QName} (h : q ∈ (change.apply s).members) :
    q ∈ s.members ∨ change = .member q := by
  cases change <;> cases s <;> first | exact .inl h | skip
  exact (List.mem_append.1 h).imp_right fun h => by rw [List.mem_singleton.1 h]

theorem Change.Definite.texts (h : change.Definite ok inside) : ∀ t ∈ change.texts, Carried ok t := by
  cases change with
  | name | form => simpa [Change.texts] using h.2
  | element | «attribute» => exact h
  | typeName | base | member => simp [Change.texts]

theorem Change.Definite.typeNames (h : change.Definite ok inside) : ∀ q ∈ change.typeNames, Spellable ok q := by
  cases change with
  | typeName | base => simpa [Change.typeNames] using fun q hq => h q hq
  | member => simpa [Change.typeNames] using h.1
  | name | form | element | «attribute» => simp [Change.typeNames]

theorem explicit_change (h : s.Explicit) (hchange : change.Definite ok (s.isTopLevel = false)) :
    (change.apply s).Explicit := by
  cases change <;> cases s <;> first | exact h | skip
  case element.element e c d own =>
    simp only [Change.apply, Shape.Explicit] at h ⊢
    split <;> simp_all
  all_goals
    have htop := hchange.1
    simp only [Shape.isTopLevel, Shape.component?] at htop
    simpa [Change.apply, Shape.Explicit, htop] using h

theorem lasting_change (h : s.Lasting ok) (hchange : change.Definite ok (s.isTopLevel = false)) :
    (change.apply s).Lasting ok := by
  have hbounds : (change.apply s).occurs? = s.occurs? := by
    cases change <;> cases s <;> rfl
  have hfacet : (change.apply s).facet? = s.facet? := by
    cases change <;> cases s <;> rfl
  refine ⟨⟨⟨fun t ht => ?_, fun q hq => ?_, fun q hq => ?_, hbounds ▸ h.bounds, hfacet ▸ h.facet⟩,
    hbounds ▸ h.bounded⟩, explicit_change h.explicit hchange⟩
  · exact (mem_texts_change ht).elim (h.texts t) (hchange.texts t)
  · exact (mem_typeNames_change hq).elim (h.names q) (hchange.typeNames q)
  · rcases mem_members_change hq with hq | rfl
    · exact h.members q hq
    · exact hchange.2

end Change

end Edits

/-! ## The start of a copy -/

section Outline

variable {ok : Char → Prop} {n : Node}

/-- A construct that names no type, says no more than a definite one, and says it in a place for it. -/
private theorem lasting_start {s' : Shape Node} (h : n.shape.Definite ok) (htexts : ∀ t ∈ s'.texts, t ∈ n.shape.texts)
    (hbounds : ∀ o ∈ s'.occurs?, o ∈ n.shape.occurs?) (hfacet : ∀ f ∈ s'.facet?, f ∈ n.shape.facet?)
    (hexplicit : s'.Explicit) (hnames : s'.typeNames = []) (hmembers : s'.members = []) : s'.Lasting ok :=
  ⟨⟨⟨fun t ht => h.texts t (htexts t ht), by simp [hnames], by simp [hmembers],
    fun o ho => h.bounds o (hbounds o ho), fun f hf => h.facet f (hfacet f hf)⟩,
    fun o ho => h.bounded o (hbounds o ho)⟩, hexplicit⟩

theorem Repeated.lasting {m : Node} (hn : n.shape.Definite ok) (h : Repeated n m) :
    m.Throughout (Shape.Lasting ok) := by
  cases h with
  | facet hf =>
    refine throughout_iff.2 ⟨lasting_start hn ?_ (by simp [Shape.occurs?]) ?_ trivial rfl rfl, by simp [Shape.children]⟩
    · obtain ⟨shape⟩ := n
      cases shape <;> cases hf
      exact fun t ht => ht
    · rintro _ ⟨rfl⟩
      exact hf
  | wildcard hw =>
    refine throughout_iff.2 ⟨lasting_start hn ?_ (by simp [Shape.occurs?]) (by simp [Shape.facet?]) trivial rfl rfl,
      by simp [Shape.children]⟩
    rw [Shape.texts_of_wildcard? hw]
    exact fun t ht => ht

theorem lasting_outline (hn : n.shape.Definite ok) (hinner : ∀ m ∈ n.children, m.shape.Definite ok) {s : Shape Node}
    (h : outline n = .ok s) : Node.Throughout (Shape.Lasting ok) ⟨s⟩ ∧ s.isTopLevel = false := by
  have houtlines := outlines_outline h
  refine ⟨throughout_iff.2 ⟨?_, fun m hm => ?_⟩, houtlines.inside⟩
  · exact lasting_start hn houtlines.texts houtlines.occurs (by simp [houtlines.facet]) houtlines.explicit
      houtlines.typeNames houtlines.members
  · obtain ⟨n', hn', hrepeated⟩ := houtlines.children m hm
    exact hrepeated.lasting (hinner n' hn')

theorem lasting_child {child : Child} (hn : child.origin.shape.Definite ok)
    (hinner : ∀ m ∈ child.origin.children, m.shape.Definite ok) (hchild : child.Definite) {s : Shape Node}
    (h : child.outline = .ok s) : Node.Throughout (Shape.Lasting ok) ⟨s⟩ ∧ s.isTopLevel = false := by
  obtain ⟨start, hstart, h⟩ := Reader.bind_eq_ok.1 h
  obtain ⟨hlasting, hinside⟩ := lasting_outline hn hinner hstart
  cases h
  cases hbounds : child.bounds with
  | none => exact ⟨hlasting, hinside⟩
  | some o =>
    obtain ⟨hhere, hchildren⟩ := throughout_iff.1 hlasting
    refine ⟨throughout_iff.2 ⟨lasting_withOccurs hhere hinside (hchild o hbounds), ?_⟩, ?_⟩
    · have hsame : (start.withOccurs o).children = start.children := by
        cases start <;> rfl
      rwa [hsame]
    · rw [isTopLevel_withOccurs, hinside]

end Outline

end PayloadSchema.Extraction
