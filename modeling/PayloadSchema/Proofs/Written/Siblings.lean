import PayloadSchema.Proofs.Schema.Reading

/-!
# Elements side by side

The readers of lists pick out the elements of their own kinds.  Where the kinds of all elements of a list are known, so
is what every reader gives for it.
-/

namespace PayloadSchema.Schema.Reader

open Xml (Element)

variable {e : Element}

section Lists

def ReadsAs (kind : Construct) (read : Element → Except Fault Node) (e : Element) (n : Node) : Prop :=
  construct? e = some kind ∧ read e = .ok n

abbrev ReadsAsAny : Element → Node → Prop :=
  ReadsAs .anyAttribute fun e => .ok ⟨.anyAttribute (wildcard e)⟩

def ReadsAsFacet (e : Element) (n : Node) : Prop :=
  ∃ f, n = ⟨.facet f⟩ ∧ facet? e = some f

def ReadsAsGroup (e : Element) (n : Node) : Prop :=
  ∃ order, ReadsAs (.ordered order) particle e n

def ReadsAsItem (e : Element) (n : Node) : Prop :=
  ReadsAs .element (element false) e n ∨ ReadsAsGroup e n ∨
    ReadsAs .any (fun e => do pure ⟨.wildcard (wildcard e) (← occurs e)⟩) e n

def isDeclaring : Construct → Bool
  | .attribute | .attributeGroup | .anyAttribute => true
  | _ => false

def Declare (declaring : Bool) (es : List Element) : Prop :=
  ∀ e ∈ es, ∃ k, construct? e = some k ∧ isDeclaring k = declaring

def ReadsAsMembers (members : List Node) (any : Option Node) (es : List Element) : Prop :=
  ∃ fs gs, es = fs ++ gs ∧ List.Forall₂ (ReadsAs .attribute (attributeOrRef false)) fs members ∧
    List.Forall₂ ReadsAsAny gs any.toList

variable {es front back : List Element} {ns members : List Node} {own any : Option Node} {n : Node}
  {read : Element → Except Fault Node} {kind : Construct}

theorem forall_of_reads {reads : Element → Node → Prop} {good : Element → Prop} (h : List.Forall₂ reads es ns)
    (hreads : ∀ e n, reads e n → good e) : ∀ e ∈ es, good e := by
  induction h with
  | nil => simp
  | cons he _ ih => exact List.forall_mem_cons.2 ⟨hreads _ _ he, ih⟩

theorem Declare.append {declaring : Bool} (hfront : Declare declaring front) (hback : Declare declaring back) :
    Declare declaring (front ++ back) :=
  List.forall_mem_append.2 ⟨hfront, hback⟩

theorem ReadsAsMembers.declare (h : ReadsAsMembers members any es) : Declare true es := by
  obtain ⟨fs, gs, rfl, hfs, hgs⟩ := h
  exact Declare.append (forall_of_reads hfs fun e n he => ⟨_, he.1, rfl⟩)
    (forall_of_reads hgs fun e n he => ⟨_, he.1, rfl⟩)

theorem ReadsAsFacet.construct (h : ReadsAsFacet e n) : ∃ name, construct? e = some (.facet name) := by
  obtain ⟨f, rfl, hf⟩ := h
  rw [facet?] at hf
  split at hf
  · rename_i name hname
    exact ⟨name, hname⟩
  · cases hf

/-! ### Attributes -/

theorem attributes_skip (hfront : Declare false front) :
    attributes any (front ++ es) = attributes any es := by
  induction front with
  | nil => rfl
  | cons e front ih =>
    obtain ⟨⟨k, hk, hdeclaring⟩, hrest⟩ := List.forall_mem_cons.1 hfront
    rw [List.cons_append, attributes, hk]
    cases k <;> first | exact ih hrest | cases hdeclaring

theorem attributes_of (hfront : Declare false front) (h : ReadsAsMembers members any es) :
    attributes none (front ++ es) = .ok (members, any) := by
  obtain ⟨fs, gs, rfl, hfs, hgs⟩ := h
  rw [attributes_skip hfront]
  induction hfs with
  | nil =>
    cases any with
    | none =>
      cases hgs
      rw [List.nil_append, attributes]
      rfl
    | some a =>
      obtain ⟨g, rest, ⟨hkind, ha⟩, hrest, rfl⟩ := List.forall₂_cons_right_iff.1 hgs
      cases hrest
      cases ha
      rw [List.nil_append, attributes, hkind]
      dsimp only
      rw [attributes]
      rfl
  | cons he _ ih =>
    rw [List.cons_append, attributes, he.1]
    dsimp only
    rw [he.2, ih]
    rfl

theorem attributes_only (h : ReadsAsMembers members any es) :
    attributes none es = .ok (members, any) := by
  have heq := attributes_of (List.forall_mem_nil _) h
  rwa [List.nil_append] at heq

/-! ### Simple types and facets -/

theorem innerSimpleType_skip (hback : ∀ e ∈ back, construct? e ≠ some .simpleType) :
    innerSimpleType own back = .ok own := by
  induction back with
  | nil =>
    rw [innerSimpleType]
    rfl
  | cons e back ih =>
    obtain ⟨he, hrest⟩ := List.forall_mem_cons.1 hback
    rw [innerSimpleType, if_neg he]
    exact ih hrest

theorem innerSimpleType_of (h : List.Forall₂ (ReadsAs .simpleType simpleType) es own.toList)
    (hback : ∀ e ∈ back, construct? e ≠ some .simpleType) : innerSimpleType none (es ++ back) = .ok own := by
  cases own with
  | none =>
    cases h
    exact innerSimpleType_skip hback
  | some n =>
    obtain ⟨e, rest, ⟨hkind, hread⟩, hrest, rfl⟩ := List.forall₂_cons_right_iff.1 h
    cases hrest
    rw [List.cons_append, List.nil_append, innerSimpleType, if_pos hkind, hread]
    exact innerSimpleType_skip hback

theorem innerSimpleType_only (h : List.Forall₂ (ReadsAs .simpleType simpleType) es own.toList) :
    innerSimpleType none es = .ok own := by
  have heq := innerSimpleType_of h (List.forall_mem_nil fun e => construct? e ≠ some .simpleType)
  rwa [List.append_nil] at heq

theorem simpleTypes_of (h : List.Forall₂ (ReadsAs .simpleType simpleType) es ns) :
    simpleTypes es = .ok ns := by
  induction h with
  | nil =>
    rw [simpleTypes]
    rfl
  | cons he _ ih =>
    rw [simpleTypes, if_pos he.1, he.2, ih]
    rfl

theorem facets_skip (h : ∀ e ∈ es, ∀ name, construct? e ≠ some (.facet name)) : facets es = [] := by
  have hnone : ∀ e ∈ es, facet? e = none := by
    intro e he
    rw [facet?]
    split
    · rename_i name hname
      exact absurd hname (h e he name)
    · rfl
  rw [facets, List.filterMap_eq_nil_iff.2 hnone, List.map_nil]

theorem facets_append : facets (front ++ back) = facets front ++ facets back := by
  simp [facets]

theorem facets_of (h : List.Forall₂ ReadsAsFacet es ns) : facets es = ns := by
  induction h with
  | nil => rfl
  | @cons e n es ns he _ ih =>
    obtain ⟨f, rfl, hf⟩ := he
    have hone : facets [e] = [⟨.facet f⟩] := by simp [facets, hf]
    rw [← List.singleton_append, facets_append, hone, ih, List.singleton_append]

theorem restricted_of {limits : List Element} (hes : List.Forall₂ (ReadsAs .simpleType simpleType) es own.toList)
    (hlimits : List.Forall₂ ReadsAsFacet limits ns) (hback : Declare true back) :
    innerSimpleType none (es ++ limits ++ back) = .ok own ∧ facets (es ++ limits ++ back) = ns := by
  have hes' : ∀ e ∈ es, ∀ name, construct? e ≠ some (.facet name) :=
    forall_of_reads hes fun e n he name hname => by cases he.1.symm.trans hname
  have hlimits' := forall_of_reads hlimits fun e n he => he.construct
  constructor
  · rw [List.append_assoc]
    refine innerSimpleType_of hes fun e he hname => ?_
    rcases List.mem_append.1 he with he | he
    · obtain ⟨name, hfacet⟩ := hlimits' e he
      cases hfacet.symm.trans hname
    · obtain ⟨k, hk, hdeclaring⟩ := hback e he
      cases hk.symm.trans hname
      cases hdeclaring
  · rw [facets_append, facets_append, facets_skip hes', facets_of hlimits, facets_skip, List.append_nil,
      List.nil_append]
    intro e he name hname
    obtain ⟨k, hk, hdeclaring⟩ := hback e he
    cases hk.symm.trans hname
    cases hdeclaring

/-! ### Particles -/

theorem items_of (h : List.Forall₂ ReadsAsItem es ns) : items es = .ok ns := by
  induction h with
  | nil =>
    rw [items]
    rfl
  | cons he _ ih =>
    rw [items]
    rcases he with ⟨hkind, hread⟩ | ⟨order, hkind, hread⟩ | ⟨hkind, hread⟩
    · rw [hkind]
      dsimp only
      rw [hread, ih]
      rfl
    · rw [hkind]
      dsimp only
      rw [hread, ih]
      rfl
    · obtain ⟨o, ho, hn⟩ := bind_eq_ok.1 hread
      cases hn
      rw [hkind]
      dsimp only
      rw [ho, ih]
      rfl

theorem innerParticle_skip {groups : Bool} (hback : Declare true back) :
    innerParticle groups own back = .ok own := by
  induction back with
  | nil =>
    rw [innerParticle]
    rfl
  | cons e back ih =>
    obtain ⟨⟨k, hk, hdeclaring⟩, hrest⟩ := List.forall_mem_cons.1 hback
    rw [innerParticle, hk]
    cases k <;> first | exact ih hrest | cases hdeclaring

theorem innerParticle_of (h : List.Forall₂ ReadsAsGroup es own.toList) (hback : Declare true back) :
    innerParticle true none (es ++ back) = .ok own := by
  cases own with
  | none =>
    cases h
    exact innerParticle_skip hback
  | some n =>
    obtain ⟨e, rest, ⟨order, hkind, hread⟩, hrest, rfl⟩ := List.forall₂_cons_right_iff.1 h
    cases hrest
    rw [List.cons_append, List.nil_append, innerParticle, hkind]
    dsimp only
    rw [hread]
    exact innerParticle_skip hback

theorem complexParts_skip {model : Option Node} (hback : Declare true back) :
    complexParts model own back = .ok (model, own) := by
  induction back with
  | nil =>
    rw [complexParts]
    rfl
  | cons e back ih =>
    obtain ⟨⟨k, hk, hdeclaring⟩, hrest⟩ := List.forall_mem_cons.1 hback
    rw [complexParts, hk]
    cases k <;> first | exact ih hrest | cases hdeclaring

def ReadsAsContent (model own : Option Node) (es : List Element) : Prop :=
  Declare false es ∧ ∀ back, Declare true back → complexParts none none (es ++ back) = .ok (model, own)

theorem readsAsContent_particle {own : Option Node} {es : List Element}
    (h : List.Forall₂ ReadsAsGroup es own.toList) : ReadsAsContent none own es := by
  refine ⟨forall_of_reads h fun e n ⟨order, he⟩ => ⟨_, he.1, rfl⟩, fun back hback => ?_⟩
  cases own with
  | none =>
    cases h
    exact complexParts_skip hback
  | some n =>
    obtain ⟨e, rest, ⟨order, hkind, hread⟩, hrest, rfl⟩ := List.forall₂_cons_right_iff.1 h
    cases hrest
    rw [List.cons_append, List.nil_append, complexParts, hkind]
    dsimp only
    rw [hread]
    exact complexParts_skip hback

theorem readsAsContent_simple {m : Node} (h : ReadsAs .simpleContent simpleContent e m) :
    ReadsAsContent (some m) none [e] := by
  refine ⟨by simpa [Declare] using ⟨_, h.1, rfl⟩, fun back hback => ?_⟩
  rw [List.cons_append, List.nil_append, complexParts, h.1]
  dsimp only
  rw [h.2]
  exact complexParts_skip hback

theorem readsAsContent_complex {m : Node} (h : ReadsAs .complexContent complexContent e m) :
    ReadsAsContent (some m) none [e] := by
  refine ⟨by simpa [Declare] using ⟨_, h.1, rfl⟩, fun back hback => ?_⟩
  rw [List.cons_append, List.nil_append, complexParts, h.1]
  dsimp only
  rw [h.2]
  exact complexParts_skip hback

end Lists

end PayloadSchema.Schema.Reader
