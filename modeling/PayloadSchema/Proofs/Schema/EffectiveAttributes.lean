import Mathlib.Data.List.Nodup
import PayloadSchema.Proofs.Schema.Language
import PayloadSchema.Proofs.Schema.Roles

/-!
# Attributes of types with simple content

A type with simple content has the attributes that it declares and those that it inherits along the chain of its
bases.  The chain goes through extensions and restrictions, and ends in a type that is built in or in a simple type.
-/

namespace PayloadSchema.Schema

open Extraction

/-! ## Declared attributes -/

/-- The name of an attribute in a document.  A local name is in the target namespace where its form says so, and the
name that a reference refers to is its own. -/
def Shape.declaredName? {α β : Type} (s : SchemaOf α) : Shape β → Option QName
  | .attribute c d _ =>
    let space := if d.form.getD s.attributeForm = qualified then s.space else ""
    c.name.map (⟨space, ·⟩)
  | attributeRef ref _ => ref
  | _ => none

/-- The names of attributes side by side. -/
def declaredNames {α : Type} (s : SchemaOf α) (members : List Node) : List (Option QName) :=
  members.map fun n => n.shape.declaredName? s

def Shape.isProhibited {α : Type} : Shape α → Bool
  | .attribute _ d _ => d.usage.use = some "prohibited"
  | attributeRef _ usage => usage.use = some "prohibited"
  | _ => false

/-- The attributes that stand in a list when each reference to an attribute group is replaced by what stands in the
group. -/
inductive Flattens (s : Schema) : List Node → List Node → Prop where
  | nil : Flattens s [] []
  | own {n : Node} {members flat : List Node} (hown : n.shape.kind ≠ .attributeGroupRef)
    (h : Flattens s members flat) : Flattens s (n :: members) (n :: flat)
  | group {q : QName} {g : Node} {inner members first flat : List Node}
    (hfind : s.find? .attributeGroups (some q) = some g) (hinner : g.shape.attributes? = some inner)
    (hfirst : Flattens s inner first) (h : Flattens s members flat) :
    Flattens s (⟨.attributeGroupRef (some q)⟩ :: members) (first ++ flat)

section Flattens

variable {s : Schema} {xs ys us vs : List Node}

theorem Flattens.append (hx : Flattens s xs us) (hy : Flattens s ys vs) : Flattens s (xs ++ ys) (us ++ vs) := by
  induction hx with
  | nil => exact hy
  | own hown _ ih => exact .own hown ih
  | group hfind hinner hfirst _ _ ih =>
    rw [List.append_assoc]
    exact .group hfind hinner hfirst ih

/-- What stands in two lists side by side stands in the one or in the other. -/
theorem Flattens.of_append {zs : List Node} (h : Flattens s (xs ++ ys) zs) :
    ∃ us vs, Flattens s xs us ∧ Flattens s ys vs ∧ zs = us ++ vs := by
  induction xs generalizing zs with
  | nil => exact ⟨[], zs, .nil, h, rfl⟩
  | cons x xs ih =>
    rw [List.cons_append] at h
    cases h with
    | own hown h =>
      obtain ⟨us, vs, hxs, hys, rfl⟩ := ih h
      exact ⟨_, vs, .own hown hxs, hys, rfl⟩
    | group hfind hinner hfirst h =>
      obtain ⟨us, vs, hxs, hys, rfl⟩ := ih h
      exact ⟨_, vs, .group hfind hinner hfirst hxs, hys, (List.append_assoc _ us vs).symm⟩

theorem flattens_iff (hxs : ∀ x ∈ xs, x.shape.kind ≠ .attributeGroupRef) : Flattens s xs us ↔ us = xs := by
  induction xs generalizing us with
  | nil =>
    constructor
    · rintro ⟨⟩
      rfl
    · rintro rfl
      exact .nil
  | cons x xs ih =>
    rw [List.forall_mem_cons] at hxs
    constructor
    · intro h
      cases h with
      | own _ h => rw [(ih hxs.2).1 h]
      | group => exact absurd rfl hxs.1
    · rintro rfl
      exact .own hxs.1 ((ih hxs.2).2 rfl)

end Flattens

/-! ## Simple content -/

structure SimpleDerivation where
  how : Derivation
  base : Option QName
  /-- The attributes of the derivation. -/
  members : List Node
  /-- The attributes of the type beside its content. -/
  beside : List Node

/-- The attributes that a type declares itself. -/
def SimpleDerivation.declared (d : SimpleDerivation) : List Node :=
  d.members ++ d.beside

/-- How a type is derived, if it is a complex type with simple content. -/
def Node.simpleDerivation? : Node → Option SimpleDerivation
  | ⟨.complexType _ _ beside _ (some ⟨.simpleContent (some content)⟩) _⟩ =>
    match content.shape with
    | .simpleContentExtension base members _ => some ⟨.extension, base, members, beside⟩
    | .simpleContentRestriction base _ _ members _ => some ⟨.restriction, base, members, beside⟩
    | _ => none
  | _ => none

theorem Node.exists_of_simpleDerivation? {t : Node} {d : SimpleDerivation} (hd : t.simpleDerivation? = some d) :
    ∃ co decl any content particle,
      t = ⟨.complexType co decl d.beside any (some ⟨.simpleContent (some content)⟩) particle⟩ ∧
      ((d.how = .extension ∧ ∃ any, content = ⟨.simpleContentExtension d.base d.members any⟩) ∨
        (d.how = .restriction ∧ ∃ own facets any,
          content = ⟨.simpleContentRestriction d.base own facets d.members any⟩)) := by
  unfold Node.simpleDerivation? at hd
  split at hd
  · rename_i content _
    obtain ⟨shape⟩ := content
    cases shape <;> cases hd
    · exact ⟨_, _, _, _, _, rfl, .inl ⟨rfl, _, rfl⟩⟩
    · exact ⟨_, _, _, _, _, rfl, .inr ⟨rfl, _, _, _, rfl⟩⟩
  · cases hd

/-- The attributes that a type has that declares some and inherits others.  An extension has them all.  In a
restriction its own take the place of those of the same name, and those that it prohibits are left out. -/
def Derivation.combine (s : Schema) (own rest : List Node) : Derivation → List Node
  | .extension => own ++ rest
  | .restriction =>
    own.filter (fun n => !n.shape.isProhibited) ++
      rest.filter fun n => n.shape.declaredName? s ∉ declaredNames s own

/-- The attributes that a base passes on.  A simple type passes on what the type passes on that it restricts in the
end. -/
inductive Inherits (s : Schema) : Option QName → List Node → Prop where
  | absent : Inherits s none []
  | builtin {q : QName} (hq : q.isBuiltin) : Inherits s (some q) []
  | simple {q root : QName} {c : Component} {content : Option Node} {rest : List Node} (hq : q.isBuiltin = false)
    (hfind : s.find? .types (some q) = some ⟨.simpleType c content⟩) (hroot : simpleRoot content = .ok root)
    (h : Inherits s (some root) rest) : Inherits s (some q) rest
  | derived {q : QName} {t : Node} {d : SimpleDerivation} {own rest : List Node} (hq : q.isBuiltin = false)
    (hfind : s.find? .types (some q) = some t) (hd : t.simpleDerivation? = some d)
    (hown : Flattens s d.declared own) (h : Inherits s d.base rest) :
    Inherits s (some q) (d.how.combine s own rest)

/-- The attributes that a type with simple content has. -/
def SimpleDerivation.Effective (s : Schema) (d : SimpleDerivation) (attributes : List Node) : Prop :=
  ∃ own rest, Flattens s d.declared own ∧ Inherits s d.base rest ∧ attributes = d.how.combine s own rest

/-- The attributes that the copy of a type has.  An extension comes with what it inherits, and a restriction restates
what it keeps. -/
def SimpleDerivation.Taken (s : Schema) (d : SimpleDerivation) (attributes : List Node) : Prop :=
  match d.how with
  | .extension => d.Effective s attributes
  | .restriction => Flattens s d.declared attributes

def SimpleDerivation.DeclaresOnce (s : Schema) (d : SimpleDerivation) : Prop :=
  ∀ own, Flattens s d.declared own → (declaredNames s own).Nodup

def SimpleDerivation.AddsOnly (s : Schema) (d : SimpleDerivation) : Prop :=
  ∀ own rest, Flattens s d.declared own → Inherits s d.base rest →
    (declaredNames s own).Disjoint (declaredNames s rest)

/-- A schema in which no type with simple content declares an attribute twice, and no extension among them declares
an attribute that it inherits. -/
structure DistinctAttributes (s : Schema) : Prop where
  once : ∀ t ∈ s.types.values, ∀ d, t.simpleDerivation? = some d → d.DeclaresOnce s
  adds : ∀ t ∈ s.types.values, ∀ d, t.simpleDerivation? = some d → d.how = .extension → d.AddsOnly s

section Inherits

variable {s : Schema} {q : QName} {t : Node} {d : SimpleDerivation} {rest : List Node}

theorem inherits_builtin (hq : q.isBuiltin) : Inherits s (some q) rest ↔ rest = [] := by
  constructor
  · intro h
    cases h with
    | builtin => rfl
    | simple hq' | derived hq' =>
      rw [hq] at hq'
      cases hq'
  · rintro rfl
    exact .builtin hq

theorem inherits_derived (hq : q.isBuiltin = false) (hfind : s.find? .types (some q) = some t)
    (hd : t.simpleDerivation? = some d) : Inherits s (some q) rest ↔ d.Effective s rest := by
  constructor
  · intro h
    cases h with
    | builtin hq' =>
      rw [hq] at hq'
      cases hq'
    | simple _ hfind' =>
      cases hfind.symm.trans hfind'
      cases hd
    | derived _ hfind' hd' hown h =>
      cases hfind.symm.trans hfind'
      cases hd.symm.trans hd'
      exact ⟨_, _, hown, h, rfl⟩
  · rintro ⟨own, rest, hown, hrest, rfl⟩
    exact .derived hq hfind hd hown hrest

end Inherits

section Distinct

variable {s : Schema} {d : SimpleDerivation} {t : Node} {own rest attributes : List Node} {base : Option QName}

theorem declaredNames_append (xs ys : List Node) :
    declaredNames s (xs ++ ys) = declaredNames s xs ++ declaredNames s ys :=
  List.map_append

theorem nodup_combine (hown : (declaredNames s own).Nodup) (hrest : (declaredNames s rest).Nodup) {how : Derivation}
    (hadds : how = .extension → (declaredNames s own).Disjoint (declaredNames s rest)) :
    (declaredNames s (how.combine s own rest)).Nodup := by
  cases how with
  | extension =>
    rw [Derivation.combine, declaredNames_append]
    exact List.Nodup.append hown hrest (hadds rfl)
  | restriction =>
    rw [Derivation.combine, declaredNames_append]
    refine List.Nodup.append ?_ ?_ ?_
    · exact hown.sublist (List.filter_sublist.map _)
    · exact hrest.sublist (List.filter_sublist.map _)
    · -- An inherited attribute that is kept has no name that is declared.
      intro name hleft hright
      have hdeclared : name ∈ declaredNames s own := (List.filter_sublist.map _).subset hleft
      obtain ⟨n, hn, rfl⟩ := List.mem_map.1 hright
      have hkept := (List.mem_filter.1 hn).2
      exact of_decide_eq_true hkept hdeclared

theorem mem_types_of_find? {q : QName} (hfind : s.find? .types (some q) = some t) : t ∈ s.types.values :=
  List.mem_map_of_mem (SchemaOf.mem_of_find? hfind).2

theorem Inherits.nodup (hs : DistinctAttributes s) (h : Inherits s base rest) : (declaredNames s rest).Nodup := by
  induction h with
  | absent | builtin => exact List.nodup_nil
  | simple _ _ _ _ ih => exact ih
  | derived _ hfind hd hown hrest ih =>
    have ht := mem_types_of_find? hfind
    exact nodup_combine (hs.once _ ht _ hd _ hown) ih fun how => hs.adds _ ht _ hd how _ _ hown hrest

theorem SimpleDerivation.Effective.nodup (hs : DistinctAttributes s) (ht : t ∈ s.types.values)
    (hd : t.simpleDerivation? = some d) (h : d.Effective s attributes) : (declaredNames s attributes).Nodup := by
  obtain ⟨own, rest, hown, hrest, rfl⟩ := h
  exact nodup_combine (hs.once t ht d hd own hown) (hrest.nodup hs) fun how =>
    hs.adds t ht d hd how own rest hown hrest

end Distinct

/-! ## Bases -/

inductive Through (s : Schema) : Option QName → SimpleDerivation → Prop where
  | here {q : QName} {t : Node} {d : SimpleDerivation} (hq : q.isBuiltin = false)
    (hfind : s.find? .types (some q) = some t) (hd : t.simpleDerivation? = some d) : Through s (some q) d
  | simple {q root : QName} {c : Component} {content : Option Node} {d : SimpleDerivation}
    (hq : q.isBuiltin = false) (hfind : s.find? .types (some q) = some ⟨.simpleType c content⟩)
    (hroot : simpleRoot content = .ok root) (h : Through s (some root) d) : Through s (some q) d
  | up {q : QName} {t : Node} {d e : SimpleDerivation} (hq : q.isBuiltin = false)
    (hfind : s.find? .types (some q) = some t) (hd : t.simpleDerivation? = some d) (h : Through s d.base e) :
    Through s (some q) e

section Through

variable {s : Schema} {q : QName} {t : Node} {d e : SimpleDerivation}

theorem not_through_builtin (hq : q.isBuiltin) : ¬ Through s (some q) d := by
  rintro (⟨hq', -, -⟩ | ⟨hq', -, -, -⟩ | ⟨hq', -, -, -⟩) <;> simp [hq] at hq'

theorem through_derived (hfind : s.find? .types (some q) = some t) (hd : t.simpleDerivation? = some d)
    (h : Through s (some q) e) : e = d ∨ Through s d.base e := by
  cases h with
  | here _ hfind' hd' =>
    cases hfind.symm.trans hfind'
    exact .inl (Option.some.inj (hd'.symm.trans hd))
  | simple _ hfind' =>
    cases hfind.symm.trans hfind'
    cases hd
  | up _ hfind' hd' h =>
    cases hfind.symm.trans hfind'
    cases hd.symm.trans hd'
    exact .inr h

end Through

/-- A restriction that leaves the attributes that it inherits as they are: it declares none of them again, and
prohibits none. -/
structure SimpleDerivation.Keeps (s : Schema) (d : SimpleDerivation) : Prop where
  adds : d.AddsOnly s
  allows : ∀ own, Flattens s d.declared own → ∀ n ∈ own, n.shape.isProhibited = false

/-- A base on whose chain every restriction leaves the attributes that it inherits as they are. -/
def KeepsInherited (s : Schema) (base : Option QName) : Prop :=
  ∀ d, Through s base d → d.how = .restriction → d.Keeps s

/-- Where nothing is redeclared and nothing prohibited, a restriction has all attributes, as an extension has. -/
theorem combine_of_keeps {s : Schema} {d : SimpleDerivation} {own rest : List Node} (hown : Flattens s d.declared own)
    (hrest : Inherits s d.base rest) (hkeeps : d.how = .restriction → d.Keeps s) :
    d.how.combine s own rest = own ++ rest := by
  cases hhow : d.how with
  | extension => rfl
  | restriction =>
    obtain ⟨hadds, hallows⟩ := hkeeps hhow
    have hkept : own.filter (fun n => !n.shape.isProhibited) = own := by
      refine List.filter_eq_self.2 fun n hn => ?_
      rw [hallows own hown n hn]
      rfl
    have hapart : rest.filter (fun n => n.shape.declaredName? s ∉ declaredNames s own) = rest := by
      refine List.filter_eq_self.2 fun n hn => decide_eq_true ?_
      exact fun hdeclared => hadds own rest hown hrest hdeclared (List.mem_map_of_mem hn)
    rw [Derivation.combine, hkept, hapart]

/-! ## What attributes are -/

/-- A construct that stands for one attribute: its declaration, or a reference to one. -/
structure Node.IsAttribute (n : Node) : Prop extends n.Plays .attribute where
  single : n.shape.kind ≠ .attributeGroupRef

section Attributes

variable {s : Schema} {xs flat rest : List Node} {t n : Node} {d : SimpleDerivation} {base : Option QName}

theorem Flattens.attributes (hs : s.Proper) (h : Flattens s xs flat) (hxs : ∀ x ∈ xs, x.Plays .attribute) :
    ∀ n ∈ flat, n.IsAttribute := by
  induction h with
  | nil => simp
  | own hown _ ih =>
    rw [List.forall_mem_cons] at hxs ⊢
    exact ⟨⟨hxs.1, hown⟩, ih hxs.2⟩
  | @group q g inner _ _ _ hfind hinner _ _ ihfirst ih =>
    have hentry := (hs.find hfind).2
    obtain ⟨c, members, any, rfl⟩ := hentry.attributeGroup
    cases hinner
    refine List.forall_mem_append.2 ⟨ihfirst fun x hx => ?_, ih fun x hx => hxs x (List.mem_cons_of_mem _ hx)⟩
    have hpart : (Role.attribute, x) ∈ (Shape.attributeGroup c inner any).parts := by simp [Shape.parts, hx]
    exact hentry.proper.part hpart

theorem plays_simpleDerivation {c : Component} {decl : ComplexDecl} {outer : List Node} {any particle : Option Node}
    {content : Node}
    (ht : Node.Proper ⟨.complexType c decl outer any (some ⟨.simpleContent (some content)⟩) particle⟩) :
    content.Plays .simpleDerivation := by
  have hpart : (Role.model, (⟨.simpleContent (some content)⟩ : Node)) ∈
      (Shape.complexType c decl outer any (some ⟨.simpleContent (some content)⟩) particle).parts := by
    simp [Shape.parts]
  have hinner : (Role.simpleDerivation, content) ∈ (Shape.simpleContent (some content)).parts := by
    simp [Shape.parts]
  exact (ht.part hpart).built.part hinner

theorem Node.Proper.declared (ht : t.Proper) (hd : t.simpleDerivation? = some d) :
    ∀ x ∈ d.declared, x.Plays .attribute := by
  obtain ⟨c, decl, any, content, particle, rfl, hcontent⟩ := Node.exists_of_simpleDerivation? hd
  have hplays := (plays_simpleDerivation ht).built
  refine List.forall_mem_append.2 ⟨fun x hx => ?_, fun x hx => ?_⟩
  · have hpart : (Role.attribute, x) ∈ content.shape.parts := by
      rcases hcontent with ⟨-, _, rfl⟩ | ⟨-, _, _, _, rfl⟩ <;> simp [Node.shape, Shape.parts, hx]
    exact hplays.part hpart
  · have hpart : (Role.attribute, x) ∈ (Shape.complexType c decl d.beside any
        (some ⟨.simpleContent (some content)⟩) particle).parts := by
      simp [Shape.parts, hx]
    exact ht.part hpart

theorem mem_combine {own rest : List Node} {how : Derivation} (h : n ∈ how.combine s own rest) :
    n ∈ own ∨ n ∈ rest := by
  cases how with
  | extension => exact List.mem_append.1 h
  | restriction =>
    rcases List.mem_append.1 h with h | h
    · exact .inl (List.mem_of_mem_filter h)
    · exact .inr (List.mem_of_mem_filter h)

theorem Inherits.attributes (hs : s.Proper) (h : Inherits s base rest) : ∀ n ∈ rest, n.IsAttribute := by
  induction h with
  | absent | builtin => simp
  | simple _ _ _ _ ih => exact ih
  | derived _ hfind hd hown _ ih =>
    intro n hn
    have hdeclared := (hs.find hfind).2.proper.declared hd
    exact (mem_combine hn).elim (hown.attributes hs hdeclared n) (ih n)

theorem SimpleDerivation.Taken.attributes (hs : s.Proper) (ht : t.Proper) (hd : t.simpleDerivation? = some d)
    (h : d.Taken s flat) : ∀ n ∈ flat, n.IsAttribute := by
  unfold SimpleDerivation.Taken at h
  split at h
  · obtain ⟨own, rest, hown, hrest, rfl⟩ := h
    intro n hn
    exact (mem_combine hn).elim (hown.attributes hs (ht.declared hd) n) (hrest.attributes hs n)
  · exact h.attributes hs (ht.declared hd)

theorem SimpleDerivation.Taken.nodup (hs : DistinctAttributes s) (ht : t ∈ s.types.values)
    (hd : t.simpleDerivation? = some d) (h : d.Taken s flat) : (declaredNames s flat).Nodup := by
  unfold SimpleDerivation.Taken at h
  split at h
  · exact h.nodup hs ht hd
  · exact hs.once t ht d hd flat h

end Attributes

end PayloadSchema.Schema
