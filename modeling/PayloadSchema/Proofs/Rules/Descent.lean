import Mathlib.Data.Prod.Lex
import PayloadSchema.Proofs.Schema.References

/-!
# Going down

A copy of a well-formed source only ever goes down: to a node inside of the one that is copied, to an
attribute of a type, or into a component that is mentioned there.  Only the last of these can come back to
where it was, and only there is a key that keeps it from coming back twice.
-/

namespace PayloadSchema.Schema

/-! ## Kinds of copies -/

/-- The kind of the copy of a construct, if it can be copied. -/
def Kind.copy? : Kind → Option Kind
  | .elementRef => some .element
  | .attributeRef => some .attribute
  | .schemaNode | .facet | .anyAttribute | .attributeGroupRef | .attributeGroup | .groupParticle
  | .groupRef | .group => none
  | kind => some kind

/-- Simple types and attributes are below all other constructs, which they never lead to. -/
def Kind.stratum : Kind → Nat
  | .facet | .anyAttribute | .attribute | .attributeRef | .attributeGroupRef | .simpleType
  | .simpleTypeRestriction | .simpleTypeList | .simpleTypeUnion => 0
  | _ => 1

noncomputable def Node.rank (n : Node) : Nat ×ₗ Nat :=
  toLex (n.shape.kind.stratum, sizeOf n)

section Rank

variable {n m : Node} {role : Role}

theorem rank_lt_of_stratum_lt (h : m.shape.kind.stratum < n.shape.kind.stratum) :
    m.rank < n.rank := by
  rw [Node.rank, Node.rank, Prod.Lex.toLex_lt_toLex]
  exact .inl h

theorem stratum_le_one (k : Kind) : k.stratum ≤ 1 := by
  cases k <;> decide

/-- Simple types and attributes have nothing but simple types and facets inside of them. -/
private theorem stratum_part_le (hn : n.Proper) {part : Role × Node} (h : part ∈ n.shape.parts) :
    part.2.shape.kind.stratum ≤ n.shape.kind.stratum := by
  by_cases hone : n.shape.kind.stratum = 1
  · rw [hone]
    exact stratum_le_one _
  have hplays := (hn.part h).admits
  have hlow : part.1 = .simpleType ∨ part.1 = .facet ∨ part.1 = .simpleVariety := by
    obtain ⟨s⟩ := n
    cases s with
    | modelGroup order _ _ => cases order <;> exact absurd rfl hone
    | complexDerivation how _ _ _ _ => cases how <;> exact absurd rfl hone
    | _ => grind [Node.shape, Shape.parts, Shape.kind, Kind.stratum]
  have hzero : part.2.shape.kind.stratum = 0 := by
    revert hplays
    rcases hlow with hrole | hrole | hrole <;> rw [hrole] <;>
      cases part.2.shape.kind <;> decide
  omega

theorem rank_part_lt (hn : n.Proper) {part : Role × Node} (h : part ∈ n.shape.parts) :
    part.2.rank < n.rank := by
  have hsize : sizeOf part.2 < sizeOf n :=
    Node.sizeOf_lt_of_mem_children (Shape.mem_children_of_mem_parts h)
  rw [Node.rank, Node.rank, Prod.Lex.toLex_lt_toLex]
  rcases Nat.lt_or_eq_of_le (stratum_part_le hn h) with hlt | heq
  · exact .inl hlt
  · exact .inr ⟨heq, hsize⟩

end Rank

/-! ## Steps down -/

/-- What is known of a node that is copied because of another one, and of the key under which that is
checked for circles. -/
structure Descends (s : Schema) (n : Node) (key : Option ComponentKey) (m : Node) : Prop where
  proper : m.Proper
  contained : Contains s n → Contains s m
  covers : ∀ a, Covers s a n → Covers s a m
  keyed : ∀ k, key = some k →
    (∃ t, s.find? k.component.table (some k.component.name) = some t) ∧
      Covers s k.component m ∧ ∀ a, Covers s a n → Reaches s a k.component
  lower : key = none → m.rank < n.rank

section Descends

variable {s : Schema} {n m t : Node} {table : TableName} {q : QName} {k : ComponentKey}

theorem key?_of_inner {α : Type} {shape : Shape α} {space : String} (h : shape.isTopLevel = false) :
    shape.key? space = none := by
  unfold Shape.isTopLevel at h
  unfold Shape.key?
  cases shape.componentKind? with
  | none => rfl
  | some kind =>
    cases hc : shape.component? with
    | none => rfl
    | some c =>
      rw [hc] at h
      simp [h]

theorem ProperEntry.key? (h : ProperEntry table (some q.name) t) (hq : q.space = s.space)
    (htable : table ≠ .attributeGroups) :
    ∃ k, t.shape.key? s.space = some k ∧ k.component = ⟨table, q⟩ := by
  have hkind : ∃ kind, t.shape.componentKind? = some kind ∧ kind.table = table := by
    have hadmits := h.admits
    obtain ⟨shape⟩ := t
    cases table <;> cases shape with
      | modelGroup order _ _ => cases order <;> simp [TableName.admits, Node.shape, Shape.kind] at hadmits
      | complexDerivation how _ _ _ _ =>
        cases how <;> simp [TableName.admits, Node.shape, Shape.kind] at hadmits
      | _ =>
        first
        | exact ⟨_, rfl, rfl⟩
        | exact absurd rfl htable
        | simp [TableName.admits, Node.shape, Shape.kind] at hadmits
  obtain ⟨kind, hkind, rfl⟩ := hkind
  refine ⟨⟨kind, q⟩, ?_, rfl⟩
  simp [Shape.key?, hkind, h.component, ← hq]

theorem descends_part (hn : n.Proper) {part : Role × Node} (h : part ∈ n.shape.parts) :
    Descends s n (part.2.shape.key? s.space) part.2 := by
  have hplays := hn.part h
  have hkey : part.2.shape.key? s.space = none := key?_of_inner hplays.inner
  refine ⟨hplays.built, fun hcontains => hcontains.part h, fun a ha => ha.part h, ?_,
    fun _ => rank_part_lt hn h⟩
  rw [hkey]
  rintro k ⟨⟩

theorem descends_found (hs : s.Proper) (hfind : s.find? table (some q) = some t)
    (htable : table ≠ .attributeGroups) (hreaches : ∀ a, Covers s a n → Reaches s a ⟨table, q⟩) :
    Descends s n (t.shape.key? s.space) t := by
  obtain ⟨hspace, hentry⟩ := hs.find hfind
  obtain ⟨k, hkey, hk⟩ := hentry.key? hspace htable
  rw [hkey]
  refine ⟨hentry.proper, fun _ => contains_of_find? hfind, fun a ha => Covers.found (hreaches a ha) hfind,
    ?_, by rintro ⟨⟩⟩
  rintro k' ⟨⟩
  rw [hk]
  exact ⟨⟨t, hfind⟩, covers_self hfind, hreaches⟩

theorem descends_keyed (hm : m.Proper)
    (hfind : s.find? k.component.table (some k.component.name) = some t)
    (hcovers : Covers s k.component m)
    (hreaches : ∀ a, Covers s a n → Reaches s a k.component) : Descends s n (some k) m := by
  refine ⟨hm, fun _ => hcovers.contained, fun a ha => ⟨hcovers.contained, fun b hb => ?_⟩, ?_,
    by rintro ⟨⟩⟩
  · exact (hreaches a ha).trans (hcovers.mentions b hb)
  rintro k' ⟨⟩
  exact ⟨⟨t, hfind⟩, hcovers, hreaches⟩

end Descends

end PayloadSchema.Schema
