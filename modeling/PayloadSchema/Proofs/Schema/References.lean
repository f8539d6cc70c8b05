import Mathlib.Logic.Relation
import PayloadSchema.Extraction.Rule
import PayloadSchema.Proofs.Schema.Roles

/-!
# References between components

A component of a schema refers to others by name: elements and attributes to their types and to what they
stand for, members of substitution groups to their heads, types to their bases, items and members.

What a schema contains, its components and what is inside of them, is what the walk through it meets.
-/

namespace PayloadSchema.Schema

structure ComponentName where
  table : TableName
  name : QName
deriving DecidableEq, Repr

/-- The table in which the components with a kind of key stand. -/
def ComponentKind.table : ComponentKind → TableName
  | .element => .elements
  | .attribute => .attributes
  | .type => .types
  | .group => .groups

def ComponentKey.component (k : ComponentKey) : ComponentName :=
  ⟨k.kind.table, k.name⟩

/-- The types that a construct names: its own type, its base, its items or its members. -/
def Shape.typeNames {α : Type} : Shape α → List QName
  | element _ d _ => d.typeName.toList
  | .attribute _ d _ => d.typeName.toList
  | simpleRestriction base _ _ | simpleContentExtension base _ _
  | simpleContentRestriction base _ _ _ _ | complexDerivation _ base _ _ _ => base.toList
  | simpleList item _ => item.toList
  | simpleUnion members _ => members
  | _ => []

def Shape.references {α : Type} (s : Shape α) : List ComponentName :=
  s.typeNames.map (⟨.types, ·⟩) ++
    match s with
    | elementRef ref _ => ref.toList.map (⟨.elements, ·⟩)
    | attributeRef ref _ => ref.toList.map (⟨.attributes, ·⟩)
    | groupRef ref _ => ref.toList.map (⟨.groups, ·⟩)
    | attributeGroupRef ref => ref.toList.map (⟨.attributeGroups, ·⟩)
    | element _ d _ => d.substitutionGroup.toList.map (⟨.elements, ·⟩)
    | _ => []

inductive Node.Mentions : Node → ComponentName → Prop where
  | here {n : Node} {b : ComponentName} (h : b ∈ n.shape.references) : Mentions n b
  | inside {n m : Node} {b : ComponentName} (h : m ∈ n.children) (hm : Mentions m b) : Mentions n b

/-- Whether one component of a schema refers to another one. -/
def Refers (s : Schema) (a b : ComponentName) : Prop :=
  ∃ n, s.find? a.table (some a.name) = some n ∧ n.Mentions b

/-- Whether a component can be reached from another one by one reference or more. -/
def Reaches (s : Schema) : ComponentName → ComponentName → Prop :=
  Relation.TransGen (Refers s)

/-- The nodes of a schema: its components and what is inside of them. -/
inductive Contains (s : Schema) : Node → Prop where
  | entry (table : TableName) {e : Option String × Node} (h : e ∈ s.table table) : Contains s e.2
  | child {n m : Node} (h : Contains s n) (hm : m ∈ n.children) : Contains s m

section Contains

variable {s : Schema} {n : Node} {stack : List Node}

theorem mem_walk_of_mem (h : n ∈ stack) : n ∈ walk stack := by
  induction stack using walk.induct with
  | case1 => cases h
  | case2 m rest ih =>
    rw [walk]
    rcases List.mem_cons.1 h with rfl | h
    · exact List.mem_cons_self
    · exact List.mem_cons_of_mem m (ih (List.mem_append_right _ h))

theorem mem_walk_child (h : n ∈ walk stack) {m : Node} (hm : m ∈ n.children) : m ∈ walk stack := by
  induction stack using walk.induct with
  | case1 => simp [walk] at h
  | case2 first rest ih =>
    rw [walk] at h ⊢
    refine List.mem_cons_of_mem first ?_
    rcases List.mem_cons.1 h with rfl | h
    · exact mem_walk_of_mem (List.mem_append_left _ hm)
    · exact ih h

/-- What holds of the nodes that a walk starts with, and of what is inside of a node with the node, holds of all nodes
that the walk meets. -/
theorem forall_mem_walk {motive : Node → Prop} (h : ∀ n ∈ stack, motive n)
    (hchild : ∀ n, motive n → ∀ m ∈ n.children, motive m) : ∀ n ∈ walk stack, motive n := by
  induction stack using walk.induct with
  | case1 =>
    rw [walk]
    exact List.forall_mem_nil _
  | case2 n rest ih =>
    obtain ⟨hn, hrest⟩ := List.forall_mem_cons.1 h
    rw [walk]
    exact List.forall_mem_cons.2 ⟨hn, ih (List.forall_mem_append.2 ⟨hchild n hn, hrest⟩)⟩

theorem built_walk {good : Shape Node → Prop} (h : ∀ n ∈ stack, n.Built good) : ∀ n ∈ walk stack, n.Built good :=
  forall_mem_walk h fun _ hn _ hm => hn.child hm

theorem mem_roots : n ∈ s.roots ↔ ∃ table, ∃ e ∈ s.table table, e.2 = n := by
  have hvalues (t : Components Node) : n ∈ t.values ↔ ∃ e ∈ t, e.2 = n := List.mem_map
  simp only [SchemaOf.roots, List.mem_append, hvalues]
  constructor
  · rintro ((((h | h) | h) | h) | h)
    · exact ⟨.elements, h⟩
    · exact ⟨.attributes, h⟩
    · exact ⟨.types, h⟩
    · exact ⟨.groups, h⟩
    · exact ⟨.attributeGroups, h⟩
  · rintro ⟨table, h⟩
    cases table with
    | elements => exact .inl (.inl (.inl (.inl h)))
    | attributes => exact .inl (.inl (.inl (.inr h)))
    | types => exact .inl (.inl (.inr h))
    | groups => exact .inl (.inr h)
    | attributeGroups => exact .inr h

theorem mem_nodes : n ∈ s.nodes ↔ Contains s n := by
  constructor
  · refine forall_mem_walk (fun n hn => ?_) (fun _ hn _ hm => hn.child hm) n
    obtain ⟨table, e, he, rfl⟩ := mem_roots.1 hn
    exact .entry table he
  · intro h
    induction h with
    | entry table he => exact mem_walk_of_mem (mem_roots.2 ⟨table, _, he, rfl⟩)
    | child _ hm ih => exact mem_walk_child ih hm

/-- What the components of a schema are built of is what everything in it is built of. -/
theorem Contains.built {good : Shape Node → Prop} (h : ∀ table, ∀ e ∈ s.table table, e.2.Built good)
    (hn : Contains s n) : n.Built good := by
  induction hn with
  | entry table he => exact h table _ he
  | child _ hm ih => exact ih.child hm

end Contains

/-- Whether a node is one of a schema, and all that is mentioned in it can be reached from a component. -/
structure Covers (s : Schema) (a : ComponentName) (n : Node) : Prop where
  contained : Contains s n
  mentions : ∀ b, n.Mentions b → Reaches s a b

section Covers

variable {s : Schema} {a b : ComponentName} {n m : Node}

theorem Contains.part (h : Contains s n) {part : Role × Node} (hpart : part ∈ n.shape.parts) :
    Contains s part.2 :=
  h.child (Shape.mem_children_of_mem_parts hpart)

theorem contains_of_find? {table : TableName} {q : QName} (h : s.find? table (some q) = some n) :
    Contains s n :=
  .entry table (SchemaOf.mem_of_find? h).2

theorem Covers.child (h : Covers s a n) (hm : m ∈ n.children) : Covers s a m :=
  ⟨h.contained.child hm, fun b hb => h.mentions b (.inside hm hb)⟩

theorem Covers.part (h : Covers s a n) {part : Role × Node} (hpart : part ∈ n.shape.parts) :
    Covers s a part.2 :=
  h.child (Shape.mem_children_of_mem_parts hpart)

theorem Covers.reaches (h : Covers s a n) (hb : b ∈ n.shape.references) : Reaches s a b :=
  h.mentions b (.here hb)

theorem Covers.typeName (h : Covers s a n) {q : QName} (hq : q ∈ n.shape.typeNames) :
    Reaches s a ⟨.types, q⟩ :=
  h.reaches (List.mem_append_left _ (List.mem_map_of_mem hq))

theorem covers_self (h : s.find? b.table (some b.name) = some n) : Covers s b n :=
  ⟨contains_of_find? h, fun _ hc => .single ⟨n, h, hc⟩⟩

theorem Covers.found (hab : Reaches s a b) (h : s.find? b.table (some b.name) = some n) :
    Covers s a n :=
  ⟨contains_of_find? h, fun _ hc => hab.tail ⟨n, h, hc⟩⟩

end Covers

end PayloadSchema.Schema
