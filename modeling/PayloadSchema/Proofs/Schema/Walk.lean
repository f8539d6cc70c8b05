import Mathlib.Data.List.FinRange
import Mathlib.Data.List.Nodup
import PayloadSchema.Proofs.Schema.InnerConstructs

/-!
# The walk through a schema

Nodes that say the same are equal, so what tells the nodes of a schema apart is where they stand: in which table and
entry of it, and along which fields from there.  The walk with a stack meets the node at each such address once, each
before what it contains, and in the order of the recursion over inner constructs.
-/

namespace PayloadSchema.Schema

/-! ## Fields -/

inductive Field where
  | ownType
  | content
  | contentModel
  | baseType
  | itemType
  | memberTypes
  | particle
  | items
  | facets
  | attributes
  | anyAttribute
deriving DecidableEq, Repr

def Field.all : List Field :=
  [.ownType, .content, .contentModel, .baseType, .itemType, .memberTypes, .particle, .items, .facets, .attributes,
    .anyAttribute]

theorem Field.mem_all (field : Field) : field ∈ Field.all := by
  cases field <;> decide

theorem Field.nodup_all : Field.all.Nodup := by
  decide

namespace Shape

variable {α β : Type}

/-- What a construct holds in a field, which is nothing where it has no such field. -/
def held (s : Shape α) : Field → List α
  | .ownType => s.ownType?.join.toList
  | .content => s.content?.join.toList
  | .contentModel =>
    match s with
    | complexType _ _ _ _ model _ => model.toList
    | _ => []
  | .baseType =>
    match s with
    | simpleRestriction _ baseType _ | simpleContentRestriction _ baseType _ _ _ => baseType.toList
    | _ => []
  | .itemType =>
    match s with
    | simpleList _ itemType => itemType.toList
    | _ => []
  | .memberTypes =>
    match s with
    | simpleUnion _ memberTypes => memberTypes
    | _ => []
  | .particle => s.particle?.join.toList
  | .items =>
    match s with
    | modelGroup _ _ items => items
    | _ => []
  | .facets =>
    match s with
    | simpleRestriction _ _ facets | simpleContentRestriction _ _ facets _ _ => facets
    | _ => []
  | .attributes => s.attributes?.getD []
  | .anyAttribute => s.any?.join.toList

theorem children_eq_held (s : Shape α) : s.children = Field.all.flatMap s.held := by
  cases s <;> simp [children, Field.all, held, ownType?, content?, particle?, attributes?, any?]

theorem mem_children_of_mem_held {s : Shape α} {field : Field} {a : α} (h : a ∈ s.held field) : a ∈ s.children := by
  rw [children_eq_held]
  exact List.mem_flatMap.2 ⟨field, field.mem_all, h⟩

end Shape

/-! ## Ways that branch -/

section Branches

variable {κ α γ δ : Type} {keys : List κ} {held : κ → List α} {ways : (k : κ) → Fin (held k).length → List γ}

/-- The ways from what is held under some keys, each with its key and the position under it. -/
def branches (keys : List κ) (held : κ → List α) (ways : (k : κ) → Fin (held k).length → List γ) :
    List ((κ × Nat) × γ) :=
  keys.flatMap fun k => (List.finRange (held k).length).flatMap fun i => (ways k i).map fun p => ((k, i.1), p)

theorem mem_branches {k : κ} {i : Nat} {p : γ} :
    ((k, i), p) ∈ branches keys held ways ↔ k ∈ keys ∧ ∃ h : i < (held k).length, p ∈ ways k ⟨i, h⟩ := by
  simp only [branches, List.mem_flatMap, List.mem_map, List.mem_finRange, true_and, Prod.mk.injEq]
  constructor
  · rintro ⟨k, hk, i, p, hp, ⟨rfl, rfl⟩, rfl⟩
    exact ⟨hk, i.2, hp⟩
  · rintro ⟨hk, hi, hp⟩
    exact ⟨k, hk, ⟨i, hi⟩, p, hp, ⟨rfl, rfl⟩, rfl⟩

/-- What is at the ends of the ways, if what is held is known to give it. -/
theorem map_branches {f : (κ × Nat) × γ → δ} {ends : α → List δ}
    (h : ∀ k i, ((ways k i).map fun p => f ((k, i.1), p)) = ends ((held k).get i)) :
    (branches keys held ways).map f = keys.flatMap fun k => (held k).flatMap ends := by
  have hkey (k : κ) : ((List.finRange (held k).length).flatMap fun i => ends ((held k).get i)) =
      (held k).flatMap ends := by
    rw [← List.flatMap_map, List.map_get_finRange]
  calc (branches keys held ways).map f
      = keys.flatMap fun k => (List.finRange (held k).length).flatMap fun i => ends ((held k).get i) := by
        simp only [branches, List.map_flatMap, List.map_map, Function.comp_def, h]
    _ = keys.flatMap fun k => (held k).flatMap ends := by
        simp only [hkey]

theorem pairwise_branches (hkeys : keys.Nodup) {apart : γ → γ → Prop} (h : ∀ k i, (ways k i).Pairwise apart) :
    (branches keys held ways).Pairwise fun a b => a.1 = b.1 → apart a.2 b.2 := by
  rw [branches, List.pairwise_flatMap]
  refine ⟨fun k _ => List.pairwise_flatMap.2 ⟨fun i _ => ?_, ?_⟩, ?_⟩
  · refine List.pairwise_map.2 ((h k i).imp ?_)
    exact fun hp _ => hp
  · refine (List.nodup_finRange (held k).length).imp fun {i j} hij a ha b hb hsame => ?_
    obtain ⟨p, -, rfl⟩ := List.mem_map.1 ha
    obtain ⟨q, -, rfl⟩ := List.mem_map.1 hb
    exact absurd (Fin.ext (Prod.mk.inj hsame).2) hij
  · refine hkeys.imp fun {k l} hkl a ha b hb hsame => ?_
    obtain ⟨i, -, ha⟩ := List.mem_flatMap.1 ha
    obtain ⟨j, -, hb⟩ := List.mem_flatMap.1 hb
    obtain ⟨p, -, rfl⟩ := List.mem_map.1 ha
    obtain ⟨q, -, rfl⟩ := List.mem_map.1 hb
    exact absurd (Prod.mk.inj hsame).1 hkl

end Branches

/-! ## Below a node -/

/-- The way down from a node: at each step a field, and the position in it. -/
abbrev Path := List (Field × Nat)

namespace Node

variable {n : Node}

/-- The node at the end of a path. -/
def at? : Node → Path → Option Node
  | n, [] => some n
  | n, (field, i) :: path => (n.shape.held field)[i]?.bind fun m => m.at? path

/-- A node with all nodes inside of it, each before what it contains. -/
def preorder (n : Node) : List Node :=
  n :: n.children.attach.flatMap fun m => m.1.preorder
termination_by sizeOf n
decreasing_by exact sizeOf_lt_of_mem_children m.2

theorem preorder_eq (n : Node) : n.preorder = n :: n.children.flatMap preorder := by
  rw [preorder]
  simp

def paths (n : Node) : List Path :=
  [] :: (branches Field.all n.shape.held fun field i => ((n.shape.held field).get i).paths).map fun b => b.1 :: b.2
termination_by sizeOf n
decreasing_by exact sizeOf_lt_of_mem_children (Shape.mem_children_of_mem_held (List.get_mem _ _))

/-- The paths of a node lead to the nodes inside of it, and there is no other way down. -/
theorem mem_paths {p : Path} : p ∈ n.paths ↔ (n.at? p).isSome := by
  induction p generalizing n with
  | nil =>
    rw [paths]
    simp [at?]
  | cons step p ih =>
    obtain ⟨field, i⟩ := step
    have hbranch : (field, i) :: p ∈ n.paths ↔
        ∃ h : i < (n.shape.held field).length, p ∈ (n.shape.held field)[i].paths := by
      rw [paths, List.mem_cons]
      simp only [List.mem_map, reduceCtorEq, false_or, List.cons.injEq]
      constructor
      · rintro ⟨⟨_, _⟩, hb, rfl, rfl⟩
        exact (mem_branches.1 hb).2
      · exact fun h => ⟨((field, i), p), mem_branches.2 ⟨field.mem_all, h⟩, rfl, rfl⟩
    rw [hbranch, at?]
    by_cases hi : i < (n.shape.held field).length
    · simp [hi, ih]
    · simp [hi]

theorem pairwise_paths (n : Node) : n.paths.Pairwise fun p q => ¬ q <+: p := by
  induction n using Node.induction with
  | step n ih =>
    rw [paths, List.pairwise_cons]
    constructor
    · intro q hq hprefix
      obtain ⟨b, -, rfl⟩ := List.mem_map.1 hq
      simp at hprefix
    · have hinner (field : Field) (i : Fin (n.shape.held field).length) :
          ((n.shape.held field).get i).paths.Pairwise fun p q => ¬ q <+: p :=
        ih _ (Shape.mem_children_of_mem_held (List.get_mem _ _))
      refine List.pairwise_map.2 ((pairwise_branches Field.nodup_all hinner).imp fun h hprefix => ?_)
      obtain ⟨hstep, hrest⟩ := List.cons_prefix_cons.1 hprefix
      exact h hstep.symm hrest

theorem map_at?_paths (n : Node) : n.paths.map n.at? = n.preorder.map some := by
  induction n using Node.induction with
  | step n ih =>
    have hinner (field : Field) (i : Fin (n.shape.held field).length) :
        (((n.shape.held field).get i).paths.map fun p => n.at? ((field, i.1) :: p)) =
          ((n.shape.held field).get i).preorder.map some := by
      rw [← ih _ (Shape.mem_children_of_mem_held (List.get_mem _ _))]
      refine List.map_congr_left fun p _ => ?_
      simp [at?]
    calc n.paths.map n.at?
        = some n :: Field.all.flatMap fun field => (n.shape.held field).flatMap fun m => m.preorder.map some := by
          rw [paths, List.map_cons, List.map_map]
          exact congrArg (some n :: ·) (map_branches hinner)
      _ = some n :: n.children.flatMap fun m => m.preorder.map some := by
          rw [children, Shape.children_eq_held, List.flatMap_assoc]
      _ = n.preorder.map some := by
          rw [preorder_eq, List.map_cons, List.map_flatMap]

end Node

/-! ## The nodes of a schema -/

/-- Where a node stands in a schema: the component that it belongs to, by its table and the entry in it, and the path
that leads to the node from there. -/
structure Address where
  table : TableName
  entry : Nat
  path : Path
deriving DecidableEq, Repr

/-- Whether the node at an address is the one at another address or contains it. -/
def Address.Encloses (a b : Address) : Prop :=
  a.table = b.table ∧ a.entry = b.entry ∧ a.path <+: b.path

def TableName.all : List TableName :=
  [.elements, .attributes, .types, .groups, .attributeGroups]

theorem TableName.mem_all (table : TableName) : table ∈ TableName.all := by
  cases table <;> decide

theorem TableName.nodup_all : TableName.all.Nodup := by
  decide

theorem walk_eq (stack : List Node) : walk stack = stack.flatMap Node.preorder := by
  induction stack using walk.induct with
  | case1 => rw [walk, List.flatMap_nil]
  | case2 n rest ih => rw [walk, ih, List.flatMap_append, List.flatMap_cons, Node.preorder_eq, List.cons_append]

end PayloadSchema.Schema

namespace PayloadSchema

open Schema

def Schema.at? (s : Schema) (a : Address) : Option Node :=
  (Table.values (s.table a.table))[a.entry]?.bind fun n => n.at? a.path

/-- The addresses of a schema at which nodes stand, in the order of the nodes. -/
def Schema.addresses (s : Schema) : List Address :=
  (branches TableName.all (fun table => Table.values (s.table table)) fun table i =>
    ((Table.values (s.table table)).get i).paths).map fun b => ⟨b.1.1, b.1.2, b.2⟩

theorem Schema.roots_eq (s : Schema) : s.roots = TableName.all.flatMap fun table => Table.values (s.table table) := by
  simp [SchemaOf.roots, TableName.all, SchemaOf.table]

theorem Schema.mem_addresses {s : Schema} {a : Address} : a ∈ s.addresses ↔ (s.at? a).isSome := by
  obtain ⟨table, i, path⟩ := a
  have hbranch : (⟨table, i, path⟩ : Address) ∈ s.addresses ↔
      ∃ h : i < (Table.values (s.table table)).length, path ∈ (Table.values (s.table table))[i].paths := by
    rw [addresses, List.mem_map]
    simp only [Address.mk.injEq]
    constructor
    · rintro ⟨⟨⟨_, _⟩, _⟩, hb, rfl, rfl, rfl⟩
      exact (mem_branches.1 hb).2
    · exact fun h => ⟨((table, i), path), mem_branches.2 ⟨table.mem_all, h⟩, rfl, rfl, rfl⟩
  rw [hbranch, at?]
  by_cases hi : i < (Table.values (s.table table)).length
  · simp [hi, Node.mem_paths]
  · simp [hi]

theorem Schema.pairwise_addresses (s : Schema) : s.addresses.Pairwise fun a b => ¬ b.Encloses a := by
  refine List.pairwise_map.2 ((pairwise_branches TableName.nodup_all fun _ _ => Node.pairwise_paths _).imp ?_)
  rintro ⟨⟨_, _⟩, p⟩ ⟨⟨_, _⟩, q⟩ h ⟨rfl, rfl, hprefix⟩
  exact h rfl hprefix

theorem Schema.map_at?_addresses (s : Schema) :
    s.addresses.map s.at? = (s.roots.flatMap Node.preorder).map some := by
  have hentry (table : TableName) (i : Fin (Table.values (s.table table)).length) :
      (((Table.values (s.table table)).get i).paths.map fun p => s.at? ⟨table, i.1, p⟩) =
        ((Table.values (s.table table)).get i).preorder.map some := by
    rw [← Node.map_at?_paths]
    refine List.map_congr_left fun p _ => ?_
    simp [at?]
  rw [addresses, List.map_map, roots_eq, List.flatMap_assoc, List.map_flatMap]
  simp only [List.map_flatMap]
  exact map_branches hentry

/-- The walk gives the nodes of a schema in the order of the recursion over inner constructs, table by table.  It meets
the node at every address, and each once: the addresses of the nodes that it gives, one after the other, are distinct,
are all that lead to a node, and none of them encloses an earlier one. -/
theorem Schema.nodes_once_in_order (s : Schema) :
    s.nodes = s.roots.flatMap Node.preorder ∧
    ∃ addresses : List Address, addresses.map s.at? = s.nodes.map some ∧ addresses.Nodup ∧
      (∀ a, a ∈ addresses ↔ (s.at? a).isSome) ∧ addresses.Pairwise fun a b => ¬ b.Encloses a := by
  have hnodes : s.nodes = s.roots.flatMap Node.preorder := walk_eq s.roots
  refine ⟨hnodes, s.addresses, ?_, ?_, fun a => mem_addresses, s.pairwise_addresses⟩
  · rw [hnodes, map_at?_addresses]
  · refine s.pairwise_addresses.imp ?_
    rintro a b h rfl
    exact h ⟨rfl, rfl, List.prefix_rfl⟩

end PayloadSchema
