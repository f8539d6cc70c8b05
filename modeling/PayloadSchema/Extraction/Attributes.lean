import PayloadSchema.Extraction.Edit

/-!
# Inherited attributes

Attributes come from attribute groups, which are replaced by their members, and from the bases of simple
content, which are followed to a built-in type. Both chases follow names through a table of the schema and
stop when a name comes back, so that the names not met yet bound them.
-/

namespace PayloadSchema.Extraction

open Schema

/-! ## Names not met yet -/

def unmet {α : Type} (space : String) (met : List QName) (t : Components α) : Components α :=
  t.filter fun e =>
    match e.1 with
    | some name => ⟨space, name⟩ ∉ met
    | none => true

def weight {α : Type} (f : α → Nat) : Components α → Nat
  | [] => 0
  | e :: t => f e.2 + weight f t

theorem weight_filter_le {α : Type} (f : α → Nat) (keep : Option String × α → Bool) (t : Components α) :
    weight f (t.filter keep) ≤ weight f t := by
  induction t with
  | nil => simp
  | cons e t ih =>
    rw [weight, List.filter_cons]
    split
    · rw [weight]
      omega
    · omega

/-- What is left of a table without one of its entries weighs less by that entry. -/
theorem weight_filter_add_le {α : Type} (f : α → Nat) {keep : Option String × α → Bool}
    {e : Option String × α} (hnot : keep e = false) {t : Components α} (hmem : e ∈ t) :
    weight f (t.filter keep) + f e.2 ≤ weight f t := by
  induction t with
  | nil => simp at hmem
  | cons e' t ih =>
    have hrest := weight_filter_le f keep t
    rw [List.mem_cons] at hmem
    rw [weight, List.filter_cons]
    rcases hmem with rfl | hmem
    · rw [hnot, if_neg Bool.false_ne_true]
      omega
    · have hless := ih hmem
      split
      · rw [weight]
        omega
      · omega

/-- A name that is found in a table leaves the rest lighter once it is met. -/
theorem weight_unmet_add_le {α : Type} (f : α → Nat) {s : SchemaOf α} {q : QName} {a : α} {met : List QName}
    (table : TableName) (found : s.find? table (some q) = some a) (new : q ∉ met) :
    weight f (unmet s.space (met ++ [q]) (s.table table)) + f a ≤
      weight f (unmet s.space met (s.table table)) := by
  have hq : q.space = s.space := by
    simp only [SchemaOf.find?] at found
    split at found <;> simp_all
  have hmem : (some q.name, a) ∈ s.table table := by
    simp only [SchemaOf.find?, hq, if_true] at found
    exact Table.mem_of_get? found
  obtain ⟨space, local'⟩ := q
  subst hq
  have hcut : unmet s.space (met ++ [⟨s.space, local'⟩]) (s.table table) =
      (unmet s.space met (s.table table)).filter fun e => e.1 ≠ some local' := by
    simp only [unmet, List.filter_filter]
    refine List.filter_congr fun e _ => ?_
    obtain ⟨name, b⟩ := e
    cases name with
    | none => simp
    | some name => simp [and_comm]
  rw [hcut]
  exact weight_filter_add_le f (e := (some local', a)) (by simp) (by simp [unmet, hmem, new])

/-! ## Attribute groups -/

def wildcardEdits : Option Node → List Edit
  | none => []
  | some n =>
    match n.shape.wildcard? with
    | some w => [.wildcard w]
    | none => [.stop .wrongNode]

def givesWildcard (edits : List Edit) : Bool :=
  edits.any fun
    | .wildcard _ => true
    | _ => false

def groupSize (group : Node) : Nat :=
  (group.shape.attributes?.getD []).length + 1

/-- The edits that copy attributes. A reference to an attribute group is replaced by the members of the
group and, where there is no attribute wildcard yet, by its wildcard. With `accepts` false there is no place
for attributes, but attribute groups are still followed. -/
def attributeEdits (s : Schema) (accepts : Bool) (key : Option ComponentKey) (met : List QName)
    (hasAny : Bool) : List Node → List Edit
  | [] => []
  | n :: ns =>
    match n.shape with
    | .attributeGroupRef none => [.fail (.missingAttributeGroup none)]
    | .attributeGroupRef (some q) =>
      match _found : s.find? .attributeGroups (some q) with
      | none => [.fail (.missingAttributeGroup (some q))]
      | some g =>
        if _new : q ∈ met then [.fail (.circularAttributeGroup met q)]
        else
          match _members : g.shape.attributes?, g.shape.any? with
          | some members, some any =>
            let inner := attributeEdits s accepts key (met ++ [q]) hasAny members
            let hasAny := hasAny || givesWildcard inner
            let wild := if hasAny then [] else wildcardEdits any
            inner ++ wild ++
              attributeEdits s accepts key met (hasAny || givesWildcard wild) ns
          | _, _ => [.stop .wrongNode]
    | _ =>
      if accepts then
        .attach .attribute ⟨n, key, none⟩ :: attributeEdits s accepts key met hasAny ns
      else [.stop .wrongNode]
termination_by ns => weight groupSize (unmet s.space met s.attributeGroups) + ns.length
decreasing_by
  · have hless := weight_unmet_add_le groupSize .attributeGroups _found _new
    simp only [groupSize, _members, Option.getD_some, SchemaOf.table] at hless
    omega
  all_goals simp

def attributeListEdits (s : Schema) (hasAny : Bool) :
    List (Option ComponentKey × List Node) → List Edit
  | [] => []
  | (key, members) :: rest =>
    let here := attributeEdits s true key [] hasAny members
    here ++ attributeListEdits s (hasAny || givesWildcard here) rest

/-! ## Bases of simple content -/

/-- The type that a simple type restricts. Restrictions of types of their own are followed to a named one,
and lists and unions count as texts. -/
def simpleRoot : Option Node → Except Fault QName
  | some ⟨.simpleRestriction (some q) _ _⟩ => .ok q
  | some ⟨.simpleRestriction none (some ⟨.simpleType _ content⟩) _⟩
  | some ⟨.simpleRestriction none (some ⟨.simpleContent content⟩) _⟩
  | some ⟨.simpleRestriction none (some ⟨.complexContent _ content⟩) _⟩ => simpleRoot content
  | some ⟨.simpleRestriction none (some _) _⟩ => .error .wrongNode
  | _ => .ok (xsd "string")

/-- Where the base of simple content leads: the attributes met on the way, with the type that each list
comes from, and the built-in type at the end. -/
structure BaseChain where
  inherited : List (QName × List Node)
  root : Except Fault (Option QName)

def BaseChain.cons (inherited : List (QName × List Node)) (c : BaseChain) : BaseChain :=
  ⟨inherited ++ c.inherited, c.root⟩

/-- Follows the base of simple content. Attributes are met only if they are asked for. -/
def baseChain (s : Schema) (withAttributes : Bool) (met : List QName) : Option QName → BaseChain
  | none => ⟨[], .ok none⟩
  | some q =>
    if q.isBuiltin then ⟨[], .ok (some q)⟩
    else if _new : q ∈ met then ⟨[], .error (.problem (.circularType met q))⟩
    else
      match _found : s.find? .types (some q) with
      | none => ⟨[], .error (.problem (.missingType q))⟩
      | some t =>
        match t.shape with
        | .simpleType _ content =>
          match simpleRoot content with
          | .ok root => baseChain s withAttributes (met ++ [q]) (some root)
          | .error f => ⟨[], .error f⟩
        | .complexType _ _ outer _ (some ⟨.simpleContent (some content)⟩) _ =>
          match withAttributes, content.shape.attributes?, content.shape.base? with
          | true, none, _ => ⟨[], .error .wrongNode⟩
          | true, some members, none => ⟨[(q, members), (q, outer)], .error .wrongNode⟩
          | true, some members, some base =>
            (baseChain s withAttributes (met ++ [q]) base).cons [(q, members), (q, outer)]
          | false, _, none => ⟨[], .error .wrongNode⟩
          | false, _, some base => baseChain s withAttributes (met ++ [q]) base
        | _ => ⟨[], .error (.problem (.unsupportedBase q))⟩
termination_by weight (fun _ => 1) (unmet s.space met s.types)
decreasing_by all_goals exact weight_unmet_add_le (fun _ => 1) .types _found _new

end PayloadSchema.Extraction
