import PayloadSchema.Extraction.Rule

/-!
# Going on with another node

A copy goes on with another node when a reference or a member of a substitution group is replaced.  The
rules say so last, so that nothing is done at a place that waits for another node.
-/

namespace PayloadSchema.Extraction

open Schema

/-- Edits that go on with another node only where nothing else is left to be done. -/
def FollowLast : List Edit → Prop
  | [] => True
  | .follow _ :: es => es = []
  | _ :: es => FollowLast es

theorem followLast_append {es fs : List Edit} (hes : ∀ n, .follow n ∉ es) (hfs : FollowLast fs) :
    FollowLast (es ++ fs) := by
  induction es with
  | nil => exact hfs
  | cons e es ih =>
    have hrest := ih fun n hn => hes n (List.mem_cons_of_mem e hn)
    cases e with
    | follow n => exact absurd List.mem_cons_self (hes n)
    | _ => exact hrest

theorem followLast_of_notMem {es : List Edit} (hes : ∀ n, .follow n ∉ es) : FollowLast es := by
  rw [← List.append_nil es]
  exact followLast_append hes (by simp [FollowLast])

/-! ## Rules -/

section Rules

variable {s : Schema} {k : Option ComponentKey} {m : Node}

theorem follow_notMem_typeEdits (simpleOnly : Bool) (q : Option QName) (own : Option Node) :
    .follow m ∉ typeEdits s simpleOnly q own := by
  unfold typeEdits
  grind [Edit.fail]

theorem follow_notMem_memberEdits (q : QName) : .follow m ∉ memberEdits s q := by
  unfold memberEdits
  grind [Edit.fail]

theorem follow_notMem_particleEdits {use : Child → Edit} (huse : ∀ child, use child ≠ .follow m)
    (particle : Option Node) : .follow m ∉ particleEdits s use particle := by
  unfold particleEdits
  split
  · simp
  · simp [huse]

theorem follow_notMem_mergedParticleEdits (base : ComponentKey) (inherited own : Option Node) :
    .follow m ∉ mergedParticleEdits s base inherited own := by
  unfold mergedParticleEdits
  grind

theorem follow_notMem_wildcardEdits (any : Option Node) : .follow m ∉ wildcardEdits any := by
  unfold wildcardEdits
  grind

theorem follow_notMem_attributeEdits (accepts : Bool) (met : List QName) (hasAny : Bool)
    (ns : List Node) : .follow m ∉ attributeEdits s accepts k met hasAny ns := by
  fun_induction attributeEdits s accepts k met hasAny ns <;>
    grind [Edit.fail, follow_notMem_wildcardEdits]

theorem follow_notMem_attributeListEdits (hasAny : Bool)
    (lists : List (Option ComponentKey × List Node)) :
    .follow m ∉ attributeListEdits s hasAny lists := by
  induction lists generalizing hasAny with
  | nil => simp [attributeListEdits]
  | cons l lists ih =>
    rw [attributeListEdits, List.mem_append, not_or]
    exact ⟨follow_notMem_attributeEdits true [] hasAny l.2, ih _⟩

theorem follow_notMem_rootEdits (chain : BaseChain) : .follow m ∉ rootEdits chain := by
  unfold rootEdits
  split <;> simp

theorem follow_notMem_mergeEdits (base : QName) (given : Inherited) (particle : Option Node)
    (attributes : List Node) (hasAny : Bool) :
    .follow m ∉ mergeEdits s base given particle attributes hasAny := by
  have hlists := follow_notMem_attributeListEdits (s := s) (m := m) hasAny
  have hmerged := follow_notMem_mergedParticleEdits (s := s) (m := m)
  have hwild := follow_notMem_wildcardEdits (m := m)
  unfold mergeEdits
  grind

theorem follow_notMem_extensionEdits (base : Option QName) (particle : Option Node)
    (attributes : List Node) (hasAny : Bool) :
    .follow m ∉ extensionEdits s base particle attributes hasAny := by
  have hattributes := follow_notMem_attributeEdits (s := s) (k := none) (m := m) true [] hasAny attributes
  have hparticle : .follow m ∉ particleEdits s (.attach .particle) particle :=
    follow_notMem_particleEdits (by simp) particle
  unfold extensionEdits
  repeat' split
  all_goals simp [Edit.fail, hattributes, hparticle, follow_notMem_mergeEdits]

theorem follow_notMem_restrictionEdits (base : Option QName) (particle : Option Node)
    (attributes : List Node) (hasAny : Bool) :
    .follow m ∉ restrictionEdits s base particle attributes hasAny := by
  have hattributes := follow_notMem_attributeEdits (s := s) (k := none) (m := m) true [] hasAny attributes
  have hparticle : .follow m ∉ particleEdits s (.attach .particle) particle :=
    follow_notMem_particleEdits (by simp) particle
  unfold restrictionEdits
  grind

theorem follow_notMem_simpleExtensionEdits (base : Option QName) (attributes : List Node)
    (hasAny : Bool) : .follow m ∉ simpleExtensionEdits s base attributes hasAny := by
  have hlists := follow_notMem_attributeListEdits (s := s) (m := m) hasAny
  have hroot := follow_notMem_rootEdits (m := m)
  have hattributes := follow_notMem_attributeEdits (s := s) (k := none) (m := m) true []
  unfold simpleExtensionEdits
  grind

theorem follow_notMem_simpleRestrictionEdits (base : Option QName) (baseType : Option Node)
    (attributes : List Node) (hasAny : Bool) :
    .follow m ∉ simpleRestrictionEdits s base baseType attributes hasAny := by
  have hroot := follow_notMem_rootEdits (m := m)
  have hattributes := follow_notMem_attributeEdits (s := s) (k := none) (m := m) true []
  unfold simpleRestrictionEdits
  grind

theorem follow_notMem_complexTypeEdits (accepts : Bool) (attributes : List Node)
    (any model particle : Option Node) :
    .follow m ∉ complexTypeEdits s accepts attributes any model particle := by
  have hattributes := follow_notMem_attributeEdits (s := s) (k := none) (m := m) accepts []
  have hput (slot : Slot) (child : Child) :
      (if accepts then Edit.attach slot child else .discard child) ≠ .follow m := by
    split <;> simp
  have hparticle := follow_notMem_particleEdits (s := s) (hput .particle) particle
  unfold complexTypeEdits
  grind

theorem followLast_followEdits (target : Kind) (n : Node) : FollowLast (followEdits target n) := by
  unfold followEdits
  grind [FollowLast]

theorem followLast_referenceEdits (table : TableName) (target : Kind) (form : String)
    (ref : Option QName) : FollowLast (referenceEdits s table target form ref) := by
  have hfollow := followLast_followEdits target
  unfold referenceEdits
  grind [FollowLast, Edit.fail]

theorem followLast_elementEdits (target : Kind) (d : ElementDecl) (own : Option Node) :
    FollowLast (elementEdits s target d own) := by
  have hfollow := followLast_followEdits target
  have htype := followLast_of_notMem fun m => follow_notMem_typeEdits (s := s) (m := m) false d.typeName own
  unfold elementEdits
  grind [FollowLast, Edit.fail]

end Rules

theorem followLast_edits (c : Context) (target : Kind) (n : Node) :
    FollowLast (edits c target n) := by
  unfold edits
  split
  · apply followLast_referenceEdits
  · apply followLast_referenceEdits
  · apply followLast_elementEdits
  all_goals refine followLast_of_notMem fun m => ?_
  · apply follow_notMem_typeEdits
  · grind
  · apply follow_notMem_typeEdits
  · apply follow_notMem_typeEdits
  · simp [follow_notMem_memberEdits]
  · apply follow_notMem_complexTypeEdits
  · unfold contentEdits
    grind [Edit.fail]
  · unfold contentEdits
    grind [Edit.fail]
  · apply follow_notMem_simpleExtensionEdits
  · apply follow_notMem_simpleRestrictionEdits
  · apply follow_notMem_extensionEdits
  · apply follow_notMem_restrictionEdits
  · simp [Edit.fail]
  · have hitem (i : Node) : .follow m ∉ particleEdits c.source (.attach .item) (some i) :=
      follow_notMem_particleEdits (by simp) _
    simpa using fun i _ => hitem i
  all_goals simp [Edit.fail]
end PayloadSchema.Extraction
