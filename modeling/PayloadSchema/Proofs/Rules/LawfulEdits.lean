import PayloadSchema.Proofs.Rules.Descent

/-!
# Lawful edits

For a well-formed source, every edit of every rule puts its children where they fit, goes down, and names
no type that is not built in.  A rule that stops tells the truth: it names a problem of the source, and a
component that it calls circular can be reached from itself.
-/

namespace PayloadSchema

/-- A problem by itself, which does not tell the message that it was met in. -/
def Problem.IsBare (p : Problem) : Prop :=
  ∀ direction operation cause, p ≠ .inMessage direction operation cause

end PayloadSchema

namespace PayloadSchema.Extraction

open Schema

/-! ## What an edit may do -/

/-- The role that a child plays in a slot of a construct of a kind. -/
def Slot.role? : Slot → Kind → Option Role
  | .type, .element => some .elementType
  | .type, .attribute | .type, .simpleTypeRestriction | .type, .simpleTypeList
  | .type, .simpleContentRestriction => some .simpleType
  | .content, .simpleType => some .simpleVariety
  | .content, .simpleContent => some .simpleDerivation
  | .content, .complexContent => some .complexDerivation
  | .model, .complexType => some .model
  | .particle, .complexType | .particle, .complexContentExtension
  | .particle, .complexContentRestriction => some .particle
  | .attribute, .simpleContentExtension | .attribute, .simpleContentRestriction
  | .attribute, .complexContentExtension | .attribute, .complexContentRestriction
  | .attribute, .complexType | .attribute, .attributeGroup => some .attribute
  | .item, .sequence | .item, .choice | .item, .all | .item, .groupParticle => some .item
  | .memberType, .simpleTypeUnion => some .simpleType
  | _, _ => none

def Change.Builtin : Change → Prop
  | .typeName q | .base q => ∀ r ∈ q, r.isBuiltin
  | .member q => q.isBuiltin
  | _ => True

/-- Whether a change of a construct of kind `target` is one that a rule may ask for: it names no type that is
not built in, and a name that it gives is that of a component of the kind. -/
def Change.Lawful (s : Schema) (target : Kind) : Change → Prop
  | .name own => ∃ t, Contains s t ∧ t.shape.kind = target ∧ own = t.shape.component?.bind (·.name)
  | change => change.Builtin

theorem Change.Lawful.builtin {s : Schema} {target : Kind} {change : Change}
    (h : change.Lawful s target) : change.Builtin := by
  cases change <;> first | exact h | trivial

/-- A fault that names a problem of a source.  Where that is a circle, the component that is named last can
be reached from itself. -/
def Genuine (s : Schema) (f : Fault) : Prop :=
  ∃ p, f = .problem p ∧ (∀ limit, p ≠ .workLimit limit) ∧
    (p.errorClass = .circularReference → ∃ chain q table, Reaches s ⟨table, q⟩ ⟨table, q⟩ ∧
      (p = .circularType chain q ∧ table ≠ .attributeGroups ∨
        p = .circularAttributeGroup chain q ∧ table = .attributeGroups))

/-- A genuine fault that comes neither from a search for the elements of parts nor from another message. -/
structure Intrinsic (s : Schema) (f : Fault) : Prop where
  genuine : Genuine s f
  found : ∀ p, f = .problem p → p.errorClass ≠ .namespaceTarget
  bare : ∀ p, f = .problem p → p.IsBare

/-- A child whose copy has a kind, and whose origin is below a node.  Only types are copied as children from the
top of a schema. -/
structure Child.Apt (s : Schema) (n : Node) (child : Child) (kind : Kind) : Prop where
  copy : child.origin.shape.kind.copy? = some kind
  descends : Descends s n (child.key? s.space) child.origin
  inner : child.origin.shape.kind = .element → child.origin.shape.isTopLevel = false

inductive Edit.Lawful (s : Schema) (target : Kind) (n : Node) : Edit → Prop where
  | attach {slot : Slot} {child : Child} {role : Role} {kind : Kind}
      (hslot : slot.role? target = some role) (hadmits : role.admits kind)
      (hchild : child.Apt s n kind) : Lawful s target n (.attach slot child)
  | attachSequence {first second : Child} {a b : Kind}
      (hslot : Slot.particle.role? target = some .particle)
      (ha : Role.item.admits a) (hb : Role.item.admits b)
      (hfirst : first.Apt s n a) (hsecond : second.Apt s n b) :
      Lawful s target n (.attachSequence first second)
  | discard {child : Child} {kind : Kind} (hchild : child.Apt s n kind) :
      Lawful s target n (.discard child)
  | change {change : Change} (h : change.Lawful s target) : Lawful s target n (.change change)
  | wildcard {wild : Wildcard} : Lawful s target n (.wildcard wild)
  | warn {text : String} : Lawful s target n (.warn text)
  | stop {f : Fault} (h : Intrinsic s f) : Lawful s target n (.stop f)

def AllLawful (s : Schema) (target : Kind) (n : Node) (es : List Edit) : Prop :=
  ∀ e ∈ es, e.Lawful s target n

section Lists

variable {s : Schema} {target : Kind} {n : Node} {e : Edit} {es fs : List Edit}

theorem AllLawful.nil : AllLawful s target n [] := by
  simp [AllLawful]

theorem AllLawful.cons (he : e.Lawful s target n) (hes : AllLawful s target n es) :
    AllLawful s target n (e :: es) :=
  List.forall_mem_cons.2 ⟨he, hes⟩

theorem AllLawful.single (he : e.Lawful s target n) : AllLawful s target n [e] :=
  .cons he .nil

theorem AllLawful.append (hes : AllLawful s target n es) (hfs : AllLawful s target n fs) :
    AllLawful s target n (es ++ fs) :=
  List.forall_mem_append.2 ⟨hes, hfs⟩

theorem Genuine.intrinsic {p : Problem} (h : Genuine s (.problem p))
    (hclass : p.errorClass ≠ .namespaceTarget) (hbare : p.IsBare) : Intrinsic s (.problem p) :=
  ⟨h, by rintro _ ⟨⟩; exact hclass, by rintro _ ⟨⟩; exact hbare⟩

/-- A problem that is neither the limit nor a circle, and that was met by itself, is always a genuine one. -/
theorem intrinsic_problem {p : Problem}
    (hkind : (∀ limit, p ≠ .workLimit limit) ∧ ∀ direction operation cause, p ≠ .inMessage direction operation cause)
    (hclass : p.errorClass ≠ .circularReference ∧ p.errorClass ≠ .namespaceTarget) :
    Intrinsic s (.problem p) :=
  Genuine.intrinsic ⟨p, rfl, hkind.1, fun h => absurd h hclass.1⟩ hclass.2 hkind.2

theorem lawful_fail {p : Problem}
    (hkind : (∀ limit, p ≠ .workLimit limit) ∧ ∀ direction operation cause, p ≠ .inMessage direction operation cause)
    (hclass : p.errorClass ≠ .circularReference ∧ p.errorClass ≠ .namespaceTarget) :
    (Edit.fail p).Lawful s target n :=
  .stop (intrinsic_problem hkind hclass)

end Lists

/-! ## Types -/

section Types

variable {s : Schema} {target : Kind} {n : Node}

theorem apt_part (hn : n.Proper) {part : Role × Node} (h : part ∈ n.shape.parts) {kind : Kind}
    (hcopy : part.2.shape.kind.copy? = some kind) : (Child.plain part.2).Apt s n kind :=
  ⟨hcopy, by simpa [Child.key?, Child.plain] using descends_part hn h, fun _ => (hn.part h).inner⟩

theorem apt_found (hs : s.Proper) {q : QName} {t : Node} {kind : Kind}
    (hfind : s.find? .types (some q) = some t)
    (hreaches : ∀ a, Covers s a n → Reaches s a ⟨.types, q⟩)
    (hcopy : t.shape.kind.copy? = some kind) : (Child.plain t).Apt s n kind := by
  refine ⟨hcopy, ?_, fun hkind => ?_⟩
  · simpa [Child.key?, Child.plain] using descends_found hs hfind (by simp) hreaches
  · have hadmits := (hs.find hfind).2.admits
    have hkind' : t.shape.kind = .element := hkind
    rw [hkind'] at hadmits
    cases hadmits

def typeRole (simpleOnly : Bool) : Role :=
  if simpleOnly then .simpleType else .elementType

theorem copy?_of_typeRole {simpleOnly : Bool} {k : Kind}
    (h : (typeRole simpleOnly).admits k) : k.copy? = some k := by
  revert h
  cases simpleOnly <;> cases k <;> decide

theorem lawful_typeEdits (hs : s.Proper) (hn : n.Proper) {simpleOnly : Bool} {q : Option QName}
    {own : Option Node} (hslot : Slot.type.role? target = some (typeRole simpleOnly))
    (hq : ∀ r ∈ q, r ∈ n.shape.typeNames)
    (hown : ∀ t ∈ own, (typeRole simpleOnly, t) ∈ n.shape.parts) :
    AllLawful s target n (typeEdits s simpleOnly q own) := by
  cases q with
  | some r =>
    rw [typeEdits]
    split
    · rename_i hbuiltin
      exact .single (.change (by simpa [Change.Lawful, Change.Builtin] using hbuiltin))
    · split
      · exact .single (lawful_fail (by simp) (by simp [Problem.errorClass]))
      · rename_i t hfind
        have hadmits := (hs.find hfind).2.admits
        split
        · exact .single (lawful_fail (by simp) (by simp [Problem.errorClass]))
        · rename_i hsimple
          have hkind : (typeRole simpleOnly).admits t.shape.kind := by
            revert hadmits hsimple
            cases simpleOnly <;> cases t.shape.kind <;> decide
          refine .single (.attach hslot hkind ?_)
          exact apt_found hs hfind (fun a ha => ha.typeName (hq r rfl))
            (copy?_of_typeRole hkind)
  | none =>
    cases own with
    | some t =>
      have hadmits := (hn.part (hown t rfl)).admits
      exact .single (.attach hslot hadmits (apt_part hn (hown t rfl) (copy?_of_typeRole hadmits)))
    | none => exact .single (.change (by simp [Change.Lawful, Change.Builtin]))

theorem lawful_memberEdits (hs : s.Proper) {q : QName} (hslot : target = .simpleTypeUnion)
    (hq : q ∈ n.shape.typeNames) : AllLawful s target n (memberEdits s q) := by
  subst hslot
  unfold memberEdits
  split
  · rename_i hbuiltin
    exact .single (.change hbuiltin)
  · split
    · exact .single (lawful_fail (by simp) (by simp [Problem.errorClass]))
    · rename_i t hfind
      split
      · rename_i c content hshape
        have hcopy : t.shape.kind.copy? = some .simpleType := by
          rw [hshape]
          rfl
        have hadmits : Role.simpleType.admits .simpleType := rfl
        refine .single (.attach rfl hadmits ?_)
        exact apt_found hs hfind (fun a ha => ha.typeName hq) hcopy
      · exact .single (lawful_fail (by simp) (by simp [Problem.errorClass]))

end Types

/-! ## Particles -/

section Particles

variable {s : Schema} {target : Kind} {n m : Node} {role : Role} {key : Option ComponentKey}
  {child : Child} {f : Fault}

private theorem copy?_of_groupContent (hrole : role = .particle ∨ role = .item) {k : Kind}
    (h : Role.groupContent.admits k) : role.admits k ∧ k.copy? = some k := by
  revert h
  rcases hrole with rfl | rfl <;> cases k <;> decide

private theorem copy?_of_particle (hrole : role = .particle ∨ role = .item) {k : Kind}
    (h : role.admits k) (hne : k ≠ .groupRef) :
    ∃ kind, role.admits kind ∧ k.copy? = some kind := by
  revert h hne
  rcases hrole with rfl | rfl <;> cases k <;> simp [Role.admits, Kind.copy?]

/-- A particle is copied as itself, or as the content of the group that it refers to. -/
theorem apt_particleChild (hs : s.Proper) (hrole : role = .particle ∨ role = .item)
    (hm : m.Plays role) (hdesc : Descends s n key m) (h : particleChild s key m = .ok child) :
    ∃ kind, role.admits kind ∧ child.Apt s n kind := by
  have hself (hne : m.shape.kind ≠ .groupRef) :
      ∃ kind, role.admits kind ∧ Child.Apt s n ⟨m, key, none⟩ kind := by
    obtain ⟨kind, hadmits, hcopy⟩ := copy?_of_particle hrole hm.admits hne
    refine ⟨kind, hadmits, hcopy, ?_, fun _ => hm.inner⟩
    have hkey : m.shape.key? s.space = none := key?_of_inner hm.inner
    simpa [Child.key?, hkey] using hdesc
  unfold particleChild at h
  split at h
  · cases h
  · rename_i q bounds hshape
    split at h
    · cases h
    · rename_i g hfind
      have hreaches : ∀ a, Covers s a n → Reaches s a ⟨.groups, q⟩ := by
        intro a ha
        refine (hdesc.covers a ha).reaches ?_
        simp [hshape, Shape.references]
      obtain ⟨c, content, rfl⟩ := (hs.find hfind).2.group
      cases content with
      | none => cases h
      | some content =>
        cases h
        have hpart : (Role.groupContent, content) ∈ (Shape.group c (some content)).parts := by
          simp [Shape.parts]
        have hplays := (hs.find hfind).2.proper.part hpart
        obtain ⟨hadmits, hcopy⟩ := copy?_of_groupContent hrole hplays.admits
        refine ⟨_, hadmits, hcopy, ?_, fun _ => hplays.inner⟩
        have hfind' : s.find? (ComponentKey.component ⟨.group, q⟩).table
            (some (ComponentKey.component ⟨.group, q⟩).name) = some ⟨.group c (some content)⟩ := hfind
        exact descends_keyed hplays.built hfind' ((covers_self hfind').part hpart) hreaches
  · cases h
  · rename_i order _ _ _ hshape
    cases h
    exact hself (by rw [hshape]; cases order <;> simp [Shape.kind])
  · rename_i hshape
    cases h
    exact hself (by simp [hshape, Shape.kind])
  · rename_i hshape
    cases h
    exact hself (by simp [hshape, Shape.kind])
  · rename_i hshape
    cases h
    exact hself (by simp [hshape, Shape.kind])
  · cases h

theorem intrinsic_particleChild (hs : s.Proper) (h : particleChild s key m = .error f) :
    Intrinsic s f := by
  unfold particleChild at h
  split at h
  · cases h
    exact intrinsic_problem (by simp) (by simp [Problem.errorClass])
  · split at h
    · cases h
      exact intrinsic_problem (by simp) (by simp [Problem.errorClass])
    · rename_i g hfind
      obtain ⟨c, content, rfl⟩ := (hs.find hfind).2.group
      cases content with
      | none =>
        cases h
        exact intrinsic_problem (by simp) (by simp [Problem.errorClass])
      | some content => cases h
  · cases h
    exact intrinsic_problem (by simp) (by simp [Problem.errorClass])
  · cases h
  · cases h
  · cases h
  · cases h
  · cases h
    exact intrinsic_problem (by simp) (by simp [Problem.errorClass])

structure Below (s : Schema) (n : Node) (key : Option ComponentKey) (role : Role) (m : Node) :
    Prop where
  plays : m.Plays role
  descends : Descends s n key m

theorem below_part (hn : n.Proper) {part : Role × Node} (h : part ∈ n.shape.parts) :
    Below s n none part.1 part.2 := by
  have hplays := hn.part h
  have hdesc := descends_part (s := s) hn h
  rw [key?_of_inner hplays.inner] at hdesc
  exact ⟨hplays, hdesc⟩

theorem apt_particleChild? (hs : s.Proper) (hrole : role = .particle ∨ role = .item) {particle : Option Node}
    (hm : ∀ m ∈ particle, Below s n key role m) {child : Option Child}
    (h : particleChild? s key particle = .ok child) :
    ∀ a ∈ child, ∃ kind, role.admits kind ∧ a.Apt s n kind := by
  intro a ha
  obtain ⟨m, hmem, hchild⟩ := exists_of_particleChild? h ha
  exact apt_particleChild hs hrole (hm m hmem).plays (hm m hmem).descends hchild

theorem intrinsic_particleChild? (hs : s.Proper) {particle : Option Node}
    (h : particleChild? s key particle = .error f) : Intrinsic s f := by
  obtain ⟨m, -, hchild⟩ := exists_of_particleChild?_eq_error h
  exact intrinsic_particleChild hs hchild

theorem lawful_particleEdits (hs : s.Proper) (hrole : role = .particle ∨ role = .item)
    {use : Child → Edit} {particle : Option Node} (hm : ∀ m ∈ particle, Below s n none role m)
    (huse : ∀ child kind, role.admits kind → child.Apt s n kind → (use child).Lawful s target n) :
    AllLawful s target n (particleEdits s use particle) := by
  unfold particleEdits
  cases h : particleChild? s none particle with
  | error f => exact .single (.stop (intrinsic_particleChild? hs h))
  | ok child =>
    cases child with
    | none => exact .nil
    | some a =>
      obtain ⟨kind, hadmits, hapt⟩ := apt_particleChild? hs hrole hm h a rfl
      exact .single (huse a kind hadmits hapt)

private theorem item_of_particle {k : Kind} (h : Role.particle.admits k) : Role.item.admits k := by
  revert h
  cases k <;> decide

theorem lawful_mergedParticleEdits (hs : s.Proper) {base : ComponentKey}
    {inherited own : Option Node} (hslot : Slot.particle.role? target = some .particle)
    (hinherited : ∀ m ∈ inherited, Below s n (some base) .particle m)
    (hown : ∀ m ∈ own, Below s n none .particle m) :
    AllLawful s target n (mergedParticleEdits s base inherited own) := by
  unfold mergedParticleEdits
  cases h₁ : particleChild? s (some base) inherited with
  | error f => exact .single (.stop (intrinsic_particleChild? hs h₁))
  | ok first =>
    have hfirst := apt_particleChild? hs (.inl rfl) hinherited h₁
    cases h₂ : particleChild? s none own with
    | error f =>
      have hdiscard : AllLawful s target n (first.toList.map Edit.discard) := by
        cases first with
        | none => exact .nil
        | some a =>
          obtain ⟨kind, -, hapt⟩ := hfirst a rfl
          exact .single (.discard hapt)
      have hsecond := intrinsic_particleChild? hs h₂
      cases first <;> exact hdiscard.append (.single (.stop hsecond))
    | ok second =>
      have hsecond := apt_particleChild? hs (.inl rfl) hown h₂
      cases first with
      | none =>
        cases second with
        | none => exact .nil
        | some b =>
          obtain ⟨kind, hadmits, hapt⟩ := hsecond b rfl
          exact .single (.attach hslot hadmits hapt)
      | some a =>
        obtain ⟨k₁, hadmits₁, hapt₁⟩ := hfirst a rfl
        cases second with
        | none => exact .single (.attach hslot hadmits₁ hapt₁)
        | some b =>
          obtain ⟨k₂, hadmits₂, hapt₂⟩ := hsecond b rfl
          exact .single (.attachSequence hslot (item_of_particle hadmits₁) (item_of_particle hadmits₂)
            hapt₁ hapt₂)

end Particles

end PayloadSchema.Extraction
