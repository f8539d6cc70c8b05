import PayloadSchema.Proofs.Extraction.Circles
import PayloadSchema.Proofs.Inlining.ErasedAttributes

/-!
# Inlining keeps what a schema accepts

A finished copy takes the same elements as the node that it is a copy of, under the same names.  Only the content
that a type inherits through more than one extension is left out, so there must be no such type.
-/

namespace PayloadSchema.Schema

/-- The type that a node extends, if it is an extension or a complex type with one, and if that type is not built
in. -/
def Node.extended? : Node → Option QName
  | ⟨.complexDerivation .extension (some q) _ _ _⟩
  | ⟨.complexType _ _ _ _ (some ⟨.complexContent _ (some ⟨.complexDerivation .extension (some q) _ _ _⟩)⟩) _⟩ =>
    if q.isBuiltin then none else some q
  | _ => none

/-- Whether no type that is extended extends another one that is not built in. -/
def ExtendsOnce (s : Schema) : Prop :=
  ∀ n q t, Contains s n → n.extended? = some q → s.find? .types (some q) = some t → t.extended? = none

/-- Whether no element is a member of a substitution group. -/
def NoSubstitution (s : Schema) : Prop :=
  ∀ n, Contains s n → ∀ co d own, n.shape = .element co d own → d.substitutionGroup = none

instance (s : Schema) : Decidable (ExtendsOnce s) :=
  decidable_of_iff (∀ n ∈ s.nodes, ∀ q ∈ n.extended?, ∀ t ∈ s.find? .types (some q), t.extended? = none)
    ⟨fun h n q t hn hq ht => h n (mem_nodes.2 hn) q hq t ht, fun h n hn q hq t ht => h n q t (mem_nodes.1 hn) hq ht⟩

def Node.substitutionGroup? : Node → Option QName
  | ⟨.element _ d _⟩ => d.substitutionGroup
  | _ => none

instance (s : Schema) : Decidable (NoSubstitution s) :=
  decidable_of_iff (∀ n ∈ s.nodes, n.substitutionGroup? = none) <| by
    refine ⟨fun h n hn co d own hshape => ?_, fun h n hn => ?_⟩
    · obtain ⟨_⟩ := n
      cases hshape
      exact h _ (mem_nodes.2 hn)
    · obtain ⟨shape⟩ := n
      cases shape with
      | element co d own => exact h _ (mem_nodes.1 hn) co d own rfl
      | _ => rfl

end PayloadSchema.Schema

namespace PayloadSchema.Extraction

open Schema Copying

/-! ## Agreement -/

/-- Nodes of two schemas that take the same elements, whatever is inside of the types that are built in. -/
def Agree (s t : Schema) (n m : Node) : Prop :=
  ∀ builtin word, Takes builtin s n word ↔ Takes builtin t m word

/-- How often the copy of a child may occur. -/
def Child.occurs (child : Child) : Occurs :=
  (child.bounds.elim child.origin.shape child.origin.shape.withOccurs).bounds

/-- A copy of a child that takes the same elements, and may occur as often as is asked for. -/
structure Child.Kept (s t : Schema) (child : Child) (m : Node) : Prop where
  agree : Agree s t child.origin m
  bounds : m.shape.bounds = child.occurs

def AgreeOccurring (s t : Schema) (n m : Node) : Prop :=
  ∀ builtin word, Occurring builtin s n word ↔ Occurring builtin t m word

section Agreement

variable {s t : Schema} {n m : Node} {child : Child} {key : Option ComponentKey}
  {builtin : QName → List Document → Prop} {word : List Document}

theorem Agree.occurring (h : Agree s t n m) (hbounds : m.shape.bounds = n.shape.bounds) :
    AgreeOccurring s t n m := by
  intro builtin word
  rw [occurring_iff, occurring_iff, hbounds]
  refine exists_congr fun words => and_congr_right fun _ => and_congr_left fun _ => ?_
  exact forall_congr' fun w => imp_congr_right fun _ => h builtin w

private theorem bounds_withOccurs_groupContent {o : Occurs} (h : Role.groupContent.admits n.shape.kind) :
    (n.shape.withOccurs o).bounds = o := by
  obtain ⟨shape⟩ := n
  cases shape with
  | modelGroup => rfl
  | complexDerivation how _ _ _ _ => cases how <;> cases h
  | _ => cases h

/-- A particle is copied as itself, or as the content of the group that it refers to with the bounds of the
reference. -/
theorem Child.Kept.occurring (hs : s.Proper) (hchild : particleChild s key n = .ok child)
    (h : child.Kept s t m) : AgreeOccurring s t n m := by
  have hself (heq : child = ⟨n, key, none⟩) : AgreeOccurring s t n m := by
    subst heq
    exact h.agree.occurring h.bounds
  obtain ⟨shape⟩ := n
  cases shape with
  | groupRef ref o =>
    cases ref with
    | none => cases hchild
    | some q =>
      simp only [particleChild, Node.shape] at hchild
      cases hfind : s.find? .groups (some q) with
      | none =>
        rw [hfind] at hchild
        cases hchild
      | some g =>
        obtain ⟨c, content, rfl⟩ := (hs.find hfind).2.group
        rw [hfind] at hchild
        cases content with
        | none => cases hchild
        | some content =>
          cases hchild
          have hagree : Agree s t ⟨.groupRef (some q) o⟩ m := fun builtin word =>
            (takes_groupRef hfind).trans (h.agree builtin word)
          have hpart : (Role.groupContent, content) ∈ (Shape.group c (some content)).parts := by
            simp [Shape.parts]
          refine hagree.occurring (h.bounds.trans ?_)
          exact bounds_withOccurs_groupContent ((hs.find hfind).2.proper.part hpart).admits
  | modelGroup order _ _ =>
    cases order with
    | unspecified => cases hchild
    | _ => exact hself (Except.ok.inj hchild).symm
  | element | elementRef | wildcard => exact hself (Except.ok.inj hchild).symm
  | _ => cases hchild

theorem holding_congr {particle particle' : Option Node}
    (h : Option.Rel (AgreeOccurring s t) particle particle') :
    Holding builtin s particle word ↔ Holding builtin t particle' word := by
  rw [holding_iff, holding_iff]
  cases h with
  | some h => exact h builtin word
  | none => exact Iff.rfl

theorem forall₂_occurring_congr {items items' : List Node}
    (h : List.Forall₂ (AgreeOccurring s t) items items') {words : List (List Document)} :
    List.Forall₂ (Occurring builtin s) items words ↔ List.Forall₂ (Occurring builtin t) items' words := by
  induction h generalizing words with
  | nil => rw [List.forall₂_nil_left_iff, List.forall₂_nil_left_iff]
  | cons hn _ ih =>
    cases words with
    | nil => simp
    | cons word words => rw [List.forall₂_cons, List.forall₂_cons, hn builtin word, ih]

theorem agree_modelGroup {order : Order} {o o' : Occurs} {items items' : List Node}
    (h : List.Forall₂ (AgreeOccurring s t) items items') :
    Agree s t ⟨.modelGroup order o items⟩ ⟨.modelGroup order o' items'⟩ := by
  intro builtin word
  cases order with
  | unspecified => constructor <;> intro h <;> cases h
  | sequence =>
    rw [takes_sequence, takes_sequence]
    exact exists_congr fun words => and_congr_left fun _ => forall₂_occurring_congr h
  | all =>
    rw [takes_all, takes_all]
    exact exists_congr fun words => and_congr_left fun _ => forall₂_occurring_congr h
  | choice =>
    rw [takes_choice, takes_choice]
    induction h with
    | nil => simp
    | cons hn _ ih =>
      simp only [List.mem_cons, exists_eq_or_imp]
      exact or_congr (hn builtin word) ih

end Agreement

/-! ## What is not changed by copying -/

section Steady

variable {α : Type} {c : Context} {path : List ComponentKey} {n : Node} {target : Kind} {es : List Edit}
  {shape r : Shape Node}

@[simp] theorem bounds_fill (x : α) (slot : Slot) (shape : Shape α) :
    (slot.fill x shape).bounds = shape.bounds := by
  cases slot <;> cases shape <;> rfl

@[simp] theorem bounds_change (change : Change) (shape : Shape α) :
    (change.apply shape).bounds = shape.bounds := by
  cases change <;> cases shape <;> rfl

@[simp] theorem bounds_withAny (any : Option α) (shape : Shape α) :
    (shape.withAny any).bounds = shape.bounds := by
  cases shape <;> rfl

/-- Constructs of one kind that may occur equally often. -/
structure Steady (shape r : Shape Node) : Prop where
  kind : r.kind = shape.kind
  bounds : r.bounds = shape.bounds

theorem Steady.trans {u : Shape Node} (h : Steady shape r) (h' : Steady r u) : Steady shape u :=
  ⟨h'.kind.trans h.kind, h'.bounds.trans h.bounds⟩

theorem steady_inlineEdits (hkind : shape.kind = target)
    (hfollow : ∀ m inside shape r, .follow m ∈ es → shape.kind = target →
      enter path (m.shape.key? c.source.space) = .ok inside →
      (inlineNode c inside m shape).Gives r → Steady shape r)
    (h : (inlineEdits c path es shape).Gives r) : Steady shape r := by
  induction es generalizing shape with
  | nil =>
    rw [inlineEdits_nil, gives_pure] at h
    exact h ▸ ⟨rfl, rfl⟩
  | cons e es ih =>
    have hnext {shape' : Shape Node} (hsteady : Steady shape shape')
        (h : (inlineEdits c path es shape').Gives r) : Steady shape r :=
      hsteady.trans (ih (hsteady.kind.trans hkind)
        (fun m inside shape r hm => hfollow m inside shape r (List.mem_cons_of_mem e hm)) h)
    cases e with
    | attach slot child =>
      obtain ⟨m, -, h⟩ := gives_attach.1 h
      exact hnext ⟨Slot.kind_fill m slot shape, bounds_fill m slot shape⟩ h
    | attachSequence first second =>
      obtain ⟨a, -, b, -, h⟩ := gives_attachSequence.1 h
      exact hnext ⟨Slot.kind_fill _ _ _, bounds_fill _ _ _⟩ h
    | discard child => exact hnext ⟨rfl, rfl⟩ (gives_discard.1 h).2
    | follow m =>
      obtain ⟨inside, henter, shape', hshape', h⟩ := gives_follow.1 h
      exact hnext (hfollow m inside shape shape' List.mem_cons_self hkind henter hshape') h
    | change change =>
      rw [inlineEdits_change] at h
      exact hnext ⟨Change.kind_apply change shape, bounds_change change shape⟩ h
    | wildcard w =>
      rw [inlineEdits_wildcard] at h
      exact hnext ⟨Shape.kind_withAny _ shape, bounds_withAny _ shape⟩ h
    | warn text =>
      rw [inlineEdits_warn] at h
      exact hnext ⟨rfl, rfl⟩ h
    | stop f =>
      rw [inlineEdits_stop] at h
      exact absurd h gives_throw

theorem steady_inlineNode (hs : c.source.Proper) (hn : n.Proper)
    (hcopy : n.shape.kind.copy? = some shape.kind) (h : (inlineNode c path n shape).Gives r) :
    Steady shape r := by
  induction hd : depth c.source path n using WellFoundedLT.induction generalizing path n shape r with
  | ind d ih =>
    subst hd
    have hasked := (lawful_edits (c := c) hs hn hcopy).asked
    refine steady_inlineEdits rfl (fun m inside shape' r' hm hkind henter h' => ?_) h
    have hdesc := (hasked _ hm).descends _ (List.mem_singleton.2 rfl)
    have hcopy' : m.shape.kind.copy? = some shape'.kind := by
      rw [hkind]
      exact (hasked _ hm).sensible
    exact ih _ (depth_lt hdesc henter) hdesc.proper hcopy' h' rfl

end Steady

/-! ## Children of edits -/

/-- The children that an edit has copied. -/
def Edit.children : Edit → List Child
  | .attach _ child | .discard child => [child]
  | .attachSequence first second => [first, second]
  | .follow _ | .change _ | .wildcard _ | .warn _ | .stop _ => []

theorem LawfulRule.apt {s : Schema} {target : Kind} {n : Node} {es : List Edit} {e : Edit} {child : Child}
    (h : LawfulRule s target n es) (he : e ∈ es) (hchild : child ∈ e.children) :
    ∃ kind, child.Apt s n kind := by
  obtain ⟨front, last, rfl, hfront, hlast⟩ := h
  rcases List.mem_append.1 he with he | he
  · cases hfront e he with
    | attach _ _ hapt | discard hapt =>
      obtain rfl := List.mem_singleton.1 hchild
      exact ⟨_, hapt⟩
    | attachSequence _ _ _ hfirst hsecond =>
      rcases List.mem_pair.1 hchild with rfl | rfl
      · exact ⟨_, hfirst⟩
      · exact ⟨_, hsecond⟩
    | _ => cases hchild
  · rcases hlast with rfl | ⟨m, rfl, -⟩
    · cases he
    · obtain rfl := List.mem_singleton.1 he
      cases hchild

def AllKept (c : Context) (path : List ComponentKey) (t : Schema) (es : List Edit) : Prop :=
  ∀ e ∈ es, ∀ child ∈ e.children, ∀ m, (inlineChild c path child).Gives m → child.Kept c.source t m

section AllKept

variable {c : Context} {path : List ComponentKey} {t : Schema} {e : Edit} {es fs : List Edit}

theorem AllKept.tail (h : AllKept c path t (e :: es)) : AllKept c path t es :=
  (List.forall_mem_cons.1 h).2

theorem allKept_append : AllKept c path t (es ++ fs) ↔ AllKept c path t es ∧ AllKept c path t fs :=
  List.forall_mem_append

end AllKept

end PayloadSchema.Extraction
