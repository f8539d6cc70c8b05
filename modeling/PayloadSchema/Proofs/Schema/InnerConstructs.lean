import PayloadSchema.Extraction.Edit

/-!
# Edits and inner constructs

Nothing that is done to a construct depends on what its inner constructs are.  Replacing them commutes
with every change and with filling a slot, so an edit can be followed on places and on trees alike.
-/

namespace PayloadSchema.Schema

variable {α β γ : Type}

namespace Shape

/-! ## Replacing inner constructs -/

@[simp] theorem kind_map (f : α → β) (s : Shape α) : (s.map f).kind = s.kind := by
  cases s with
  | modelGroup order _ _ => cases order <;> rfl
  | complexDerivation how _ _ _ _ => cases how <;> rfl
  | _ => rfl

@[simp] theorem children_map (f : α → β) (s : Shape α) :
    (s.map f).children = s.children.map f := by
  have htoList (o : Option α) : (o.map f).toList = o.toList.map f := by
    cases o <;> rfl
  cases s <;> simp [map, children, htoList]

@[simp] theorem map_map (g : β → γ) (f : α → β) (s : Shape α) :
    (s.map f).map g = s.map fun a => g (f a) := by
  cases s <;> simp [map, Function.comp_def]

@[simp] theorem map_id (s : Shape α) : (s.map fun a => a) = s := by
  cases s <;> simp [map]

@[simp] theorem component?_map (f : α → β) (s : Shape α) :
    (s.map f).component? = s.component? := by
  cases s <;> rfl

theorem map_congr {f g : α → β} {s : Shape α}
    (h : ∀ a ∈ s.children, f a = g a) : s.map f = s.map g := by
  have hopt (o : Option α) (ho : ∀ a ∈ o.toList, f a = g a) : o.map f = o.map g := by
    cases o <;> simp_all
  have hlist (l : List α) (hl : ∀ a ∈ l, f a = g a) : l.map f = l.map g :=
    List.map_congr_left hl
  cases s <;> simp only [map, children, List.mem_append] at h ⊢ <;> congr 1 <;>
    first
    | exact hopt _ fun a ha => h a (by simp [ha])
    | exact hlist _ fun a ha => h a (by simp [ha])

@[simp] theorem map_withAny (f : α → β) (x : Option α) (s : Shape α) :
    (s.withAny x).map f = (s.map f).withAny (x.map f) := by
  cases s <;> rfl

@[simp] theorem map_addAttribute (f : α → β) (x : α) (s : Shape α) :
    (s.addAttribute x).map f = (s.map f).addAttribute (f x) := by
  cases s <;> simp [map, addAttribute]

@[simp] theorem map_withOccurs (f : α → β) (o : Occurs) (s : Shape α) :
    (s.withOccurs o).map f = (s.map f).withOccurs o := by
  cases s <;> rfl

theorem traverse_map {m : Type → Type} [Monad m] [LawfulMonad m] (g : β → m γ) (f : α → β)
    (s : Shape α) : (s.map f).traverse g = s.traverse fun a => g (f a) := by
  have hopt (o : Option α) : (o.map f).mapM g = o.mapM fun a => g (f a) := by
    cases o <;> rfl
  have hlist (l : List α) : (l.map f).mapM g = l.mapM fun a => g (f a) := by
    induction l with
    | nil => rfl
    | cons a l ih => simp [ih]
  cases s <;> simp only [map, traverse, hopt, hlist]

/-! ## What does not change -/

@[simp] theorem kind_withAny (x : Option α) (s : Shape α) : (s.withAny x).kind = s.kind := by
  cases s with
  | complexDerivation how _ _ _ _ => cases how <;> rfl
  | modelGroup order _ _ => cases order <;> rfl
  | _ => rfl

@[simp] theorem kind_withOccurs (o : Occurs) (s : Shape α) : (s.withOccurs o).kind = s.kind := by
  cases s with
  | complexDerivation how _ _ _ _ => cases how <;> rfl
  | modelGroup order _ _ => cases order <;> rfl
  | _ => rfl

@[simp] theorem kind_addAttribute (x : α) (s : Shape α) : (s.addAttribute x).kind = s.kind := by
  cases s with
  | complexDerivation how _ _ _ _ => cases how <;> rfl
  | modelGroup order _ _ => cases order <;> rfl
  | _ => rfl

end Shape

/-! ## Induction on trees -/

theorem Node.sizeOf_lt_of_mem_children {n m : Node} (h : m ∈ n.children) :
    sizeOf m < sizeOf n := by
  have hle {l : List Node} (hl : m ∈ l) : sizeOf m ≤ stackSize l := by
    induction hl with
    | head l => exact Nat.le_add_right _ _
    | tail a _ ih => exact Nat.le_add_left_of_le ih
  exact Nat.lt_of_le_of_lt (hle h) n.stackSize_children

/-- What holds of a node whenever it holds of the nodes inside it holds of every node. -/
theorem Node.induction {motive : Node → Prop}
    (step : ∀ n : Node, (∀ m ∈ n.children, motive m) → motive n) (n : Node) : motive n :=
  step n fun m hm =>
    have := Node.sizeOf_lt_of_mem_children hm
    Node.induction step m
termination_by sizeOf n

/-! ## Folding -/

theorem Shape.fold_eq (f : Shape β → β) (s : Shape Node) : s.fold f = s.map (Node.fold f) := by
  have hopt (o : Option Node) : Node.foldOption f o = o.map (Node.fold f) := by
    cases o <;> rfl
  have hlist (l : List Node) : Node.foldAll f l = l.map (Node.fold f) := by
    induction l with
    | nil => rfl
    | cons n l ih => rw [Node.foldAll, ih, List.map_cons]
  cases s <;> simp only [fold, map, hopt, hlist]

theorem Node.fold_eq (f : Shape β → β) (n : Node) :
    n.fold f = f (n.shape.map (Node.fold f)) := by
  cases n with
  | mk s => rw [Node.fold, Shape.fold_eq, Node.shape]

end PayloadSchema.Schema

namespace PayloadSchema.Extraction

open Schema

variable {α β : Type}

@[simp] theorem Slot.map_fill (f : α → β) (x : α) (slot : Slot) (s : Shape α) :
    (slot.fill x s).map f = slot.fill (f x) (s.map f) := by
  cases slot <;> cases s <;> simp [fill, Shape.map, Shape.addAttribute]

@[simp] theorem Slot.kind_fill (x : α) (slot : Slot) (s : Shape α) :
    (slot.fill x s).kind = s.kind := by
  cases slot <;> cases s <;> first | rfl | skip
  case item.modelGroup order _ _ => cases order <;> rfl
  all_goals
    rename_i how _ _ _ _
    cases how <;> rfl

@[simp] theorem Change.map_apply (f : α → β) (ch : Change) (s : Shape α) :
    (ch.apply s).map f = ch.apply (s.map f) := by
  cases ch <;> cases s <;> rfl

theorem Change.mem_children_of_mem_apply {ch : Change} {s : Shape α} {x : α}
    (h : x ∈ (ch.apply s).children) : x ∈ s.children := by
  cases ch <;> cases s <;>
    simp_all [apply, Shape.children]

@[simp] theorem Change.kind_apply (ch : Change) (s : Shape α) :
    (ch.apply s).kind = s.kind := by
  cases ch <;> cases s <;> first | rfl | skip
  all_goals
    rename_i how _ _ _ _
    cases how <;> rfl

end PayloadSchema.Extraction
