import PayloadSchema.Proofs.Inlining.Inliner
import PayloadSchema.Proofs.Rules.Following
import PayloadSchema.Proofs.Schema.Language

/-!
# Attributes are erased

Attributes have no part in the elements that a construct takes.  Much of what is done to the copy of a type is
about attributes only, and what is left of the copy can be followed on constructs without them.
-/

namespace PayloadSchema.Schema

def Shape.eraseAttributes {α : Type} : Shape α → Shape α
  | attributeGroup c _ _ => .attributeGroup c [] none
  | simpleContentExtension b _ _ => .simpleContentExtension b [] none
  | simpleContentRestriction b t fs _ _ => .simpleContentRestriction b t fs [] none
  | complexDerivation h b p _ _ => .complexDerivation h b p [] none
  | complexType c d _ _ m p => .complexType c d [] none m p
  | s => s

section Erase

variable {s : Schema} {builtin : QName → List Document → Prop} {shape : Shape Node} {word : List Document}

@[simp] theorem kind_eraseAttributes {α : Type} (shape : Shape α) :
    shape.eraseAttributes.kind = shape.kind := by
  cases shape with
  | complexDerivation how _ _ _ _ => cases how <;> rfl
  | _ => rfl

@[simp] theorem eraseAttributes_addAttribute {α : Type} (x : α) (shape : Shape α) :
    (shape.addAttribute x).eraseAttributes = shape.eraseAttributes := by
  cases shape <;> rfl

@[simp] theorem eraseAttributes_withAny {α : Type} (any : Option α) (shape : Shape α) :
    (shape.withAny any).eraseAttributes = shape.eraseAttributes := by
  cases shape <;> rfl

theorem takes_eraseAttributes :
    Takes builtin s ⟨shape.eraseAttributes⟩ word ↔ Takes builtin s ⟨shape⟩ word := by
  cases shape with
  | complexType => rw [Shape.eraseAttributes, takes_complexType, takes_complexType]
  | complexDerivation how =>
    cases how with
    | extension => rw [Shape.eraseAttributes, takes_extension, takes_extension]
    | restriction => rw [Shape.eraseAttributes, takes_restriction, takes_restriction]
  | attributeGroup | simpleContentExtension | simpleContentRestriction =>
    constructor <;> intro h <;> cases h
  | _ => rfl

end Erase

end PayloadSchema.Schema

namespace PayloadSchema.Extraction

open Schema Copying

/-! ## Edits of attributes -/

@[simp] theorem eraseAttributes_fill_attribute {α : Type} (x : α) (shape : Shape α) :
    (Slot.attribute.fill x shape).eraseAttributes = shape.eraseAttributes :=
  eraseAttributes_addAttribute x shape

theorem eraseAttributes_fill {α : Type} {slot : Slot} (h : slot ≠ .attribute) (x : α) (shape : Shape α) :
    (slot.fill x shape).eraseAttributes = slot.fill x shape.eraseAttributes := by
  cases slot with
  | «attribute» => exact absurd rfl h
  | _ => cases shape <;> rfl

theorem eraseAttributes_change {α : Type} (change : Change) (shape : Shape α) :
    (change.apply shape).eraseAttributes = change.apply shape.eraseAttributes := by
  cases change <;> cases shape <;> rfl

inductive Edit.IsIdle : Edit → Prop where
  | attribute {child : Child} : IsIdle (.attach .attribute child)
  | wildcard {w : Wildcard} : IsIdle (.wildcard w)
  | warn {text : String} : IsIdle (.warn text)
  | stop {f : Fault} : IsIdle (.stop f)

section Idle

variable {s : Schema} {key : Option ComponentKey} {e : Edit}

theorem idle_wildcardEdits {any : Option Node} (he : e ∈ wildcardEdits any) : e.IsIdle := by
  unfold wildcardEdits at he
  split at he
  · cases he
  · split at he <;> obtain rfl := List.mem_singleton.1 he
    · exact .wildcard
    · exact .stop

theorem idle_attributeEdits {met : List QName} {hasAny : Bool} {members : List Node}
    (he : e ∈ attributeEdits s true key met hasAny members) : e.IsIdle := by
  fun_induction attributeEdits s true key met hasAny members <;>
    grind [Edit.fail, Edit.IsIdle, idle_wildcardEdits]

theorem idle_attributeListEdits {hasAny : Bool} {lists : List (Option ComponentKey × List Node)}
    (he : e ∈ attributeListEdits s hasAny lists) : e.IsIdle := by
  induction lists generalizing hasAny with
  | nil => cases he
  | cons l lists ih =>
    rcases List.mem_append.1 he with he | he
    · exact idle_attributeEdits he
    · exact ih he

end Idle

section Frame

variable {c : Context} {path : List ComponentKey} {es rest : List Edit} {shape r : Shape Node}

/-- Idle edits come to an end with a construct that is the same without its attributes. -/
theorem gives_idle (hes : ∀ e ∈ es, e.IsIdle) (h : (inlineEdits c path (es ++ rest) shape).Gives r) :
    ∃ shape', shape'.eraseAttributes = shape.eraseAttributes ∧
      (inlineEdits c path rest shape').Gives r := by
  induction es generalizing shape with
  | nil => exact ⟨shape, rfl, h⟩
  | cons e es ih =>
    have hrest := fun e' he' => hes e' (List.mem_cons_of_mem e he')
    have he := hes e List.mem_cons_self
    rw [List.cons_append] at h
    cases he with
    | «attribute» =>
      obtain ⟨m, -, h⟩ := gives_attach.1 h
      obtain ⟨shape', herase, h⟩ := ih hrest h
      exact ⟨shape', by rw [herase, eraseAttributes_fill_attribute], h⟩
    | wildcard =>
      rw [inlineEdits_wildcard] at h
      obtain ⟨shape', herase, h⟩ := ih hrest h
      exact ⟨shape', by rw [herase, eraseAttributes_withAny], h⟩
    | warn =>
      rw [inlineEdits_warn] at h
      exact ih hrest h
    | stop =>
      rw [inlineEdits_stop] at h
      exact absurd h gives_throw

end Frame

end PayloadSchema.Extraction
