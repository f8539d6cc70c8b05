import Mathlib.Data.List.TakeDrop
import PayloadSchema.Extraction.Edit
import PayloadSchema.Proofs.Store.Trees

/-!
# Forests

In the store of an extraction no place stands in two constructs, since what is put into a construct has just
been made for it.  A step that changes one construct therefore changes one tree.
-/

namespace PayloadSchema.Extraction.Store

open Schema

/-! ## How often a place is used -/

def limbs (s : Store) : List Place :=
  s.shapes.toList.flatMap Shape.children

def uses (s : Store) (q : Place) : Nat :=
  s.limbs.count q

/-- A store in which every place stands in at most one construct, and there only once. -/
structure Forest (s : Store) : Prop where
  once : ∀ q, s.uses q ≤ 1
  inside : ∀ q, s.size ≤ q → s.uses q = 0

section Uses

variable {s t : Store} {p p' q : Place} {shape : Shape Place} {f : Shape Place → Shape Place}

theorem getElem_eq_get (h : p < s.shapes.toList.length) : s.shapes.toList[p] = s.get p := by
  have h' : p < s.shapes.size := by simpa using h
  simp [get, h']

theorem uses_push (s : Store) (shape : Shape Place) (q : Place) :
    (s.push shape).2.uses q = s.uses q + shape.children.count q := by
  simp [uses, limbs, push]

private theorem limbs_split (hp : p < s.size) (f : Shape Place → Shape Place) :
    ∃ before after : List Place, s.limbs = before ++ (s.get p).children ++ after ∧
      (s.update p f).limbs = before ++ (f (s.get p)).children ++ after := by
  have hp' : p < s.shapes.toList.length := by simpa [size] using hp
  refine ⟨(s.shapes.toList.take p).flatMap Shape.children,
    (s.shapes.toList.drop (p + 1)).flatMap Shape.children, ?_, ?_⟩
  · have hsplit : s.shapes.toList = s.shapes.toList.take p ++ s.get p :: s.shapes.toList.drop (p + 1) := by
      rw [← getElem_eq_get hp', List.cons_getElem_drop_succ, List.take_append_drop]
    rw [limbs]
    conv_lhs => rw [hsplit]
    simp
  · have hmodify : (s.update p f).shapes.toList =
        s.shapes.toList.take p ++ f (s.get p) :: s.shapes.toList.drop (p + 1) := by
      rw [update, Array.toList_modify, List.modify_eq_take_cons_drop hp', getElem_eq_get hp']
    rw [limbs, hmodify]
    simp

theorem uses_update (hp : p < s.size) (f : Shape Place → Shape Place) (q : Place) :
    (s.update p f).uses q + (s.get p).children.count q =
      s.uses q + (f (s.get p)).children.count q := by
  obtain ⟨before, after, hold, hnew⟩ := limbs_split hp f
  simp only [uses, hold, hnew, List.count_append]
  omega

theorem uses_pos (hq : q ∈ (s.get p).children) : 0 < s.uses q := by
  have hp : p < s.size := by
    by_contra hp
    rw [get_of_size_le (Nat.not_lt.1 hp)] at hq
    cases hq
  obtain ⟨before, after, hlimbs, -⟩ := limbs_split hp id
  simp [uses, hlimbs, hq]

theorem Forest.parent_unique (hs : s.Forest) (hp : q ∈ (s.get p).children)
    (hp' : q ∈ (s.get p').children) : p = p' := by
  by_contra hne
  have hlt {x : Place} (hx : q ∈ (s.get x).children) : x < s.size := by
    by_contra hx'
    rw [get_of_size_le (Nat.not_lt.1 hx')] at hx
    cases hx
  -- without the first construct the place would still be used
  have hcut := uses_update (hlt hp) (fun _ => .schemaNode) q
  have hother : 0 < (s.update p fun _ => .schemaNode).uses q := by
    refine uses_pos (p := p') ?_
    rwa [get_update_of_ne _ (Ne.symm hne)]
  have hcount : 0 < (s.get p).children.count q := List.count_pos_iff.2 hp
  have honce := hs.once q
  have hnone : (Shape.schemaNode : Shape Place).children.count q = 0 := rfl
  omega

theorem Forest.lt_size (hs : s.Forest) (hq : q ∈ (s.get p).children) : q < s.size := by
  by_contra hlt
  have hzero := hs.inside q (Nat.not_lt.1 hlt)
  have hpos := uses_pos hq
  omega

theorem forest_empty : Store.empty.Forest :=
  ⟨fun _ => by simp [uses, limbs, empty], fun _ _ => by simp [uses, limbs, empty]⟩

theorem Forest.push (hs : s.Forest) (hnodup : shape.children.Nodup)
    (hfree : ∀ q ∈ shape.children, q < s.size ∧ s.uses q = 0) : (s.push shape).2.Forest := by
  refine ⟨fun q => ?_, fun q hq => ?_⟩
  · rw [uses_push]
    by_cases hmem : q ∈ shape.children
    · rw [(hfree q hmem).2, List.count_eq_one_of_mem hnodup hmem]
    · rw [List.count_eq_zero_of_not_mem hmem]
      exact hs.once q
  · rw [size_push] at hq
    have hmem : q ∉ shape.children := fun hmem =>
      Nat.lt_irrefl q ((hfree q hmem).1.trans (Nat.lt_of_succ_le hq))
    rw [uses_push, List.count_eq_zero_of_not_mem hmem, hs.inside q (Nat.le_of_succ_le hq)]

theorem Forest.update (hs : s.Forest) (hp : p < s.size) (hq : q < s.size) (hfree : s.uses q = 0)
    (hnew : ∀ x, (f (s.get p)).children.count x ≤ (s.get p).children.count x + [q].count x) :
    (s.update p f).Forest ∧ ∀ x, x ≠ q → (s.update p f).uses x ≤ s.uses x := by
  have huses (x : Place) : (s.update p f).uses x ≤ s.uses x + [q].count x := by
    have := uses_update hp f x
    have := hnew x
    omega
  have hother (x : Place) (hx : x ≠ q) : [q].count x = 0 :=
    List.count_eq_zero_of_not_mem (by simpa using hx)
  refine ⟨⟨fun x => ?_, fun x hx => ?_⟩, fun x hx => ?_⟩
  · by_cases hxq : x = q
    · have := huses x
      rw [hxq, hfree] at this
      simpa [hxq] using this
    · have := huses x
      have := hother x hxq
      have := hs.once x
      omega
  · rw [size_update] at hx
    have := huses x
    have := hother x (Nat.ne_of_gt (hq.trans_le hx))
    have := hs.inside x hx
    omega
  · have := huses x
    have := hother x hx
    omega

end Uses

/-! ## What edits use -/

section Counts

variable {x q : Place} {s : Shape Place}

theorem count_fill_le (slot : Slot) :
    (slot.fill x s).children.count q ≤ s.children.count q + [x].count q := by
  cases slot <;> cases s <;>
    simp only [Slot.fill, Shape.addAttribute, Shape.children, List.count_append, List.count_nil,
      Option.toList_some] <;>
    omega

theorem count_change_le (change : Change) : (change.apply s).children.count q ≤ s.children.count q := by
  cases change <;> cases s <;>
    simp [Change.apply, Shape.children, List.count_append]

theorem count_withAny_le : (s.withAny (some x)).children.count q ≤ s.children.count q + [x].count q := by
  cases s <;>
    simp only [Shape.withAny, Shape.children, List.count_append, List.count_nil, Option.toList_some] <;>
    omega

end Counts

end PayloadSchema.Extraction.Store
