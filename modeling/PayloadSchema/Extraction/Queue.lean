/-!
# Queues

A first-in first-out queue in two lists: the front is taken from the first list, and the second list holds
the later items, last first.
-/

namespace PayloadSchema.Extraction

structure Queue (α : Type) where
  front : List α
  back : List α

namespace Queue

variable {α : Type}

def empty : Queue α := ⟨[], []⟩

def toList (q : Queue α) : List α :=
  q.front ++ q.back.reverse

def push (q : Queue α) (a : α) : Queue α :=
  ⟨q.front, a :: q.back⟩

def pop? (q : Queue α) : Option (α × Queue α) :=
  match q.front with
  | a :: front => some (a, ⟨front, q.back⟩)
  | [] =>
    match q.back.reverse with
    | a :: front => some (a, ⟨front, []⟩)
    | [] => none

@[simp] theorem toList_empty : (empty : Queue α).toList = [] := rfl

@[simp] theorem toList_push (q : Queue α) (a : α) : (q.push a).toList = q.toList ++ [a] := by
  simp [toList, push]

theorem pop?_eq (q : Queue α) :
    q.pop?.map (fun r => (r.1, r.2.toList)) =
      match q.toList with
      | [] => none
      | a :: rest => some (a, rest) := by
  obtain ⟨front, back⟩ := q
  cases front with
  | cons a front => simp [pop?, toList]
  | nil =>
    simp only [pop?, toList, List.nil_append]
    cases back.reverse <;> simp

end Queue

end PayloadSchema.Extraction
