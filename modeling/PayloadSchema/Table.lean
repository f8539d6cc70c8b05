/-!
# Tables

Values by key, in the order in which their keys were first added. A value that is added under a key again
takes the place of the earlier one.
-/

namespace PayloadSchema

/-- Values by key, in the order of the first addition of their keys. -/
abbrev Table (κ α : Type) := List (κ × α)

namespace Table

variable {κ α : Type} [DecidableEq κ]

def put (key : κ) (a : α) : Table κ α → Table κ α
  | [] => [(key, a)]
  | e :: es => if e.1 = key then (key, a) :: es else e :: put key a es

def get? (t : Table κ α) (key : κ) : Option α :=
  t.lookup key

def values (t : Table κ α) : List α :=
  t.map (·.2)

def ofValues (key : α → κ) (values : List α) : Table κ α :=
  values.foldl (fun t a => t.put (key a) a) []

theorem mem_of_get? {t : Table κ α} {k : κ} {a : α} (h : t.get? k = some a) : (k, a) ∈ t := by
  induction t with
  | nil => simp [get?] at h
  | cons e t ih =>
    obtain ⟨k', b⟩ := e
    by_cases hk : k = k' <;> grind [get?]

theorem get?_put_self (t : Table κ α) (k : κ) (a : α) : (t.put k a).get? k = some a := by
  induction t with
  | nil => simp [put, get?]
  | cons e t ih => by_cases h : e.1 = k <;> grind [put, get?]

end Table

end PayloadSchema
