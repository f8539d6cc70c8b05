import PayloadSchema.Payload.Envelope
import PayloadSchema.Proofs.Payload.Marking

/-!
# The layout of a payload

Which elements of a payload schema stand for what, and which namespace each of them is to be marked with.
The notions are the same for trees and for places in a store, and what holds of places is carried over to
the trees at them.
-/

namespace PayloadSchema.Schema.Shape

variable {α β : Type}

/-- The name of a construct, if it has one. -/
def name? (s : Shape α) : Option String :=
  s.component?.bind (·.name)

def inner (look : α → Shape α) (s : Shape α) : List α :=
  match s.ownType? with
  | some (some t) => (((look t).sequence? look).getD []).filter fun i => (look i).kind = .element
  | _ => []

def carried (look : α → Shape α) (s : Shape α) : List α :=
  match s.ownType? with
  | some (some t) =>
    (look t).attributes?.getD [] ++
      (((look t).derivation? look).bind fun d => (look d).attributes?).getD []
  | _ => []

def marker? : Shape α → Option (Option String)
  | .attribute c d _ => if c.name = some Payload.markerName then some d.usage.fixed else none
  | _ => none

/-- The namespaces that an element is marked with. -/
def markers (look : α → Shape α) (s : Shape α) : List (Option String) :=
  (s.carried look).filterMap fun a => (look a).marker?

/-! ## Inner constructs -/

section Children

variable {look : α → Shape α} {s : Shape α} {t i a d : α} {as items : List α}

theorem mem_children_of_ownType? (h : s.ownType? = some (some t)) : t ∈ s.children := by
  cases s <;> cases h <;> simp [children]

theorem mem_children_of_attributes? (h : s.attributes? = some as) (ha : a ∈ as) : a ∈ s.children := by
  cases s <;> cases h <;> simp [children, ha]

theorem mem_children_of_derivation? (h : s.derivation? look = some d) :
    ∃ m ∈ s.children, d ∈ (look m).children := by
  cases s with
  | complexType c decl attributes any model particle =>
    cases model with
    | none => cases h
    | some m =>
      refine ⟨m, by simp [children], ?_⟩
      rw [derivation?] at h
      cases hm : look m <;> rw [hm] at h <;> simp_all [content?, children]
  | _ => cases h

end Children

/-! ## Replacing inner constructs -/

section Map

variable {look : α → Shape α} {look' : β → Shape β} {f : α → β} {good : α → Prop} {s : Shape α}

@[simp] theorem name?_map (f : α → β) (s : Shape α) : (s.map f).name? = s.name? := by
  simp [name?]

@[simp] theorem marker?_map (f : α → β) (s : Shape α) : (s.map f).marker? = s.marker? := by
  cases s <;> rfl

@[simp] theorem ownType?_map (f : α → β) (s : Shape α) :
    (s.map f).ownType? = s.ownType?.map (·.map f) := by
  cases s <;> rfl

@[simp] theorem attributes?_map (f : α → β) (s : Shape α) :
    (s.map f).attributes? = s.attributes?.map (·.map f) := by
  cases s <;> rfl

@[simp] theorem content?_map (f : α → β) (s : Shape α) :
    (s.map f).content? = s.content?.map (·.map f) := by
  cases s <;> rfl

theorem derivation?_map (hlook : ∀ a ∈ s.children, look' (f a) = (look a).map f) :
    (s.map f).derivation? look' = (s.derivation? look).map f := by
  cases s with
  | complexType c d attributes any model particle =>
    cases model with
    | none => rfl
    | some m =>
      have hm := hlook m (by simp [children])
      change (look' (f m)).content?.join = (look m).content?.join.map f
      rw [hm, content?_map]
      rcases (look m).content? with _ | _ | _ <;> rfl
  | _ => rfl

/-- What two ways of looking have in common at places that only lead to each other. -/
structure Mirrors (good : α → Prop) (look : α → Shape α) (look' : β → Shape β) (f : α → β) : Prop where
  look_eq : ∀ a, good a → look' (f a) = (look a).map f
  children : ∀ a, good a → ∀ b ∈ (look a).children, good b

theorem good_of_mem_carried {a : α} (hs : ∀ a ∈ s.children, good a)
    (hgood : ∀ a, good a → ∀ b ∈ (look a).children, good b) (ha : a ∈ s.carried look) : good a := by
  rw [carried] at ha
  split at ha
  · rename_i t hown
    have ht := hs t (mem_children_of_ownType? hown)
    rcases List.mem_append.1 ha with ha | ha
    · cases has : (look t).attributes? with
      | none => simp [has] at ha
      | some as =>
        rw [has] at ha
        exact hgood t ht a (mem_children_of_attributes? has ha)
    · cases hd : (look t).derivation? look with
      | none => simp [hd] at ha
      | some d =>
        obtain ⟨m, hm, hmd⟩ := mem_children_of_derivation? hd
        have hgoodd := hgood m (hgood t ht m hm) d hmd
        rw [hd, Option.bind_some] at ha
        cases has : (look d).attributes? with
        | none => simp [has] at ha
        | some as =>
          rw [has] at ha
          exact hgood d hgoodd a (mem_children_of_attributes? has ha)
  · cases ha

theorem Mirrors.carried (h : Mirrors good look look' f) (hs : ∀ a ∈ s.children, good a) :
    (s.map f).carried look' = (s.carried look).map f := by
  rw [Shape.carried, Shape.carried, ownType?_map]
  cases hown : s.ownType? with
  | none => rfl
  | some own =>
    cases own with
    | none => rfl
    | some t =>
      have ht := hs t (mem_children_of_ownType? hown)
      have hattributes (o : Option (List α)) : (o.map (·.map f)).getD [] = (o.getD []).map f := by
        cases o <;> rfl
      simp only [Option.map_some, h.look_eq t ht, attributes?_map, hattributes, List.map_append]
      rw [derivation?_map fun a ha => h.look_eq a (h.children t ht a ha)]
      congr 1
      cases hd : (look t).derivation? look with
      | none => rfl
      | some d =>
        obtain ⟨m, hm, hmd⟩ := mem_children_of_derivation? hd
        have hlook := h.look_eq d (h.children m (h.children t ht m hm) d hmd)
        simp [hlook, hattributes]

theorem Mirrors.markers (h : Mirrors good look look' f) (hs : ∀ a ∈ s.children, good a) :
    (s.map f).markers look' = s.markers look := by
  rw [Shape.markers, Shape.markers, h.carried hs, List.filterMap_map]
  refine List.filterMap_congr fun a ha => ?_
  simp [h.look_eq a (good_of_mem_carried hs h.children ha)]

end Map

end PayloadSchema.Schema.Shape

namespace PayloadSchema.Payload

open Schema Extraction

/-! ## Trees at places -/

/-- The namespaces that an element is marked with. -/
def markers (n : Node) : List (Option String) :=
  n.shape.markers Node.shape

theorem mirrors_tree (s : Store) : Shape.Mirrors s.Shows s.get Node.shape s.tree := by
  refine ⟨fun p hp => congrArg Node.shape hp.holds.tree_get, fun p hp q hq => ?_⟩
  rw [Shape.children_eq_parts] at hq
  obtain ⟨part, hpart, rfl⟩ := List.mem_map.1 hq
  exact ((Store.neat_shows s).fits p hp part hpart).inside

section Places

variable {w : Workspace} {p : Place}

theorem childElements_eq (w : Workspace) (p : Place) :
    childElements w p = (w.store.get p).inner w.store.get := by
  rw [childElements, Shape.inner, shapeAt]
  rcases (w.store.get p).ownType? with _ | _ | t <;> rfl

theorem markers_tree (hp : w.store.Shows p) :
    markers (w.store.tree p) = (w.store.get p).markers w.store.get := by
  have hmirrors := mirrors_tree w.store
  rw [markers, hmirrors.look_eq p hp, hmirrors.markers (hmirrors.children p hp)]

end Places

end PayloadSchema.Payload
