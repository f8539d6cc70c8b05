import PayloadSchema.Proofs.Extraction.Completion
import PayloadSchema.Proofs.Extraction.Steps

/-!
# Agendas

The items of a queue say what is still to be done at their places.  Starting the copy of a child makes new
places, and puts one new item into the queue.
-/

namespace PayloadSchema.Extraction

open Schema Copying

/-! ## What waits -/

def agenda (c : Context) (items : List WorkItem) : Agenda := fun p =>
  match items.find? fun i => i.place = p with
  | some i => inlineNode c i.path i.origin
  | none => pure

section Agenda

variable {c : Context} {items : List WorkItem} {i : WorkItem} {p : Place}

theorem agenda_of_free (h : ∀ i ∈ items, i.place ≠ p) : agenda c items p = pure := by
  have hnone : items.find? (fun i => i.place = p) = none := by
    simpa using h
  simp [agenda, hnone]

theorem agenda_cons_self : agenda c (i :: items) i.place = inlineNode c i.path i.origin := by
  simp [agenda]

theorem agenda_cons_of_ne (h : p ≠ i.place) : agenda c (i :: items) p = agenda c items p := by
  simp [agenda, Ne.symm h]

theorem agenda_append_self (h : ∀ j ∈ items, j.place ≠ i.place) :
    agenda c (items ++ [i]) i.place = inlineNode c i.path i.origin := by
  have hnone : items.find? (fun j => j.place = i.place) = none := by
    simpa using h
  simp [agenda, hnone]

theorem agenda_append_of_ne (h : p ≠ i.place) :
    agenda c (items ++ [i]) p = agenda c items p := by
  simp [agenda, List.find?_append, Ne.symm h]

end Agenda

namespace Workspace

/-- The items that wait, the next one first. -/
def items (w : Workspace) : List WorkItem := w.queue.toList

def todo (c : Context) (w : Workspace) : Agenda := agenda c w.items

def todoAt (c : Context) (w : Workspace) (p : Place) (rest : Shape Node → Copying (Shape Node)) :
    Agenda :=
  Function.update (w.todo c) p rest

/-- Whether nothing waits for a place. -/
def Free (w : Workspace) (p : Place) : Prop := ∀ i ∈ w.items, i.place ≠ p

/-- A workspace whose places hold trees, and where no two items wait for one place. -/
structure Sound (w : Workspace) : Prop where
  store : w.store.Sound
  inside : ∀ i ∈ w.items, i.place < w.store.size
  nodup : (w.items.map (·.place)).Nodup

section TodoAt

variable {c : Context} {w : Workspace} {p q : Place} {rest : Shape Node → Copying (Shape Node)}

@[simp] theorem todoAt_self : w.todoAt c p rest p = rest := by
  simp [todoAt]

theorem todoAt_of_ne (h : q ≠ p) : w.todoAt c p rest q = w.todo c q := by
  simp [todoAt, h]

theorem todo_of_free (h : w.Free p) : w.todo c p = pure :=
  agenda_of_free h

theorem Sound.push {shape : Shape Place} (hw : w.Sound)
    (hshape : ∀ q ∈ shape.children, q < w.store.size) :
    Sound { w with store := (w.store.push shape).2 } := by
  have hholds := Store.holds_push (Nat.zero_le _) rfl fun q hq => hw.store q (hshape q hq)
  refine ⟨hw.store.planted (Store.planted_push hholds), fun i hi => ?_, hw.nodup⟩
  exact (hw.inside i hi).trans_le (Store.grown_push w.store shape).size_le

theorem Sound.free_of_size_le (hw : w.Sound) (h : w.store.size ≤ p) : w.Free p :=
  fun i hi => Nat.ne_of_lt ((hw.inside i hi).trans_le h)

end TodoAt

end Workspace

/-! ## Starting a copy -/

/-- What is known once the copy of a child has been started at a place: the place stands for what the inliner
makes of the child, and the other new places have nothing that is left to be done. -/
structure Created (c : Context) (path : List ComponentKey) (child : Child) (w w' : Workspace)
    (p : Place) : Prop where
  planted : Store.Planted w.store.size w.store w'.store
  holds : ∃ n, w'.store.Holds w.store.size p n
  items : ∃ inside, w'.items = w.items ++ [⟨p, child.origin, inside⟩]
  completes_iff : ∀ n, Completes w'.store (w'.todo c) p n ↔ (inlineChild c path child).Gives n
  idle : ∀ q, w.store.size ≤ q → q < w'.store.size → q ≠ p →
    ∃ n, Completes w'.store (w'.todo c) q n

section Create

variable {c : Context} {path : List ComponentKey} {child : Child} {w w' : Workspace} {p q : Place}
  {rest : Shape Node → Copying (Shape Node)}

theorem created_of_create (hw : w.Sound) (h : (create c path child).runIn w = (.ok p, w')) :
    Created c path child w w' p := by
  obtain ⟨shape, inside, s, own, houtline, henter, hplanted, hmap, hinner, rfl, rfl⟩ :=
    create_eq_ok h
  have hholds := Store.holds_push hplanted.size_le hmap hinner
  have hitems : (⟨w.target, (s.push own).2, w.queue.push ⟨s.size, child.origin, inside⟩, w.handled,
      w.log⟩ : Workspace).items = w.items ++ [⟨s.size, child.origin, inside⟩] := by
    simp [Workspace.items]
  have hfree : ∀ i ∈ w.items, i.place ≠ s.size :=
    fun i hi => Nat.ne_of_lt ((hw.inside i hi).trans_le hplanted.size_le)
  have hown : agenda c (w.items ++ [⟨s.size, child.origin, inside⟩]) s.size =
      inlineNode c inside child.origin :=
    agenda_append_self (i := ⟨s.size, child.origin, inside⟩) hfree
  have hidle : ∀ x, w.store.size ≤ x → x < s.size →
      agenda c (w.items ++ [⟨s.size, child.origin, inside⟩]) x = pure := by
    intro x hle hlt
    rw [agenda_append_of_ne (Nat.ne_of_lt hlt)]
    exact agenda_of_free (hw.free_of_size_le hle)
  -- the trees inside are complete before their own construct is pushed, and stay so
  have hinside : ∀ x n, s.Holds w.store.size x n → ∀ m,
      Completes (s.push own).2 (agenda c (w.items ++ [⟨s.size, child.origin, inside⟩])) x m ↔ m = n := by
    intro x n hx m
    rw [hx.completes_congr ⟨by simp, fun y _ hy => Store.get_push_lt hy, fun _ _ _ => rfl⟩]
    exact hx.completes_iff hidle
  refine ⟨hplanted.trans (Store.planted_push hholds), ⟨_, hholds⟩, ⟨inside, hitems⟩, ?_, ?_⟩
  · intro n
    rw [Workspace.todo, hitems, gives_child]
    constructor
    · intro hn
      cases hn with
      | intro _ f r _ inner done =>
        rw [Store.get_push_size] at inner done
        have hf : own.map f = shape := by
          rw [← hmap]
          exact Shape.map_congr fun x hx => (hinside x _ (hinner x hx) _).1 (inner x hx)
        rw [hf, hown] at done
        exact ⟨shape, houtline, inside, henter, r, done, rfl⟩
    · rintro ⟨shape', houtline', inside', henter', r, done, rfl⟩
      cases houtline.symm.trans houtline'
      cases henter.symm.trans henter'
      refine .intro s.size s.tree r (by simp) ?_ ?_
      · rw [Store.get_push_size]
        exact fun x hx => (hinside x _ (hinner x hx) _).2 rfl
      · rwa [Store.get_push_size, hmap, hown]
  · intro x hle hlt hne
    rw [Workspace.todo, hitems]
    have hx : x < s.size := by
      rw [Store.size_push] at hlt
      omega
    exact ⟨_, (hinside x _ (hplanted.holds x hle hx) _).2 rfl⟩

namespace Created

theorem le (h : Created c path child w w' p) : w.store.size ≤ p := by
  obtain ⟨n, hn⟩ := h.holds
  exact hn.le

theorem lt_size (h : Created c path child w w' p) : p < w'.store.size := by
  obtain ⟨n, hn⟩ := h.holds
  exact hn.lt_size

theorem sound (h : Created c path child w w' p) (hw : w.Sound) : w'.Sound := by
  obtain ⟨inside, hitems⟩ := h.items
  refine ⟨hw.store.planted h.planted, ?_, ?_⟩
  · intro i hi
    rw [hitems, List.mem_append, List.mem_singleton] at hi
    rcases hi with hi | rfl
    · exact (hw.inside i hi).trans_le h.planted.size_le
    · exact h.lt_size
  · rw [hitems, List.map_append, List.nodup_append]
    refine ⟨hw.nodup, by simp, ?_⟩
    intro a ha b hb
    obtain ⟨i, hi, rfl⟩ := List.mem_map.1 ha
    simp only [List.map_cons, List.map_nil, List.mem_singleton] at hb
    rw [hb]
    exact Nat.ne_of_lt ((hw.inside i hi).trans_le h.le)

theorem todo_eq (h : Created c path child w w' p) (hq : q < w.store.size) :
    w'.todo c q = w.todo c q := by
  obtain ⟨inside, hitems⟩ := h.items
  rw [Workspace.todo, hitems]
  exact agenda_append_of_ne (Nat.ne_of_lt (hq.trans_le h.le))

theorem free (h : Created c path child w w' p) (hq : q < w.store.size) (hfree : w.Free q) :
    w'.Free q := by
  obtain ⟨inside, hitems⟩ := h.items
  intro i hi
  rw [hitems, List.mem_append, List.mem_singleton] at hi
  rcases hi with hi | rfl
  · exact hfree i hi
  · exact Nat.ne_of_gt (hq.trans_le h.le)

/-- Nothing that is done outside of the new places changes what the copy of the child is going to be. -/
theorem completes_congr (h : Created c path child w w' p) {t : Store} {b : Agenda} {n : Node}
    (hagrees : Agrees w.store.size w'.store (w'.todo c) t b) :
    Completes t b p n ↔ (inlineChild c path child).Gives n := by
  obtain ⟨m, hm⟩ := h.holds
  rw [hm.completes_congr hagrees]
  exact h.completes_iff n

/-- A copy may be started as long as it is certain that its result is needed. -/
theorem refines (h : Created c path child w w' p) (hw : w.Sound) (hq : q < w.store.size)
    (hneeds : ∀ x r, (rest x).Gives r → ∃ n, (inlineChild c path child).Gives n) :
    Refines w.store (w.todoAt c q rest) w'.store (w'.todoAt c q rest) := by
  refine Refines.of_grown hw.store h.planted.toGrown (fun x hx => ?_) (fun hall _ x hle hlt => ?_)
  · by_cases hxq : x = q
    · rw [hxq, Workspace.todoAt_self, Workspace.todoAt_self]
    · rw [Workspace.todoAt_of_ne hxq, Workspace.todoAt_of_ne hxq, h.todo_eq hx]
  · have hagrees : Agrees w.store.size w'.store (w'.todo c) w'.store (w'.todoAt c q rest) :=
      ⟨Nat.le_refl _, fun _ _ _ => rfl, 
        fun y hy _ => Workspace.todoAt_of_ne (Nat.ne_of_gt (hq.trans_le hy))⟩
    by_cases hxp : x = p
    · obtain ⟨n, hn⟩ := hall q hq
      cases hn with
      | intro _ f r _ _ done =>
        rw [Workspace.todoAt_self] at done
        obtain ⟨m, hm⟩ := hneeds _ _ done
        rw [hxp]
        exact ⟨m, (h.completes_congr hagrees).2 hm⟩
    · obtain ⟨n, hn⟩ := h.idle x hle hlt hxp
      have hx := h.planted.holds x hle hlt
      exact ⟨n, (hx.completes_congr hagrees).2 hn⟩

theorem agrees (h : Created c path child w w' p) (low : Place) :
    Agrees low w.store (w.todo c) w'.store (w'.todo c) :=
  ⟨h.planted.size_le, fun q _ hq => h.planted.get_eq q hq, fun _ _ hq => h.todo_eq hq⟩

end Created

end Create

end PayloadSchema.Extraction
