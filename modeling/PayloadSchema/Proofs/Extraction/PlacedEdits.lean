import PayloadSchema.Proofs.Extraction.Agendas

/-!
# Edits at a place

Every edit that an extraction makes at a place is one that the inliner makes on the tree that the place
stands for.  An edit that does not wait for another node keeps the trees that all places stand for.
-/

namespace PayloadSchema.Extraction

open Schema Copying

/-! ## Filling a place -/

theorem fills_slot (slot : Slot) : Fills fun x s => slot.fill x s where
  map f x s := slot.map_fill f x s
  children x y s := by
    cases slot <;> cases s <;>
      simp only [Slot.fill, Shape.addAttribute, Shape.children, List.mem_append, Option.toList_some,
        List.mem_singleton] <;>
      tauto

theorem fills_any : Fills fun x s => s.withAny (some x) where
  map f x s := Shape.map_withAny f (some x) s
  children x y s := by
    cases s <;>
      simp only [Shape.withAny, Shape.children, List.mem_append, Option.toList_some,
        List.mem_singleton] <;>
      tauto

/-- What work at a place keeps, from what was still to be done at it to what is left. -/
structure Advances (c : Context) (p : Place) (w w' : Workspace)
    (before after : Shape Node → Copying (Shape Node)) : Prop where
  sound : w'.Sound
  free : w'.Free p
  refines : Refines w.store (w.todoAt c p before) w'.store (w'.todoAt c p after)

section Advances

variable {c : Context} {path : List ComponentKey} {w w' w'' : Workspace} {p q : Place} {es : List Edit}
  {before after last : Shape Node → Copying (Shape Node)}

theorem Advances.trans (first : Advances c p w w' before after)
    (second : Advances c p w' w'' after last) : Advances c p w w'' before last :=
  ⟨second.sound, second.free, first.refines.trans second.refines⟩

theorem Advances.inside (h : Advances c p w w' before after) (hp : p < w.store.size) :
    p < w'.store.size :=
  hp.trans_le h.refines.size_le

/-- A place may take in a place whose tree will be what the place wants next. -/
theorem advances_fill {fill : ∀ {α : Type}, α → Shape α → Shape α} {low : Place} {n : Node}
    {wanted : Node → Prop} (hw : w.Sound) (hp : p < w.store.size) (hfree : w.Free p)
    (hfill : Fills fill) (hlow : p < low) (hq : w.store.Holds low q n)
    (hwanted : ∀ t b, Agrees low w.store (w.todo c) t b → ∀ m, Completes t b q m ↔ wanted m)
    (hgives : ∀ u r, (before u).Gives r ↔ ∃ m, wanted m ∧ (after (fill m u)).Gives r) :
    Advances c p w { w with store := w.store.update p (fill q) } before after := by
  refine ⟨⟨?_, ?_, hw.nodup⟩, hfree, ?_⟩
  · refine hw.store.update hp fun x hx => ?_
    rcases hfill.children q x _ hx with rfl | hx
    · exact .inr ⟨low, n, hlow, hq⟩
    · exact .inl hx
  · intro i hi
    rw [Store.size_update]
    exact hw.inside i hi
  · have hwanted' (t : Store) (b : Agenda) (hagrees : Agrees low w.store (w.todoAt c p before) t b)
        (m : Node) : Completes t b q m ↔ wanted m := by
      have hold : Agrees low w.store (w.todo c) w.store (w.todoAt c p before) :=
        ⟨Nat.le_refl _, fun _ _ _ => rfl,
          fun x hx _ => Workspace.todoAt_of_ne (Nat.ne_of_gt (hlow.trans_le hx))⟩
      exact hwanted t b (hold.trans hagrees) m
    refine Refines.of_fill hfill hw.store hp (fun x hx => ?_) hlow hq hwanted' ?_
    · rw [Workspace.todoAt_of_ne hx, Workspace.todoAt_of_ne hx]
      rfl
    · intro u r
      rw [Workspace.todoAt_self, Workspace.todoAt_self]
      exact hgives u r

theorem advances_attach {slot : Slot} {child : Child} (hw : w.Sound) (hp : p < w.store.size)
    (hfree : w.Free p) (h : (perform c path p (.attach slot child)).runIn w = (.ok (), w')) :
    Advances c p w w' (inlineEdits c path (.attach slot child :: es)) (inlineEdits c path es) := by
  rw [perform, Work.runIn_bind_eq_ok] at h
  obtain ⟨q, w₁, hcreate, h⟩ := h
  rw [Work.runIn_update] at h
  cases h
  have hcreated := created_of_create hw hcreate
  have hstart : Advances c p w w₁ (inlineEdits c path (.attach slot child :: es))
      (inlineEdits c path (.attach slot child :: es)) := by
    refine ⟨hcreated.sound hw, hcreated.free hp hfree, hcreated.refines hw hp fun x r done => ?_⟩
    obtain ⟨n, hn, -⟩ := gives_attach.1 done
    exact ⟨n, hn⟩
  obtain ⟨n, hn⟩ := hcreated.holds
  exact hstart.trans <|
    advances_fill hstart.sound (hstart.inside hp) hstart.free (fills_slot slot) hp hn
      (fun t b hagrees m => hcreated.completes_congr hagrees) fun u r => gives_attach

theorem advances_discard {child : Child} (hw : w.Sound) (hp : p < w.store.size) (hfree : w.Free p)
    (h : (perform c path p (.discard child)).runIn w = (.ok (), w')) :
    Advances c p w w' (inlineEdits c path (.discard child :: es)) (inlineEdits c path es) := by
  rw [perform, Work.runIn_bind_eq_ok] at h
  obtain ⟨q, w₁, hcreate, h⟩ := h
  rw [Work.runIn_pure] at h
  cases h
  have hcreated := created_of_create hw hcreate
  have hgrown : Refines w.store (w.todoAt c p (inlineEdits c path (.discard child :: es))) w'.store
      (w'.todoAt c p (inlineEdits c path (.discard child :: es))) :=
    hcreated.refines hw hp fun x r done => (gives_discard.1 done).1
  refine ⟨hcreated.sound hw, hcreated.free hp hfree, hgrown.trans ?_⟩
  refine Refines.of_change (p := p) (hcreated.sound hw).store rfl (fun _ _ => rfl) (fun x hx => ?_) ?_ ?_
  · rw [Workspace.todoAt_of_ne hx, Workspace.todoAt_of_ne hx]
  · intro f r hp' inner done
    rw [Workspace.todoAt_self] at done
    refine .intro p f r hp' inner ?_
    rw [Workspace.todoAt_self]
    exact (gives_discard.1 done).2
  · intro f r hall done
    rw [Workspace.todoAt_self] at done ⊢
    have hagrees : Agrees w.store.size w'.store (w'.todo c) w'.store
        (w'.todoAt c p (inlineEdits c path es)) :=
      ⟨Nat.le_refl _, fun _ _ _ => rfl,
        fun x hx _ => Workspace.todoAt_of_ne (Nat.ne_of_gt (hp.trans_le hx))⟩
    have hn := (hcreated.completes_congr hagrees).1 (hall q hcreated.lt_size)
    exact gives_discard.2 ⟨⟨_, hn⟩, done⟩

theorem advances_change {change : Change} (hw : w.Sound) (hp : p < w.store.size) (hfree : w.Free p)
    (h : (perform c path p (.change change)).runIn w = (.ok (), w')) :
    Advances c p w w' (inlineEdits c path (.change change :: es)) (inlineEdits c path es) := by
  rw [perform, Work.runIn_update] at h
  cases h
  refine ⟨⟨?_, ?_, hw.nodup⟩, hfree, ?_⟩
  · exact hw.store.update hp fun q hq => .inl (change.mem_children_of_mem_apply hq)
  · intro i hi
    rw [Store.size_update]
    exact hw.inside i hi
  · refine Refines.of_change (p := p) hw.store (by simp)
      (fun q hq => Store.get_update_of_ne _ hq) (fun q hq => ?_) ?_ ?_
    · rw [Workspace.todoAt_of_ne hq, Workspace.todoAt_of_ne hq]
      rfl
    · intro f r hp' inner done
      rw [Workspace.todoAt_self, inlineEdits_change] at done
      refine .intro p f r (by simpa using hp') (fun q hq => ?_) ?_
      · rw [Store.get_update_self _ hp] at hq
        exact inner q (change.mem_children_of_mem_apply hq)
      · rwa [Workspace.todoAt_self, Store.get_update_self _ hp, Change.map_apply]
    · intro f r hall done
      rw [Workspace.todoAt_self, Store.get_update_self _ hp, Change.map_apply] at done
      rwa [Workspace.todoAt_self, inlineEdits_change]

theorem refines_push {s : Store} {todo : Agenda} {shape : Shape Place} (hs : s.Sound)
    (hshape : ∀ q ∈ shape.children, q < s.size) (hfree : todo s.size = pure) :
    Refines s todo (s.push shape).2 todo := by
  refine Refines.of_grown hs (Store.grown_push _ _) (fun _ _ => rfl) fun _ hold x hle hlt => ?_
  have hx : x = s.size := by
    rw [Store.size_push] at hlt
    exact Nat.le_antisymm (Nat.lt_succ_iff.1 hlt) hle
  subst hx
  choose! f hf using hold
  refine ⟨⟨shape.map f⟩, .intro _ f _ hlt ?_ ?_⟩
  · rw [Store.get_push_size]
    exact fun q hq => hf q (hshape q hq)
  · rw [hfree, gives_pure, Store.get_push_size]

/-- A construct may be put at a new place when the places inside of it are there already. -/
theorem advances_push {shape : Shape Place} (hw : w.Sound) (hp : p < w.store.size) (hfree : w.Free p)
    (hshape : ∀ q ∈ shape.children, q < w.store.size) (rest : Shape Node → Copying (Shape Node)) :
    Advances c p w { w with store := (w.store.push shape).2 } rest rest := by
  refine ⟨hw.push hshape, hfree, refines_push hw.store hshape ?_⟩
  rw [Workspace.todoAt_of_ne (Nat.ne_of_gt hp), Workspace.todo_of_free]
  exact hw.free_of_size_le (Nat.le_refl _)

theorem agrees_push (w : Workspace) (low : Place) (shape : Shape Place) :
    Agrees low w.store (w.todo c) (w.store.push shape).2
      (({ w with store := (w.store.push shape).2 } : Workspace).todo c) :=
  ⟨by simp, fun _ _ hq => Store.get_push_lt hq, fun _ _ _ => rfl⟩

theorem advances_wildcard {wild : Wildcard} (hw : w.Sound) (hp : p < w.store.size)
    (hfree : w.Free p) (h : (perform c path p (.wildcard wild)).runIn w = (.ok (), w')) :
    Advances c p w w' (inlineEdits c path (.wildcard wild :: es)) (inlineEdits c path es) := by
  rw [perform, Work.runIn_bind_eq_ok] at h
  obtain ⟨q, w₁, hpush, h⟩ := h
  rw [Work.runIn_push] at hpush
  rw [Work.runIn_update] at h
  cases hpush
  cases h
  have hstart : Advances c p w { w with store := (w.store.push (.anyAttribute wild)).2 }
      (inlineEdits c path (.wildcard wild :: es)) (inlineEdits c path (.wildcard wild :: es)) :=
    advances_push hw hp hfree (by simp [Shape.children]) _
  have hholds : (w.store.push (.anyAttribute wild)).2.Holds w.store.size w.store.size
      ⟨.anyAttribute wild⟩ :=
    Store.holds_push (Nat.le_refl _) rfl (by simp [Shape.children])
  have hwanted (t : Store) (b : Agenda) (hagrees : Agrees w.store.size
      (w.store.push (.anyAttribute wild)).2 (w.todo c) t b) (m : Node) :
      Completes t b w.store.size m ↔ m = ⟨.anyAttribute wild⟩ := by
    rw [hholds.completes_congr hagrees]
    refine hholds.completes_iff fun x hx _ => ?_
    exact Workspace.todo_of_free (hw.free_of_size_le hx)
  exact hstart.trans <|
    advances_fill hstart.sound (hstart.inside hp) hstart.free fills_any hp hholds hwanted
      fun u r => by simp

/-- A new sequence of two children stands for the sequence of what the inliner makes of them. -/
private theorem sequence_stands {first second : Child} {w₁ w₂ : Workspace} {a b : Place}
    (hw : w.Sound) (hfirst : Created c path first w w₁ a) (hsecond : Created c path second w₁ w₂ b) :
    let shape := .modelGroup .sequence .once [a, b]
    (∃ n, (w₂.store.push shape).2.Holds w.store.size w₂.store.size n) ∧
    ∀ t todo, Agrees w.store.size (w₂.store.push shape).2 (w₂.todo c) t todo → ∀ m,
      Completes t todo w₂.store.size m ↔
        ∃ x, (inlineChild c path first).Gives x ∧ ∃ y, (inlineChild c path second).Gives y ∧
          m = ⟨.modelGroup .sequence .once [x, y]⟩ := by
  intro shape
  have hsize : w.store.size ≤ w₂.store.size :=
    hfirst.planted.size_le.trans hsecond.planted.size_le
  obtain ⟨n, hn⟩ := hfirst.holds
  obtain ⟨k, hk⟩ := hsecond.holds
  have ha := hn.grown hsecond.planted.toGrown
  have hb := hk.weaken hfirst.planted.size_le
  constructor
  · refine ⟨_, Store.holds_push hsize rfl fun q hq => ?_⟩
    simp only [shape, Shape.children, List.mem_cons, List.not_mem_nil, or_false] at hq
    rcases hq with rfl | rfl
    · rwa [ha.tree_eq]
    · rwa [hb.tree_eq]
  · intro t todo hagrees m
    have hpush := (agrees_push (c := c) w₂ w.store.size shape).trans hagrees
    have hstandsA (x : Node) : Completes t todo a x ↔ (inlineChild c path first).Gives x :=
      hfirst.completes_congr ((hsecond.agrees _).trans hpush)
    have hstandsB (y : Node) : Completes t todo b y ↔ (inlineChild c path second).Gives y :=
      hsecond.completes_congr (hpush.mono hfirst.planted.size_le)
    have hlt : w₂.store.size < (w₂.store.push shape).2.size := by simp
    have hget : t.get w₂.store.size = shape := by
      rw [hagrees.get_eq _ hsize hlt, Store.get_push_size]
    have hidle : todo w₂.store.size = pure := by
      rw [hagrees.todo_eq _ hsize hlt]
      exact Workspace.todo_of_free ((hsecond.sound (hfirst.sound hw)).free_of_size_le (Nat.le_refl _))
    constructor
    · intro hm
      cases hm with
      | intro _ f r _ inner done =>
        rw [hidle, gives_pure, hget] at done
        rw [hget] at inner
        exact ⟨f a, (hstandsA _).1 (inner a (by simp [shape, Shape.children])), f b,
          (hstandsB _).1 (inner b (by simp [shape, Shape.children])), congrArg Node.mk done.symm⟩
    · rintro ⟨x, hx, y, hy, rfl⟩
      have hab : a ≠ b := Nat.ne_of_lt (hfirst.lt_size.trans_le hsecond.le)
      refine .intro _ (Function.update (fun _ => x) b y) _ (hlt.trans_le hagrees.size_le) ?_ ?_
      · rw [hget]
        intro q hq
        simp only [shape, Shape.children, List.mem_cons, List.not_mem_nil, or_false] at hq
        rcases hq with rfl | rfl
        · rw [Function.update_of_ne hab]
          exact (hstandsA x).2 hx
        · rw [Function.update_self]
          exact (hstandsB y).2 hy
      · rw [hidle, gives_pure, hget]
        simp [shape, Shape.map, hab]

theorem advances_attachSequence {first second : Child} (hw : w.Sound) (hp : p < w.store.size)
    (hfree : w.Free p)
    (h : (perform c path p (.attachSequence first second)).runIn w = (.ok (), w')) :
    Advances c p w w' (inlineEdits c path (.attachSequence first second :: es))
      (inlineEdits c path es) := by
  rw [perform, Work.runIn_bind_eq_ok] at h
  obtain ⟨a, w₁, hfirst, h⟩ := h
  rw [Work.runIn_bind_eq_ok] at h
  obtain ⟨b, w₂, hsecond, h⟩ := h
  rw [Work.runIn_bind_eq_ok] at h
  obtain ⟨q, w₃, hpush, h⟩ := h
  rw [Work.runIn_push] at hpush
  rw [Work.runIn_update] at h
  cases hpush
  cases h
  have hfirst' := created_of_create hw hfirst
  have hsound₁ := hfirst'.sound hw
  have hsize₁ := hfirst'.planted.size_le
  have hsecond' := created_of_create hsound₁ hsecond
  have hsound₂ := hsecond'.sound hsound₁
  have hstart₁ : Advances c p w w₁ (inlineEdits c path (.attachSequence first second :: es))
      (inlineEdits c path (.attachSequence first second :: es)) := by
    refine ⟨hsound₁, hfirst'.free hp hfree, hfirst'.refines hw hp fun x r done => ?_⟩
    obtain ⟨n, hn, -⟩ := gives_attachSequence.1 done
    exact ⟨n, hn⟩
  have hstart₂ : Advances c p w₁ w₂ (inlineEdits c path (.attachSequence first second :: es))
      (inlineEdits c path (.attachSequence first second :: es)) := by
    have hp₁ := hstart₁.inside hp
    refine ⟨hsound₂, hsecond'.free hp₁ hstart₁.free,
      hsecond'.refines hsound₁ hp₁ fun x r done => ?_⟩
    obtain ⟨-, -, n, hn, -⟩ := gives_attachSequence.1 done
    exact ⟨n, hn⟩
  have hstart := hstart₁.trans hstart₂
  have ha : a < w₂.store.size := hfirst'.lt_size.trans_le hsecond'.planted.size_le
  have hitems : ∀ q ∈ (Shape.modelGroup .sequence .once [a, b]).children, q < w₂.store.size := by
    simpa [Shape.children] using ⟨ha, hsecond'.lt_size⟩
  have hpushed := hstart.trans (advances_push hsound₂ (hstart.inside hp) hstart.free hitems _)
  obtain ⟨⟨n, hholds⟩, hwanted⟩ := sequence_stands hw hfirst' hsecond'
  refine hpushed.trans <|
    advances_fill hpushed.sound (hpushed.inside hp) hpushed.free (fills_slot .particle) hp hholds hwanted
      fun u r => ?_
  rw [gives_attachSequence]
  constructor
  · rintro ⟨x, hx, y, hy, done⟩
    exact ⟨_, ⟨x, hx, y, hy, rfl⟩, done⟩
  · rintro ⟨_, ⟨x, hx, y, hy, rfl⟩, done⟩
    exact ⟨x, hx, y, hy, done⟩

end Advances

end PayloadSchema.Extraction
