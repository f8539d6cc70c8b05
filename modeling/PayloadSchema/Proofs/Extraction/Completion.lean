import PayloadSchema.Proofs.Inlining.Inliner
import PayloadSchema.Proofs.Store.Trees

/-!
# The trees that unfinished places stand for

A place whose copy is not complete stands for the tree that it would hold in the end.  A step of an
extraction that keeps these trees cannot go wrong, in whatever order the places are completed.
-/

namespace PayloadSchema.Extraction

open Schema Copying

abbrev Agenda := Place → Shape Node → Copying (Shape Node)

/-- The tree that a place holds once everything at it and below it has been done. -/
inductive Completes (s : Store) (todo : Agenda) : Place → Node → Prop where
  | intro (p : Place) (f : Place → Node) (r : Shape Node) (inside : p < s.size)
      (inner : ∀ q ∈ (s.get p).children, Completes s todo q (f q))
      (done : (todo p ((s.get p).map f)).Gives r) :
      Completes s todo p ⟨r⟩

def AllComplete (s : Store) (todo : Agenda) : Prop :=
  ∀ p < s.size, ∃ n, Completes s todo p n

section Completes

variable {s s' : Store} {todo todo' : Agenda} {low p q : Place} {n m : Node}

theorem Completes.lt_size (h : Completes s todo p n) : p < s.size := by
  cases h with
  | intro _ _ _ inside _ _ => exact inside

theorem Completes.unique (hn : Completes s todo p n) (hm : Completes s todo p m) : n = m := by
  induction hn generalizing m with
  | intro p f r inside inner done ih =>
    cases hm with
    | intro _ g r' _ inner' done' =>
      have hmap : (s.get p).map f = (s.get p).map g :=
        Shape.map_congr fun q hq => ih q hq (inner' q hq)
      rw [hmap] at done
      exact congrArg Node.mk (done.unique done')

theorem Completes.congr_todo
    (h : ∀ q f r, (todo q ((s.get q).map f)).Gives r ↔ (todo' q ((s.get q).map f)).Gives r)
    (hn : Completes s todo p n) : Completes s todo' p n := by
  induction hn with
  | intro p f r inside inner done ih => exact .intro p f r inside ih ((h p f r).1 done)

/-- What happens outside of the range of a tree does not matter for what its place stands for. -/
structure Agrees (low : Place) (s : Store) (todo : Agenda) (s' : Store) (todo' : Agenda) : Prop where
  size_le : s.size ≤ s'.size
  get_eq : ∀ q, low ≤ q → q < s.size → s'.get q = s.get q
  todo_eq : ∀ q, low ≤ q → q < s.size → todo' q = todo q

theorem Agrees.trans {t : Store} {b : Agenda} (hst : Agrees low s todo s' todo')
    (htu : Agrees low s' todo' t b) : Agrees low s todo t b := by
  refine ⟨hst.size_le.trans htu.size_le, fun q hq hlt => ?_, fun q hq hlt => ?_⟩
  · rw [htu.get_eq q hq (hlt.trans_le hst.size_le), hst.get_eq q hq hlt]
  · rw [htu.todo_eq q hq (hlt.trans_le hst.size_le), hst.todo_eq q hq hlt]

theorem Agrees.mono {low' : Place} (hlow : low ≤ low') (h : Agrees low s todo s' todo') :
    Agrees low' s todo s' todo' :=
  ⟨h.size_le, fun q hq => h.get_eq q (hlow.trans hq), fun q hq => h.todo_eq q (hlow.trans hq)⟩

theorem Store.Holds.completes_congr (h : s.Holds low p n) (hagrees : Agrees low s todo s' todo') :
    Completes s' todo' p m ↔ Completes s todo p m := by
  induction h generalizing m with
  | intro p f above inside inner ih =>
    have hget := hagrees.get_eq p above inside
    have htodo := hagrees.todo_eq p above inside
    constructor
    · intro hm
      cases hm with
      | intro _ g r _ inner' done' =>
        rw [hget] at inner'
        rw [hget, htodo] at done'
        exact .intro p g r inside (fun q hq => (ih q hq).1 (inner' q hq)) done'
    · intro hm
      cases hm with
      | intro _ g r _ inner' done' =>
        rw [← hget] at inner' ih
        rw [← hget, ← htodo] at done'
        exact .intro p g r (inside.trans_le hagrees.size_le) (fun q hq => (ih q hq).2 (inner' q hq)) done'

/-- Where nothing is left to be done, a place stands for the tree that it holds. -/
theorem Store.Holds.completes_iff (h : s.Holds low p n)
    (hidle : ∀ q, low ≤ q → q < s.size → todo q = pure) :
    Completes s todo p m ↔ m = n := by
  have hcompletes : Completes s todo p n := by
    induction h with
    | intro p f above inside inner ih =>
      refine .intro p f _ inside ih ?_
      rw [hidle p above inside, gives_pure]
  constructor
  · intro hm
    exact hm.unique hcompletes
  · rintro rfl
    exact hcompletes

end Completes

/-! ## Refinement -/

/-- What a step keeps.  Earlier places stand for the trees that they stood for, and as long as every place
stands for a tree before the step, every place does after it. -/
structure Refines (s : Store) (todo : Agenda) (s' : Store) (todo' : Agenda) : Prop where
  size_le : s.size ≤ s'.size
  forward : ∀ p < s.size, ∀ n, Completes s todo p n → Completes s' todo' p n
  backward : AllComplete s' todo' → ∀ p < s.size, ∀ n, Completes s' todo' p n → Completes s todo p n
  complete : AllComplete s todo → AllComplete s' todo'

section Refines

variable {s t u : Store} {a b c : Agenda}

theorem Refines.refl (s : Store) (a : Agenda) : Refines s a s a :=
  ⟨Nat.le_refl _, fun _ _ _ h => h, fun _ _ _ _ h => h, fun h => h⟩

theorem Refines.all (h : Refines s a t b) (hall : AllComplete t b) : AllComplete s a := by
  intro p hp
  obtain ⟨n, hn⟩ := hall p (hp.trans_le h.size_le)
  exact ⟨n, h.backward hall p hp n hn⟩

theorem Refines.trans (hst : Refines s a t b) (htu : Refines t b u c) : Refines s a u c where
  size_le := hst.size_le.trans htu.size_le
  forward p hp n hn := htu.forward p (hp.trans_le hst.size_le) n (hst.forward p hp n hn)
  backward hall p hp n hn :=
    hst.backward (htu.all hall) p hp n (htu.backward hall p (hp.trans_le hst.size_le) n hn)
  complete hall := htu.complete (hst.complete hall)

theorem Refines.of_gives_iff
    (h : ∀ p f r, (a p ((s.get p).map f)).Gives r ↔ (b p ((s.get p).map f)).Gives r) :
    Refines s a s b where
  size_le := Nat.le_refl _
  forward _ _ _ hn := hn.congr_todo h
  backward _ _ _ _ hn := hn.congr_todo fun p f r => (h p f r).symm
  complete hall p hp := by
    obtain ⟨n, hn⟩ := hall p hp
    exact ⟨n, hn.congr_todo h⟩

theorem completes_grown_iff (hs : s.Sound) (hgrown : s.Grown t) (hsame : ∀ p < s.size, b p = a p)
    {p : Place} {n : Node} (hp : p < s.size) : Completes t b p n ↔ Completes s a p n := by
  constructor
  · intro hn
    induction hn with
    | intro p f r inside inner done ih =>
      refine .intro p f r hp (fun q hq => ?_) ?_
      · exact ih q (by rwa [hgrown.get_eq p hp]) (hs.lt_size hq)
      · rwa [hgrown.get_eq p hp, hsame p hp] at done
  · intro hn
    induction hn with
    | intro p f r inside inner done ih =>
      refine .intro p f r (inside.trans_le hgrown.size_le) (fun q hq => ?_) ?_
      · rw [hgrown.get_eq p hp] at hq
        exact ih q hq (hs.lt_size hq)
      · rwa [hgrown.get_eq p hp, hsame p hp]

theorem Refines.of_grown (hs : s.Sound) (hgrown : s.Grown t) (hsame : ∀ p < s.size, b p = a p)
    (hnew : AllComplete s a → (∀ p < s.size, ∃ n, Completes t b p n) →
      ∀ p, s.size ≤ p → p < t.size → ∃ n, Completes t b p n) :
    Refines s a t b := by
  refine ⟨hgrown.size_le, fun p hp n hn => (completes_grown_iff hs hgrown hsame hp).2 hn,
    fun _ p hp n hn => (completes_grown_iff hs hgrown hsame hp).1 hn, fun hall => ?_⟩
  have hold (p : Place) (hp : p < s.size) : ∃ n, Completes t b p n := by
    obtain ⟨n, hn⟩ := hall p hp
    exact ⟨n, (completes_grown_iff hs hgrown hsame hp).2 hn⟩
  intro p hp
  by_cases hlt : p < s.size
  · exact hold p hlt
  · exact hnew hall hold p (Nat.not_lt.1 hlt) hp

/-- One place may change when what it gives does not.  Trees are compared through the places inside, which
stand for the same trees before and after the change. -/
theorem Refines.of_change {p : Place} (hs : s.Sound) (hsize : t.size = s.size)
    (hget : ∀ q ≠ p, t.get q = s.get q) (hsame : ∀ q ≠ p, b q = a q)
    (hforward : ∀ f r, p < s.size → (∀ q ∈ (s.get p).children, Completes t b q (f q)) →
      (a p ((s.get p).map f)).Gives r → Completes t b p ⟨r⟩)
    (hbackward : ∀ f r, (∀ q < s.size, Completes t b q (f q)) →
      (b p ((t.get p).map f)).Gives r → (a p ((s.get p).map f)).Gives r) :
    Refines s a t b := by
  have forward (q : Place) (n : Node) (hn : Completes s a q n) : Completes t b q n := by
    induction hn with
    | intro q f r inside inner done ih =>
      by_cases hq : q = p
      · subst hq
        exact hforward f r inside ih done
      · refine .intro q f r (by rwa [hsize]) (fun x hx => ?_) ?_
        · rw [hget q hq] at hx
          exact ih x hx
        · rwa [hget q hq, hsame q hq]
  have backward (hall : AllComplete t b) (q : Place) (m : Node) (hm : s.Holds 0 q m) :
      ∀ n, Completes t b q n → Completes s a q n := by
    unfold AllComplete at hall
    rw [hsize] at hall
    choose! f hf using hall
    -- the induction is on the tree before the step, since the step may drop a child
    induction hm with
    | intro q _ _ inside _ ih =>
      intro n hn
      have hinner : ∀ x ∈ (s.get q).children, Completes s a x (f x) :=
        fun x hx => ih x hx _ (hf x (hs.lt_size hx))
      cases hn with
      | intro _ g r _ inner' done' =>
        have hmap : (t.get q).map g = (t.get q).map f := by
          refine Shape.map_congr fun x hx => (inner' x hx).unique (hf x ?_)
          rw [← hsize]
          exact (inner' x hx).lt_size
        rw [hmap] at done'
        refine .intro q f r inside hinner ?_
        by_cases hq : q = p
        · subst hq
          exact hbackward f r hf done'
        · rwa [hget q hq, hsame q hq] at done'
  refine ⟨hsize.ge, fun q _ => forward q, fun hall q hq n => backward hall q _ (hs q hq) n,
    fun hall q hq => ?_⟩
  rw [hsize] at hq
  obtain ⟨n, hn⟩ := hall q hq
  exact ⟨n, forward q n hn⟩

/-- A way of putting an inner construct into a construct, whatever inner constructs are. -/
structure Fills (fill : ∀ {α : Type}, α → Shape α → Shape α) : Prop where
  map : ∀ {α β : Type} (f : α → β) (x : α) (s : Shape α), (fill x s).map f = fill (f x) (s.map f)
  children : ∀ {α : Type} (x y : α) (s : Shape α),
    y ∈ (fill x s).children → y = x ∨ y ∈ s.children

/-- A place may take in a place whose tree will be what the place wants next. -/
theorem Refines.of_fill {fill : ∀ {α : Type}, α → Shape α → Shape α} {low p x : Place} {n : Node}
    {wanted : Node → Prop} (hfill : Fills fill) (hs : s.Sound) (hp : p < s.size)
    (hsame : ∀ q ≠ p, b q = a q) (hlow : p < low) (hx : s.Holds low x n)
    (hwanted : ∀ t b', Agrees low s a t b' → ∀ m, Completes t b' x m ↔ wanted m)
    (hgives : ∀ u r, (a p u).Gives r ↔ ∃ m, wanted m ∧ (b p (fill m u)).Gives r) :
    Refines s a (s.update p (fill x)) b := by
  have hagrees : Agrees low s a (s.update p (fill x)) b := by
    refine ⟨by simp, fun q hq _ => ?_, fun q hq _ => ?_⟩
    · exact Store.get_update_of_ne _ (Nat.ne_of_gt (hlow.trans_le hq))
    · exact hsame q (Nat.ne_of_gt (hlow.trans_le hq))
  have hstands := hwanted _ _ hagrees
  refine Refines.of_change hs (by simp) (fun q hq => Store.get_update_of_ne _ hq) hsame ?_ ?_
  · intro f r _ inner done
    obtain ⟨m, hm, done⟩ := (hgives _ r).1 done
    have hxm := (hstands m).2 hm
    have hmap : (s.get p).map (Function.update f x m) = (s.get p).map f := by
      refine Shape.map_congr fun q hq => ?_
      by_cases hqx : q = x
      · subst hqx
        rw [Function.update_self]
        exact hxm.unique (inner q hq)
      · rw [Function.update_of_ne hqx]
    refine .intro p (Function.update f x m) r (by simpa using hp) (fun q hq => ?_) ?_
    · rw [Store.get_update_self _ hp] at hq
      by_cases hqx : q = x
      · subst hqx
        rwa [Function.update_self]
      · rw [Function.update_of_ne hqx]
        exact inner q ((hfill.children x q _ hq).resolve_left hqx)
    · rwa [Store.get_update_self _ hp, hfill.map, Function.update_self, hmap]
  · intro f r hall done
    rw [Store.get_update_self _ hp, hfill.map] at done
    exact (hgives _ r).2 ⟨f x, (hstands _).1 (hall x hx.lt_size), done⟩

end Refines

end PayloadSchema.Extraction
