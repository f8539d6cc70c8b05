import Mathlib.Algebra.Order.Group.Nat
import Mathlib.Data.List.Nodup
import Mathlib.Data.List.Perm.Subperm
import PayloadSchema.Extraction.Store
import PayloadSchema.Proofs.Schema.InnerConstructs

/-!
# Trees in a store

A place holds a tree when the places that it leads to are all there and never lead back.  The range of
places that a tree is spread over is part of the relation, since what happens outside of the range does
not touch the tree.
-/

namespace PayloadSchema.Extraction.Store

open Schema

/-! ## Places -/

def size (s : Store) : Nat := s.shapes.size

@[simp] theorem size_push (s : Store) (shape : Shape Place) :
    (s.push shape).2.size = s.size + 1 := by
  simp [push, size]

@[simp] theorem place_push (s : Store) (shape : Shape Place) : (s.push shape).1 = s.size := rfl

@[simp] theorem size_update (s : Store) (p : Place) (f : Shape Place → Shape Place) :
    (s.update p f).size = s.size := by
  simp [update, size]

theorem get_push_lt {s : Store} {shape : Shape Place} {p : Place} (h : p < s.size) :
    (s.push shape).2.get p = s.get p := by
  have hp : p ≠ s.shapes.size := Nat.ne_of_lt h
  simp [push, get, Array.getElem?_push, hp]

@[simp] theorem get_push_size (s : Store) (shape : Shape Place) :
    (s.push shape).2.get s.size = shape := by
  simp [push, get, size]

theorem get_update_self {s : Store} {p : Place} (f : Shape Place → Shape Place) (h : p < s.size) :
    (s.update p f).get p = f (s.get p) := by
  have hp : p < s.shapes.size := h
  simp [update, get, hp, Array.getElem_modify]

theorem get_update_of_ne {s : Store} {p q : Place} (f : Shape Place → Shape Place) (h : q ≠ p) :
    (s.update p f).get q = s.get q := by
  simp [update, get, Array.getElem?_modify, Ne.symm h]

/-- A construct that changes right after it has been put in might have been put in changed. -/
theorem update_push (s : Store) (shape : Shape Place) (f : Shape Place → Shape Place) :
    (s.push shape).2.update s.size f = (s.push (f shape)).2 := by
  simp only [push, update, size]
  congr 1
  refine Array.ext (by simp) fun i hi hi' => ?_
  rw [Array.getElem_modify, Array.getElem_push, Array.getElem_push]
  simp only [Array.size_push, Array.size_modify] at hi hi'
  split <;> split <;> first | rfl | omega

/-! ## Growth -/

/-- A store with more places, whose earlier places are as they were. -/
structure Grown (s s' : Store) : Prop where
  size_le : s.size ≤ s'.size
  get_eq : ∀ p < s.size, s'.get p = s.get p

theorem Grown.refl (s : Store) : Grown s s :=
  ⟨Nat.le_refl _, fun _ _ => rfl⟩

theorem Grown.trans {s t u : Store} (hst : Grown s t) (htu : Grown t u) : Grown s u := by
  refine ⟨hst.size_le.trans htu.size_le, fun p hp => ?_⟩
  rw [htu.get_eq p (hp.trans_le hst.size_le), hst.get_eq p hp]

theorem grown_push (s : Store) (shape : Shape Place) : Grown s (s.push shape).2 :=
  ⟨by simp, fun _ hp => get_push_lt hp⟩

/-! ## Trees at places -/

/-- The tree at a place, spread over places from `low` on. -/
inductive Holds (s : Store) (low : Place) : Place → Node → Prop where
  | intro (p : Place) (f : Place → Node) (above : low ≤ p) (inside : p < s.size)
      (inner : ∀ q ∈ (s.get p).children, Holds s low q (f q)) :
      Holds s low p ⟨(s.get p).map f⟩

namespace Holds

variable {s s' : Store} {low low' p : Place} {n m : Node}

theorem lt_size (h : Holds s low p n) : p < s.size := by
  cases h with
  | intro _ _ _ inside _ => exact inside

theorem le (h : Holds s low p n) : low ≤ p := by
  cases h with
  | intro _ _ above _ _ => exact above

theorem inner (h : Holds s low p n) (q : Place) (hq : q ∈ (s.get p).children) :
    ∃ m, Holds s low q m := by
  cases h with
  | intro _ f _ _ inner => exact ⟨f q, inner q hq⟩

theorem weaken (hlow : low' ≤ low) (h : Holds s low p n) : Holds s low' p n := by
  induction h with
  | intro p f above inside inner ih => exact .intro p f (hlow.trans above) inside ih

/-- A tree stays as it is when nothing changes at the places that it is spread over. -/
theorem congr (hsize : s.size ≤ s'.size)
    (hget : ∀ q, low ≤ q → q < s.size → s'.get q = s.get q) (h : Holds s low p n) :
    Holds s' low p n := by
  induction h with
  | intro p f above inside inner ih =>
    have hp := hget p above inside
    rw [← hp]
    refine .intro p f above (inside.trans_le hsize) fun q hq => ih q ?_
    rwa [hp] at hq

theorem grown (hs : Grown s s') (h : Holds s low p n) : Holds s' low p n :=
  h.congr hs.size_le fun q _ hq => hs.get_eq q hq

theorem unique (hn : Holds s low p n) (hm : Holds s low' p m) : n = m := by
  induction hn generalizing m with
  | intro p f above inside inner ih =>
    cases hm with
    | intro _ _ _ _ inner' =>
      exact congrArg Node.mk (Shape.map_congr fun q hq => ih q hq (inner' q hq))

end Holds

private theorem length_le_of_nodup {k : Nat} {l : List Nat} (hnodup : l.Nodup)
    (hlt : ∀ q ∈ l, q < k) : l.length ≤ k := by
  have hsub : l ⊆ List.range k := fun q hq => List.mem_range.2 (hlt q hq)
  simpa using (List.subperm_of_subset hnodup hsub).length_le

/-- No tree is cut off, since the places on the way down to a node are all different: their trees get
smaller and smaller. -/
private theorem cutTree_of_holds {s : Store} {low p : Place} {n : Node} (h : Holds s low p n) :
    ∀ seen : List Place, seen.Nodup →
      (∀ q ∈ seen, q < s.size ∧ ∃ m, Holds s low q m ∧ sizeOf n < sizeOf m) →
      s.cutTree (s.size - seen.length) p = n := by
  induction h with
  | intro p f above inside inner ih =>
    intro seen hnodup hseen
    have hfresh : p ∉ seen := by
      intro hp
      obtain ⟨-, m, hm, hlt⟩ := hseen p hp
      have heq := (Holds.intro p f above inside inner).unique hm
      rw [heq] at hlt
      exact Nat.lt_irrefl _ hlt
    have hnodup' : (p :: seen).Nodup := List.nodup_cons.2 ⟨hfresh, hnodup⟩
    have hlength : (p :: seen).length ≤ s.size := by
      refine length_le_of_nodup hnodup' fun q hq => ?_
      rcases List.mem_cons.1 hq with rfl | hq
      · exact inside
      · exact (hseen q hq).1
    have hdepth : s.size - seen.length = s.size - (p :: seen).length + 1 := by
      simp only [List.length_cons] at hlength ⊢
      omega
    rw [hdepth, cutTree]
    refine congrArg Node.mk (Shape.map_congr fun q hq => ih q hq (p :: seen) hnodup' ?_)
    have hchild : f q ∈ (⟨(s.get p).map f⟩ : Node).children := by
      simpa [Node.children, Node.shape] using ⟨q, hq, rfl⟩
    have hsmall := Node.sizeOf_lt_of_mem_children hchild
    intro r hr
    rcases List.mem_cons.1 hr with rfl | hr
    · exact ⟨inside, _, .intro r f above inside inner, hsmall⟩
    · obtain ⟨hr', m, hm, hlt⟩ := hseen r hr
      exact ⟨hr', m, hm, hsmall.trans hlt⟩

theorem Holds.tree_eq {s : Store} {low p : Place} {n : Node} (h : Holds s low p n) :
    s.tree p = n :=
  cutTree_of_holds h [] List.nodup_nil (by simp)

/-! ## Planting trees -/

/-- A store that has grown by places with trees of their own. -/
structure Planted (low : Place) (s s' : Store) : Prop extends Grown s s' where
  holds : ∀ p, s.size ≤ p → p < s'.size → Holds s' low p (s'.tree p)

theorem Planted.refl (low : Place) (s : Store) : Planted low s s :=
  ⟨.refl s, fun _ hle hlt => absurd hlt (Nat.not_lt.2 hle)⟩

theorem Planted.trans {low : Place} {s t u : Store} (hst : Planted low s t)
    (htu : Planted low t u) : Planted low s u := by
  refine ⟨hst.toGrown.trans htu.toGrown, fun p hle hlt => ?_⟩
  by_cases hp : p < t.size
  · have h := (hst.holds p hle hp).grown htu.toGrown
    rwa [h.tree_eq]
  · exact htu.holds p (Nat.not_lt.1 hp) hlt

theorem planted_push {low : Place} {s : Store} {shape : Shape Place} {n : Node}
    (h : Holds (s.push shape).2 low s.size n) : Planted low s (s.push shape).2 := by
  refine ⟨grown_push s shape, fun p hle hlt => ?_⟩
  have hp : p = s.size := by
    rw [size_push] at hlt
    omega
  rw [hp, h.tree_eq]
  exact h

/-- What a step does that changes a store only by planting trees, whatever the range of places is that they
are looked for in, as long as the new places are within it. -/
def Plants {α : Type} (step : StateM Store α) (post : α → Store → Place → Prop) : Prop :=
  ∀ s low, low ≤ s.size → Planted low s (step.run s).2 ∧ post (step.run s).1 (step.run s).2 low

section Plants

variable {α β : Type} {step : StateM Store α} {next : α → StateM Store β}
  {post : α → Store → Place → Prop} {after : β → Store → Place → Prop}

theorem Plants.pure {a : α} (h : ∀ s low, post a s low) : Plants (pure a) post :=
  fun s low _ => ⟨.refl low s, h s low⟩

theorem Plants.bind (first : Plants step post)
    (lasts : ∀ {a s s' low}, Grown s s' → post a s low → post a s' low)
    (rest : ∀ a, Plants (next a) fun b s low => post a s low → after b s low) :
    Plants (step >>= next) after := by
  intro s low hlow
  obtain ⟨hfirst, hpost⟩ := first s low hlow
  obtain ⟨hrest, hafter⟩ := rest _ _ low (hlow.trans hfirst.size_le)
  exact ⟨hfirst.trans hrest, hafter (lasts hrest.toGrown hpost)⟩

def HoldAll (s : Store) (low : Place) (ps : List Place) (ns : List Node) : Prop :=
  ps.map s.tree = ns ∧ ∀ p ∈ ps, Holds s low p (s.tree p)

theorem HoldAll.grown {s s' : Store} {low : Place} {ps : List Place} {ns : List Node}
    (hs : Grown s s') (h : HoldAll s low ps ns) : HoldAll s' low ps ns := by
  have heq : ∀ p ∈ ps, s'.tree p = s.tree p := fun p hp => ((h.2 p hp).grown hs).tree_eq
  refine ⟨?_, fun p hp => ?_⟩
  · rw [← h.1]
    exact List.map_congr_left heq
  · rw [heq p hp]
    exact (h.2 p hp).grown hs

theorem HoldAll.nil {s : Store} {low : Place} : HoldAll s low [] [] :=
  ⟨rfl, by simp⟩

theorem HoldAll.append {s : Store} {low : Place} {ps qs : List Place} {ns ms : List Node}
    (hp : HoldAll s low ps ns) (hq : HoldAll s low qs ms) : HoldAll s low (ps ++ qs) (ns ++ ms) := by
  refine ⟨by simp [hp.1, hq.1], fun p h => ?_⟩
  rcases List.mem_append.1 h with h | h
  · exact hp.2 p h
  · exact hq.2 p h

theorem HoldAll.option {s : Store} {low : Place} {x : Option Place} {o : Option Node}
    (h : HoldAll s low x.toList o.toList) : x.map s.tree = o := by
  have heq := h.1
  cases x <;> cases o <;> simp_all

private theorem plants_option {o : Option Node}
    (h : ∀ n ∈ o.toList, Plants (pushTree n) fun p s low => Holds s low p n) :
    Plants (o.mapM pushTree) fun x s low => HoldAll s low x.toList o.toList := by
  cases o with
  | none => exact .pure fun s low => .nil
  | some n =>
    refine (h n (by simp)).bind (fun hs hn => hn.grown hs) fun p => .pure fun s low hp => ?_
    have := hp.tree_eq
    subst this
    simpa [HoldAll] using hp

private theorem plants_list {ns : List Node}
    (h : ∀ n ∈ ns, Plants (pushTree n) fun p s low => Holds s low p n) :
    Plants (ns.mapM pushTree) fun ps s low => HoldAll s low ps ns := by
  induction ns with
  | nil => exact .pure fun s low => .nil
  | cons n ns ih =>
    rw [List.mapM_cons]
    refine (h n (by simp)).bind (fun hs hn => hn.grown hs) fun p => ?_
    refine (ih fun m hm => h m (by simp [hm])).bind (fun hs hns => hns.grown hs) fun ps => ?_
    refine .pure fun s low hps hp => ?_
    have := hp.tree_eq
    subst this
    exact ⟨by simp [hps.1], by simpa using ⟨hp, hps.2⟩⟩

/-- The inner constructs of a shape are planted in the order in which the shape lists them. -/
theorem plants_traverse {shape : Shape Node}
    (ih : ∀ n ∈ shape.children, Plants (pushTree n) fun p s low => Holds s low p n) :
    Plants (shape.traverse pushTree) fun shape' s low =>
      shape'.map s.tree = shape ∧ HoldAll s low shape'.children shape.children := by
  have hopt (o : Option Node) (ho : o.toList ⊆ shape.children) {β : Type}
      {next : Option Place → StateM Store β} {after : β → Store → Place → Prop}
      (rest : ∀ x, Plants (next x) fun b s low => HoldAll s low x.toList o.toList → after b s low) :
      Plants (o.mapM pushTree >>= next) after :=
    (plants_option fun n hn => ih n (ho hn)).bind (fun hs h => h.grown hs) rest
  have hlist (l : List Node) (hl : l ⊆ shape.children) {β : Type}
      {next : List Place → StateM Store β} {after : β → Store → Place → Prop}
      (rest : ∀ x, Plants (next x) fun b s low => HoldAll s low x l → after b s low) :
      Plants (l.mapM pushTree >>= next) after :=
    (plants_list fun n hn => ih n (hl hn)).bind (fun hs h => h.grown hs) rest
  cases shape with
  | schemaNode | facet | anyAttribute | wildcard | attributeRef | attributeGroupRef | groupRef
  | elementRef => exact .pure fun s low => ⟨rfl, .nil⟩
  | simpleList i t =>
    refine hopt t (by simp [Shape.children]) fun x => .pure fun s low hx => ?_
    exact ⟨by simp [Shape.map, hx.option], hx⟩
  | simpleType c t =>
    refine hopt t (by simp [Shape.children]) fun x => .pure fun s low hx => ?_
    exact ⟨by simp [Shape.map, hx.option], hx⟩
  | «attribute» c d t =>
    refine hopt t (by simp [Shape.children]) fun x => .pure fun s low hx => ?_
    exact ⟨by simp [Shape.map, hx.option], hx⟩
  | group c p =>
    refine hopt p (by simp [Shape.children]) fun x => .pure fun s low hx => ?_
    exact ⟨by simp [Shape.map, hx.option], hx⟩
  | simpleContent c =>
    refine hopt c (by simp [Shape.children]) fun x => .pure fun s low hx => ?_
    exact ⟨by simp [Shape.map, hx.option], hx⟩
  | complexContent m c =>
    refine hopt c (by simp [Shape.children]) fun x => .pure fun s low hx => ?_
    exact ⟨by simp [Shape.map, hx.option], hx⟩
  | element c d t =>
    refine hopt t (by simp [Shape.children]) fun x => .pure fun s low hx => ?_
    exact ⟨by simp [Shape.map, hx.option], hx⟩
  | simpleUnion ms ts =>
    refine hlist ts (by simp [Shape.children]) fun x => .pure fun s low hx => ?_
    exact ⟨by simp [Shape.map, hx.1], hx⟩
  | modelGroup k o is =>
    refine hlist is (by simp [Shape.children]) fun x => .pure fun s low hx => ?_
    exact ⟨by simp [Shape.map, hx.1], hx⟩
  | simpleRestriction b t fs =>
    refine hopt t (by simp [Shape.children]) fun x => hlist fs (by simp [Shape.children]) fun y =>
      .pure fun s low hy hx => ?_
    exact ⟨by simp [Shape.map, hx.option, hy.1], hx.append hy⟩
  | attributeGroup c as a =>
    refine hlist as (by simp [Shape.children]) fun x => hopt a (by simp [Shape.children]) fun y =>
      .pure fun s low hy hx => ?_
    exact ⟨by simp [Shape.map, hx.1, hy.option], hx.append hy⟩
  | simpleContentExtension b as a =>
    refine hlist as (by simp [Shape.children]) fun x => hopt a (by simp [Shape.children]) fun y =>
      .pure fun s low hy hx => ?_
    exact ⟨by simp [Shape.map, hx.1, hy.option], hx.append hy⟩
  | simpleContentRestriction b t fs as a =>
    refine hopt t (by simp [Shape.children]) fun x => hlist fs (by simp [Shape.children]) fun y =>
      hlist as (fun n hn => by simp [Shape.children, hn]) fun z =>
      hopt a (fun n hn => List.mem_append_right _ hn) fun w =>
      .pure fun s low hw hz hy hx => ?_
    exact ⟨by simp [Shape.map, hx.option, hy.1, hz.1, hw.option],
      ((hx.append hy).append hz).append hw⟩
  | complexDerivation h b p as a =>
    refine hopt p (by simp [Shape.children]) fun x => hlist as (by simp [Shape.children]) fun y =>
      hopt a (by simp [Shape.children]) fun z => .pure fun s low hz hy hx => ?_
    exact ⟨by simp [Shape.map, hx.option, hy.1, hz.option], (hx.append hy).append hz⟩
  | complexType c d as a m p =>
    refine hlist as (fun n hn => by simp [Shape.children, hn]) fun x =>
      hopt a (fun n hn => List.mem_append_right _ hn) fun y =>
      hopt m (by simp [Shape.children]) fun z => hopt p (by simp [Shape.children]) fun w =>
      .pure fun s low hw hz hy hx => ?_
    exact ⟨by simp [Shape.map, hx.1, hy.option, hz.option, hw.option],
      ((hz.append hw).append hx).append hy⟩

theorem holds_push {low : Place} {s : Store} {shape : Shape Place} {n : Shape Node}
    (hlow : low ≤ s.size) (hmap : shape.map s.tree = n)
    (hinner : ∀ p ∈ shape.children, Holds s low p (s.tree p)) :
    Holds (s.push shape).2 low s.size ⟨n⟩ := by
  have hget := get_push_size s shape
  have hholds : Holds (s.push shape).2 low s.size ⟨((s.push shape).2.get s.size).map s.tree⟩ := by
    refine .intro s.size s.tree hlow (by simp) ?_
    rw [hget]
    exact fun p hp => (hinner p hp).grown (grown_push s shape)
  rwa [hget, hmap] at hholds

def pushShape (shape : Shape Node) : StateM Store Place := do
  let shape ← shape.traverse pushTree
  modifyGet (·.push shape)

private theorem plants_pushShape {shape : Shape Node}
    (ih : ∀ n ∈ shape.children, Plants (pushTree n) fun p s low => Holds s low p n) :
    Plants (pushShape shape) fun p s low => Holds s low p ⟨shape⟩ := by
  intro s low hlow
  obtain ⟨hplanted, hmap, hall⟩ := plants_traverse ih s low hlow
  have hholds := holds_push (hlow.trans hplanted.size_le) hmap hall.2
  exact ⟨hplanted.trans (planted_push hholds), hholds⟩

theorem pushTree_eq (n : Node) : pushTree n = pushShape n.shape := by
  rw [pushTree, Node.fold_eq, Shape.traverse_map]
  rfl

theorem plants_pushTree (n : Node) : Plants (pushTree n) fun p s low => Holds s low p n := by
  induction n using Node.induction with
  | step n ih =>
    rw [pushTree_eq]
    cases n with
    | mk shape => exact plants_pushShape ih

theorem run_pushShape (s : Store) (shape : Shape Node) :
    ∃ (s' : Store) (own : Shape Place), Planted s.size s s' ∧ own.map s'.tree = shape ∧
      (∀ p ∈ own.children, Holds s' s.size p (s'.tree p)) ∧
      (pushShape shape).run s = s'.push own := by
  obtain ⟨hplanted, hmap, hall⟩ :=
    plants_traverse (fun n _ => plants_pushTree n) s s.size (Nat.le_refl _)
  exact ⟨_, _, hplanted, hmap, hall.2, rfl⟩

end Plants

/-! ## Sound stores -/

/-- A store in which every place holds a tree. -/
def Sound (s : Store) : Prop := ∀ p < s.size, Holds s 0 p (s.tree p)

theorem get_of_size_le {s : Store} {p : Place} (h : s.size ≤ p) : s.get p = .schemaNode := by
  have hnone : s.shapes[p]? = none := Array.getElem?_eq_none h
  simp [get, hnone]

section Sound

variable {s s' : Store} {low p q : Place}

theorem Sound.lt_size (hs : s.Sound) (hq : q ∈ (s.get p).children) : q < s.size := by
  by_cases hp : p < s.size
  · obtain ⟨m, hm⟩ := (hs p hp).inner q hq
    exact hm.lt_size
  · rw [get_of_size_le (Nat.not_lt.1 hp)] at hq
    simp [Shape.children] at hq

theorem Sound.planted (hs : s.Sound) (h : Planted low s s') : s'.Sound := by
  intro p hp
  by_cases hlt : p < s.size
  · have hold := (hs p hlt).grown h.toGrown
    rwa [hold.tree_eq]
  · exact (h.holds p (Nat.not_lt.1 hlt) hp).weaken (Nat.zero_le _)

theorem Sound.update (hs : s.Sound) (hp : p < s.size) {f : Shape Place → Shape Place}
    (hnew : ∀ q ∈ (f (s.get p)).children,
      q ∈ (s.get p).children ∨ ∃ low n, p < low ∧ Holds s low q n) :
    (s.update p f).Sound := by
  have hold (q : Place) (n : Node) (h : Holds s 0 q n) :
      Holds (s.update p f) 0 q ((s.update p f).tree q) := by
    induction h with
    | intro q g above inside inner ih =>
      have hread : Holds (s.update p f) 0 q
          ⟨((s.update p f).get q).map (s.update p f).tree⟩ := by
        refine .intro q _ above (by simpa using inside) fun r hr => ?_
        by_cases hq : q = p
        · subst hq
          rw [get_update_self f hp] at hr
          rcases hnew r hr with hr | ⟨low, n, hlow, hn⟩
          · exact ih r hr
          · have hn' : Holds (s.update q f) low r n :=
              hn.congr (by simp) fun x hx _ => get_update_of_ne f (Nat.ne_of_gt (hlow.trans_le hx))
            rw [hn'.tree_eq]
            exact hn'.weaken (Nat.zero_le _)
        · rw [get_update_of_ne f hq] at hr
          exact ih r hr
      rwa [hread.tree_eq]
  intro q hq
  rw [size_update] at hq
  exact hold q _ (hs q hq)

/-- What is read off at a place is what is read off at the places that it leads to. -/
theorem Sound.tree_eq (hs : s.Sound) (hp : p < s.size) : s.tree p = ⟨(s.get p).map s.tree⟩ := by
  have hread : Holds s 0 p ⟨(s.get p).map s.tree⟩ :=
    .intro p _ (Nat.zero_le _) hp fun q hq => hs q (hs.lt_size hq)
  exact hread.tree_eq

end Sound

end PayloadSchema.Extraction.Store
