import PayloadSchema.Proofs.Extraction.Refinement
import PayloadSchema.Proofs.Rules.Outlines
import PayloadSchema.Proofs.Store.Forests

/-!
# Grafting

Whatever an extraction does, a forest stays a forest: every construct is put into a place that is new, or
whose construct waits for it, and a place that does not wait is left alone.
-/

namespace PayloadSchema.Extraction

open Schema

/-! ## Stores that grow -/

/-- A later store, in which a forest is still a forest and no earlier place is used where it was not. -/
structure Store.Grafts (s t : Store) : Prop where
  size_le : s.size ≤ t.size
  forest : s.Forest → t.Forest
  uses : s.Forest → ∀ q < s.size, t.uses q ≤ s.uses q

namespace Store.Grafts

variable {s t u : Store} {p x : Place} {f : Shape Place → Shape Place}

theorem refl (s : Store) : s.Grafts s :=
  ⟨Nat.le_refl _, id, fun _ _ _ => Nat.le_refl _⟩

theorem trans (hst : s.Grafts t) (htu : t.Grafts u) : s.Grafts u := by
  refine ⟨hst.size_le.trans htu.size_le, fun hs => htu.forest (hst.forest hs), fun hs q hq => ?_⟩
  exact (htu.uses (hst.forest hs) q (hq.trans_le hst.size_le)).trans (hst.uses hs q hq)

theorem takeIn (h : s.Grafts t) (hnew : s.size ≤ x) (hx : x < t.size) (hp : p < t.size)
    (hunused : s.Forest → t.uses x = 0)
    (hcount : ∀ q, (f (t.get p)).children.count q ≤ (t.get p).children.count q + [x].count q) :
    s.Grafts (t.update p f) := by
  refine ⟨by simpa using h.size_le, fun hs => ?_, fun hs q hq => ?_⟩
  · exact ((h.forest hs).update hp hx (hunused hs) hcount).1
  · have hne : q ≠ x := Nat.ne_of_lt (hq.trans_le hnew)
    exact (((h.forest hs).update hp hx (hunused hs) hcount).2 q hne).trans (h.uses hs q hq)

theorem change (s : Store) (hp : p < s.size)
    (hcount : ∀ q, (f (s.get p)).children.count q ≤ (s.get p).children.count q) :
    s.Grafts (s.update p f) := by
  have huses (q : Place) : (s.update p f).uses q ≤ s.uses q := by
    have := uses_update hp f q
    have := hcount q
    omega
  refine ⟨by simp, fun hs => ⟨fun q => (huses q).trans (hs.once q), fun q hq => ?_⟩, fun _ q _ => huses q⟩
  rw [size_update] at hq
  exact Nat.eq_zero_of_le_zero ((huses q).trans_eq (hs.inside q hq))

end Store.Grafts

theorem Store.lt_size_push (s : Store) (shape : Shape Place) : s.size < (s.push shape).2.size := by
  rw [Store.size_push]
  exact Nat.lt_succ_self _

/-- A construct without anything inside of it that is pushed is not used. -/
theorem Store.grafts_push_leaf {s : Store} {shape : Shape Place} (hleaf : shape.children = []) :
    s.Grafts (s.push shape).2 ∧ (s.Forest → (s.push shape).2.uses s.size = 0) := by
  have huses (q : Place) : (s.push shape).2.uses q = s.uses q := by
    rw [Store.uses_push, hleaf]
    rfl
  refine ⟨⟨(Store.grown_push s shape).size_le, fun hs => hs.push ?_ ?_, fun _ q _ => (huses q).le⟩,
    fun hs => ?_⟩
  · rw [hleaf]
    exact List.nodup_nil
  · simp [hleaf]
  · rw [huses, hs.inside _ (Nat.le_refl _)]

/-! ## Starts of copies -/

/-- A node that is copied at once: a facet or an attribute wildcard. -/
def Leafy (n : Node) : Prop :=
  (∃ f, n = ⟨.facet f⟩) ∨ ∃ w, n = ⟨.anyAttribute w⟩

/-- What a step does that lays out new places one after the other, all of them for facets and wildcards. -/
def Lays {α : Type} (step : StateM Store α) (post : α → List Place → Prop) : Prop :=
  ∀ s : Store, ∃ k, (step.run s).2.size = s.size + k ∧ s.Grown (step.run s).2 ∧
    (∀ q, (step.run s).2.uses q = s.uses q) ∧
    (∀ q, s.size ≤ q → ((step.run s).2.get q).kind ≠ .attribute) ∧
    post (step.run s).1 (List.range' s.size k)

section Lays

variable {α β : Type} {step : StateM Store α} {next : α → StateM Store β}
  {post : α → List Place → Prop} {after : β → List Place → Prop}

theorem Lays.pure {a : α} (h : post a []) : Lays (pure a) post := by
  refine fun s => ⟨0, rfl, .refl s, fun _ => rfl, fun q hq => ?_, h⟩
  have hget : s.get q = .schemaNode := Store.get_of_size_le hq
  change (s.get q).kind ≠ .attribute
  rw [hget]
  decide

theorem Lays.bind (first : Lays step post)
    (rest : ∀ a ps, post a ps → Lays (next a) fun b qs => after b (ps ++ qs)) :
    Lays (step >>= next) after := by
  intro s
  obtain ⟨k, hsize, hgrown, huses, hnew, hpost⟩ := first s
  obtain ⟨l, hsize', hgrown', huses', hnew', hafter⟩ := rest _ _ hpost (step.run s).2
  refine ⟨k + l, by rw [← Nat.add_assoc, ← hsize]; exact hsize', hgrown.trans hgrown',
    fun q => (huses' q).trans (huses q), fun q hq => ?_, ?_⟩
  · by_cases hq' : q < (step.run s).2.size
    · have hsame := hgrown'.get_eq q hq'
      change ((((next (step.run s).1).run (step.run s).2).2).get q).kind ≠ .attribute
      rw [hsame]
      exact hnew q hq
    · exact hnew' q (Nat.not_lt.1 hq')
  · rw [← List.range'_append_1, ← hsize]
    exact hafter

private theorem lays_leaf {n : Node} (h : Leafy n) :
    Lays (Store.pushTree n) fun p ps => [p] = ps := by
  have hpush (shape : Shape Place) (hleaf : shape.children = []) (hkind : shape.kind ≠ .attribute) :
      Lays (modifyGet (·.push shape)) fun p ps => [p] = ps := by
    refine fun s => ⟨1, Store.size_push s shape, Store.grown_push s shape, fun q => ?_, fun q hq => ?_,
      rfl⟩
    · change (s.push shape).2.uses q = s.uses q
      rw [Store.uses_push, hleaf]
      rfl
    · change ((s.push shape).2.get q).kind ≠ .attribute
      by_cases hlast : q = s.size
      · rwa [hlast, Store.get_push_size]
      · rw [Store.get_of_size_le (by rw [Store.size_push]; omega)]
        decide
  obtain ⟨f, rfl⟩ | ⟨w, rfl⟩ := h
  · exact hpush (.facet f) rfl (by simp [Shape.kind])
  · exact hpush (.anyAttribute w) rfl (by simp [Shape.kind])

private theorem lays_option {o : Option Node} (h : ∀ n ∈ o.toList, Leafy n) :
    Lays (o.mapM Store.pushTree) fun x ps => x.toList = ps := by
  cases o with
  | none => exact .pure rfl
  | some n => exact (lays_leaf (h n (by simp))).bind fun p ps hp => .pure (by simpa using hp)

private theorem lays_list {ns : List Node} (h : ∀ n ∈ ns, Leafy n) :
    Lays (ns.mapM Store.pushTree) fun xs ps => xs = ps := by
  induction ns with
  | nil => exact .pure rfl
  | cons n ns ih =>
    rw [List.mapM_cons]
    refine (lays_leaf (h n (by simp))).bind fun p ps hp => ?_
    refine (ih fun m hm => h m (by simp [hm])).bind fun xs qs hxs => .pure ?_
    simp [← hp, hxs]

/-- The inner constructs are laid out in the order in which a shape lists them, and used by nothing else. -/
private theorem lays_traverse {shape : Shape Node} (hleafy : ∀ n ∈ shape.children, Leafy n) :
    Lays (shape.traverse Store.pushTree) fun own ps => own.children.Perm ps := by
  have hopt (o : Option Node) (ho : o.toList ⊆ shape.children) {β : Type}
      {next : Option Place → StateM Store β} {after : β → List Place → Prop}
      (rest : ∀ x, Lays (next x) fun b qs => after b (x.toList ++ qs)) :
      Lays (o.mapM Store.pushTree >>= next) after :=
    (lays_option fun n hn => hleafy n (ho hn)).bind fun x ps hx => by
      rw [← hx]
      exact rest x
  have hlist (l : List Node) (hl : l ⊆ shape.children) {β : Type}
      {next : List Place → StateM Store β} {after : β → List Place → Prop}
      (rest : ∀ xs, Lays (next xs) fun b qs => after b (xs ++ qs)) :
      Lays (l.mapM Store.pushTree >>= next) after :=
    (lays_list fun n hn => hleafy n (hl hn)).bind fun xs ps hxs => by
      rw [← hxs]
      exact rest xs
  cases shape with
  | schemaNode | facet | anyAttribute | wildcard | attributeRef | attributeGroupRef | groupRef
  | elementRef => exact .pure .nil
  | simpleList i t => exact hopt t (by simp [Shape.children]) fun x => .pure (by simp [Shape.children])
  | simpleType c t => exact hopt t (by simp [Shape.children]) fun x => .pure (by simp [Shape.children])
  | «attribute» c d t => exact hopt t (by simp [Shape.children]) fun x => .pure (by simp [Shape.children])
  | group c p => exact hopt p (by simp [Shape.children]) fun x => .pure (by simp [Shape.children])
  | simpleContent c => exact hopt c (by simp [Shape.children]) fun x => .pure (by simp [Shape.children])
  | complexContent m c => exact hopt c (by simp [Shape.children]) fun x => .pure (by simp [Shape.children])
  | element c d t => exact hopt t (by simp [Shape.children]) fun x => .pure (by simp [Shape.children])
  | simpleUnion ms ts =>
    exact hlist ts (by simp [Shape.children]) fun xs => .pure (by simp [Shape.children])
  | modelGroup k o items =>
    exact hlist items (by simp [Shape.children]) fun xs => .pure (by simp [Shape.children])
  | simpleRestriction b t fs =>
    exact hopt t (by simp [Shape.children]) fun x => hlist fs (by simp [Shape.children]) fun ys =>
      .pure (by simp [Shape.children])
  | attributeGroup c as a =>
    exact hlist as (by simp [Shape.children]) fun xs => hopt a (by simp [Shape.children]) fun y =>
      .pure (by simp [Shape.children])
  | simpleContentExtension b as a =>
    exact hlist as (by simp [Shape.children]) fun xs => hopt a (by simp [Shape.children]) fun y =>
      .pure (by simp [Shape.children])
  | simpleContentRestriction b t fs as a =>
    exact hopt t (by simp [Shape.children]) fun x => hlist fs (by simp [Shape.children]) fun ys =>
      hlist as (fun n hn => by simp [Shape.children, hn]) fun zs =>
      hopt a (fun n hn => List.mem_append_right _ hn) fun y => .pure (by simp [Shape.children])
  | complexDerivation h b p as a =>
    exact hopt p (by simp [Shape.children]) fun x => hlist as (by simp [Shape.children]) fun ys =>
      hopt a (by simp [Shape.children]) fun z => .pure (by simp [Shape.children])
  | complexType c d as a m p =>
    refine hlist as (fun n hn => by simp [Shape.children, hn]) fun xs =>
      hopt a (fun n hn => List.mem_append_right _ hn) fun y =>
      hopt m (by simp [Shape.children]) fun z => hopt p (by simp [Shape.children]) fun v => .pure ?_
    -- here alone the shape lists its inner constructs in another order than they are laid out in
    refine List.perm_iff_count.2 fun q => ?_
    simp only [Shape.children, List.count_append, List.count_nil]
    omega

end Lays

section Outlines

variable {n m : Node} {child : Child} {shape : Shape Node}

private theorem Repeated.leafy (h : Repeated n m) : Leafy m := by
  cases h with
  | facet => exact .inl ⟨_, rfl⟩
  | wildcard => exact .inr ⟨_, rfl⟩

/-- A copy starts with nothing inside of it but facets and a wildcard. -/
private theorem leafy_childOutline (h : child.outline = .ok shape) :
    ∀ m ∈ shape.children, Leafy m := by
  obtain ⟨s, hs, h⟩ := Reader.bind_eq_ok.1 h
  cases h
  have hleafy : ∀ m ∈ s.children, Leafy m := by
    intro m hm
    obtain ⟨n, -, hrepeated⟩ := (outlines_outline hs).children m hm
    exact hrepeated.leafy
  cases child.bounds with
  | none => exact hleafy
  | some o => simpa [Shape.children_eq_parts, parts_withOccurs] using hleafy

private theorem attributeName?_run_traverse (s : Store) :
    ((shape.traverse Store.pushTree).run s).1.attributeName? = shape.attributeName? := by
  cases shape <;> rfl

private theorem attributeName?_childOutline (h : child.outline = .ok shape) (x : String)
    (hx : shape.attributeName? = some x) : child.origin.shape.attributeName? = some x := by
  obtain ⟨s, hs, h⟩ := Reader.bind_eq_ok.1 h
  cases h
  refine (outlines_outline hs).attributeName x ?_
  cases hbounds : child.bounds with
  | none => simpa [hbounds] using hx
  | some o => simpa [hbounds] using hx

end Outlines

/-! ## Edits at a place -/

/-- What is known of the start of the copy of a node at a place that is new. -/
structure Starts (n : Node) (w : Workspace) (p : Place) (w' : Workspace) : Prop where
  grown : w.store.Grown w'.store
  grafts : w.store.Grafts w'.store
  new : w.store.size ≤ p
  inside : p < w'.store.size
  unused : w.store.Forest → w'.store.uses p = 0
  target : w'.target = w.target
  items : ∃ i : WorkItem, i.place = p ∧ w'.items = w.items ++ [i]
  names : ∀ q, w.store.size ≤ q → ∀ x, (w'.store.get q).attributeName? = some x →
    n.shape.attributeName? = some x

/-- What is known of a workspace in which only the construct at one place has been worked on. -/
structure Works (p : Place) (w w' : Workspace) : Prop where
  grafts : w.store.Grafts w'.store
  get_eq : ∀ q < w.store.size, q ≠ p → w'.store.get q = w.store.get q
  kind : (w'.store.get p).kind = (w.store.get p).kind
  target : w'.target = w.target
  items : ∃ new : List WorkItem, w'.items = w.items ++ new ∧
    ∀ i ∈ new, i.place = p ∨ w.store.size ≤ i.place

section Works

variable {c : Context} {path : List ComponentKey} {child : Child} {w w' w'' : Workspace}
  {p q place : Place} {e : Edit} {es : List Edit}

theorem Works.refl (p : Place) (w : Workspace) : Works p w w :=
  ⟨.refl _, fun _ _ _ => rfl, rfl, rfl, [], by simp, by simp⟩

theorem Works.trans (h : Works p w w') (h' : Works p w' w'') : Works p w w'' := by
  obtain ⟨new, hnew, hplaces⟩ := h.items
  obtain ⟨new', hnew', hplaces'⟩ := h'.items
  refine ⟨h.grafts.trans h'.grafts, fun q hq hne => ?_, h'.kind.trans h.kind, h'.target.trans h.target,
    new ++ new', ?_, ?_⟩
  · rw [h'.get_eq q (hq.trans_le h.grafts.size_le) hne, h.get_eq q hq hne]
  · rw [hnew', hnew, List.append_assoc]
  · intro i hi
    rcases List.mem_append.1 hi with hi | hi
    · exact hplaces i hi
    · exact (hplaces' i hi).imp_right h.grafts.size_le.trans

private theorem run_pushShape_eq (shape : Shape Node) (s : Store) : (Store.pushShape shape).run s =
    ((shape.traverse Store.pushTree).run s).2.push ((shape.traverse Store.pushTree).run s).1 := rfl

/-- A construct that is laid out with its inner constructs is used by nothing, and they by nothing else. -/
private theorem grafts_pushShape {shape : Shape Node} (hleafy : ∀ n ∈ shape.children, Leafy n) (s : Store)
    {p : Place} {s' : Store} (hp : ((Store.pushShape shape).run s).1 = p)
    (hs' : ((Store.pushShape shape).run s).2 = s') :
    s.Grown s' ∧ s.Grafts s' ∧ s.size ≤ p ∧ p < s'.size ∧ (s.Forest → s'.uses p = 0) := by
  obtain ⟨k, hsize, hgrown, huses, -, hperm⟩ := lays_traverse hleafy s
  rw [run_pushShape_eq] at hp hs'
  generalize (shape.traverse Store.pushTree).run s = laid at hp hs' hsize hgrown huses hperm
  obtain ⟨own, t⟩ := laid
  subst hp hs'
  have hinside : ∀ q ∈ own.children, s.size ≤ q ∧ q < t.size := by
    intro q hq
    have hrange := hperm.subset hq
    rw [List.mem_range'_1] at hrange
    exact ⟨hrange.1, hrange.2.trans_eq hsize.symm⟩
  have huses' (q : Place) (hq : q ∉ own.children) : (t.push own).2.uses q = s.uses q := by
    rw [Store.uses_push, List.count_eq_zero_of_not_mem hq, huses, Nat.add_zero]
  have hforest (hs : s.Forest) : t.Forest :=
    ⟨fun q => (huses q).trans_le (hs.once q),
      fun q hq => (huses q).trans (hs.inside q (hgrown.size_le.trans hq))⟩
  refine ⟨hgrown.trans (Store.grown_push t own), ⟨?_, fun hs => ?_, fun _ q hq => ?_⟩, hgrown.size_le,
    by simp, fun hs => ?_⟩
  · exact hgrown.size_le.trans (Store.grown_push t own).size_le
  · refine (hforest hs).push (hperm.nodup_iff.2 List.nodup_range') fun q hq => ⟨(hinside q hq).2, ?_⟩
    rw [huses, hs.inside q (hinside q hq).1]
  · rw [huses' q fun hmem => Nat.not_le.2 hq (hinside q hmem).1]
  · have hnot : t.size ∉ own.children := fun hmem => Nat.lt_irrefl _ (hinside _ hmem).2
    exact (huses' _ hnot).trans (hs.inside _ hgrown.size_le)

/-- No new construct but the one that is laid out can be an attribute. -/
private theorem attributeName?_pushShape {shape : Shape Node} (hleafy : ∀ n ∈ shape.children, Leafy n) {s s' : Store}
    (hs' : ((Store.pushShape shape).run s).2 = s') {q : Place} (hq : s.size ≤ q) {x : String}
    (hx : (s'.get q).attributeName? = some x) : shape.attributeName? = some x := by
  obtain ⟨k, -, -, -, hlaid, -⟩ := lays_traverse hleafy s
  have hname : _ = shape.attributeName? := attributeName?_run_traverse s
  rw [run_pushShape_eq] at hs'
  generalize (shape.traverse Store.pushTree).run s = laid at hs' hlaid hname
  obtain ⟨own, t⟩ := laid
  subst hs'
  rcases Nat.lt_trichotomy q t.size with hlt | rfl | hlt
  · rw [Store.get_push_lt hlt] at hx
    exact absurd (Shape.kind_of_attributeName? hx) (hlaid q hq)
  · rw [Store.get_push_size] at hx
    exact hname.symm.trans hx
  · rw [Store.get_of_size_le (by rw [Store.size_push]; exact hlt)] at hx
    cases hx

theorem starts_create (h : (create c path child).runIn w = (.ok p, w')) :
    Starts child.origin w p w' := by
  obtain ⟨shape, inside, houtline, -, rfl, rfl⟩ := runIn_create_eq_ok h
  have hleafy := leafy_childOutline houtline
  obtain ⟨hgrown, hgrafts, hnew, hinside, hunused⟩ := grafts_pushShape hleafy w.store rfl rfl
  exact ⟨hgrown, hgrafts, hnew, hinside, hunused, rfl, ⟨⟨_, child.origin, inside⟩, rfl, by simp [Workspace.items]⟩,
    fun q hq x hx => attributeName?_childOutline houtline x (attributeName?_pushShape hleafy rfl hq hx)⟩

/-- Two copies that have been started one after the other are the items of a new sequence. -/
private theorem starts_sequence {n m : Node} {a b : Place} (ha : Starts n w a w') (hb : Starts m w' b w'') :
    w.store.Grafts (w''.store.push (.modelGroup .sequence .once [a, b])).2 ∧
      (w.store.Forest →
        (w''.store.push (.modelGroup .sequence .once [a, b])).2.uses w''.store.size = 0) := by
  have hlt : a < w''.store.size := ha.inside.trans_le hb.grown.size_le
  have huses (q : Place) (hqa : q ≠ a) (hqb : q ≠ b) :
      (w''.store.push (.modelGroup .sequence .once [a, b])).2.uses q = w''.store.uses q := by
    rw [Store.uses_push]
    simp [Shape.children, List.count_eq_zero_of_not_mem, hqa, hqb]
  refine ⟨⟨?_, fun hs => ?_, fun hs q hq => ?_⟩, fun hs => ?_⟩
  · exact (ha.grown.trans hb.grown).size_le.trans (Store.grown_push _ _).size_le
  · have hs' := ha.grafts.forest hs
    refine (hb.grafts.forest hs').push ?_ fun q hq => ?_
    · simpa [Shape.children] using Nat.ne_of_lt (ha.inside.trans_le hb.new)
    · simp only [Shape.children, List.mem_cons, List.not_mem_nil, or_false] at hq
      rcases hq with rfl | rfl
      · exact ⟨hlt, Nat.eq_zero_of_le_zero
          ((hb.grafts.uses hs' _ ha.inside).trans_eq (ha.unused hs))⟩
      · exact ⟨hb.inside, hb.unused hs'⟩
  · rw [huses q (Nat.ne_of_lt (hq.trans_le ha.new))
      (Nat.ne_of_lt (hq.trans_le (ha.grown.size_le.trans hb.new)))]
    exact (ha.grafts.trans hb.grafts).uses hs q hq
  · rw [huses _ (Nat.ne_of_gt hlt) (Nat.ne_of_gt hb.inside)]
    exact ((ha.grafts.trans hb.grafts).forest hs).inside _ (Nat.le_refl _)

/-- The construct at a place takes in the copy that has been started last. -/
private theorem works_takeIn {f : Shape Place → Shape Place} (hp : p < w.store.size)
    (hgrown : w.store.Grown w'.store) (hgrafts : w.store.Grafts w'.store) (htarget : w'.target = w.target)
    (hitems : ∃ new : List WorkItem, w'.items = w.items ++ new ∧
      ∀ i ∈ new, i.place = p ∨ w.store.size ≤ i.place)
    (hnew : w.store.size ≤ q) (hq : q < w'.store.size)
    (hunused : w.store.Forest → w'.store.uses q = 0)
    (hkind : (f (w'.store.get p)).kind = (w'.store.get p).kind)
    (hcount : ∀ x, (f (w'.store.get p)).children.count x ≤
      (w'.store.get p).children.count x + [q].count x) :
    Works p w { w' with store := w'.store.update p f } := by
  have hp' : p < w'.store.size := hp.trans_le hgrown.size_le
  refine ⟨hgrafts.takeIn hnew hq hp' hunused hcount, fun x hx hne => ?_, ?_, htarget, hitems⟩
  · change (w'.store.update p f).get x = w.store.get x
    rw [Store.get_update_of_ne f hne, hgrown.get_eq x hx]
  · change ((w'.store.update p f).get p).kind = (w.store.get p).kind
    rw [Store.get_update_self f hp', hkind, hgrown.get_eq p hp]

theorem works_perform (hp : p < w.store.size) (h : (perform c path p e).runIn w = (.ok (), w')) :
    Works p w w' := by
  cases e with
  | attach slot child =>
    obtain ⟨place, w₁, hcreate, hupdate⟩ := Work.runIn_bind_eq_ok.1 h
    have hstarts := starts_create hcreate
    obtain ⟨i, hi, hitems⟩ := hstarts.items
    cases hupdate
    exact works_takeIn hp hstarts.grown hstarts.grafts hstarts.target
      ⟨[i], hitems, by simpa [hi] using .inr hstarts.new⟩ hstarts.new hstarts.inside hstarts.unused
      (Slot.kind_fill place slot _) fun x => Store.count_fill_le slot
  | attachSequence first second =>
    obtain ⟨a, w₁, hfirst, h⟩ := Work.runIn_bind_eq_ok.1 h
    obtain ⟨b, w₂, hsecond, h⟩ := Work.runIn_bind_eq_ok.1 h
    cases h
    have ha := starts_create hfirst
    have hb := starts_create hsecond
    obtain ⟨hgrafts, hunused⟩ := starts_sequence ha hb
    obtain ⟨i, hi, hitems⟩ := ha.items
    obtain ⟨j, hj, hitems'⟩ := hb.items
    have hboth : w₂.items = w.items ++ [i, j] := by simp [hitems', hitems]
    exact works_takeIn hp ((ha.grown.trans hb.grown).trans (Store.grown_push _ _)) hgrafts
      (hb.target.trans ha.target)
      ⟨[i, j], hboth, by simpa [hi, hj] using
        ⟨.inr ha.new, .inr (ha.grown.size_le.trans hb.new)⟩⟩
      (ha.grown.trans hb.grown).size_le (Store.lt_size_push _ _) hunused
      (Slot.kind_fill _ .particle _) fun x => Store.count_fill_le .particle
  | discard child =>
    obtain ⟨place, w₁, hcreate, hpure⟩ := Work.runIn_bind_eq_ok.1 h
    have hstarts := starts_create hcreate
    obtain ⟨i, hi, hitems⟩ := hstarts.items
    cases hpure
    exact ⟨hstarts.grafts, fun q hq _ => hstarts.grown.get_eq q hq,
      congrArg Shape.kind (hstarts.grown.get_eq p hp), hstarts.target, [i], hitems,
      by simpa [hi] using .inr hstarts.new⟩
  | follow n =>
    rw [perform, runIn_schedule] at h
    split at h
    · rename_i inside _
      cases h
      exact ⟨.refl _, fun _ _ _ => rfl, rfl, rfl, [⟨p, n, inside⟩], by simp [Workspace.items], by simp⟩
    · cases h
  | change change =>
    cases h
    refine ⟨.change _ hp fun q => Store.count_change_le change, fun q _ hne => ?_, ?_, rfl, [], ?_, by simp⟩
    · exact Store.get_update_of_ne _ hne
    · change ((w.store.update p change.apply).get p).kind = (w.store.get p).kind
      rw [Store.get_update_self _ hp, Change.kind_apply]
    · simp [Workspace.items]
  | wildcard wild =>
    cases h
    have hleaf : (Shape.anyAttribute wild : Shape Place).children = [] := rfl
    obtain ⟨hgrafts, hunused⟩ := Store.grafts_push_leaf (s := w.store) hleaf
    exact works_takeIn hp (Store.grown_push _ _) hgrafts rfl ⟨[], by simp [Workspace.items], by simp⟩
      (Nat.le_refl _) (Store.lt_size_push _ _) hunused (Shape.kind_withAny _ _) fun x => Store.count_withAny_le
  | warn text =>
    cases h
    exact ⟨.refl _, fun _ _ _ => rfl, rfl, rfl, [], by simp [Workspace.items], by simp⟩
  | stop f => cases h

theorem works_performAll (hp : p < w.store.size)
    (h : (performAll c path p es).runIn w = (.ok (), w')) : Works p w w' := by
  induction es generalizing w with
  | nil =>
    cases h
    exact .refl p _
  | cons e es ih =>
    rw [performAll_cons, Work.runIn_bind_eq_ok] at h
    obtain ⟨_, w₁, hperform, h⟩ := h
    have hfirst := works_perform hp hperform
    exact hfirst.trans (ih (hp.trans_le hfirst.grafts.size_le) h)

end Works

/-! ## Draining -/

/-- What is known after a drain: a forest is still a forest, and a place that nothing waited for is as it
was. -/
structure Rests (w w' : Workspace) : Prop where
  grafts : w.store.Grafts w'.store
  get_eq : ∀ q < w.store.size, w.Free q → w'.store.get q = w.store.get q
  target : w'.target = w.target

section Drain

variable {c : Context} {w w' : Workspace}

theorem rests_drainWithin {budget : Nat} (hw : w.Sound)
    (h : (drainWithin c budget).runIn w = (.ok (), w')) : Rests w w' := by
  have hsame (w : Workspace) : Rests w w := ⟨.refl _, fun _ _ _ => rfl, rfl⟩
  induction budget generalizing w with
  | zero =>
    rcases runIn_drainWithin w with ⟨-, hrun⟩ | ⟨_, _, _, -, -, -, hrun⟩
    · rw [hrun] at h
      cases h
      exact hsame _
    · rw [hrun] at h
      cases h
  | succ budget ih =>
    rcases runIn_drainWithin w with ⟨-, hrun⟩ | ⟨item, rest, q, hitems, hq, -, hrun⟩
    · rw [hrun] at h
      cases h
      exact hsame _
    · rw [hrun, Work.runIn_bind_eq_ok] at h
      obtain ⟨_, w₁, hhandle, h⟩ := h
      have hsound := (refines_handle hw hitems hq hhandle).1
      have hrest := ih hsound h
      rw [runIn_handle] at hhandle
      have hworks : Works item.place (w.taken q) w₁ := works_performAll (hw.inside item (by simp [hitems])) hhandle
      refine ⟨hworks.grafts.trans hrest.grafts, fun x hx hfree => ?_, hrest.target.trans hworks.target⟩
      have hne : x ≠ item.place := (hfree item (by simp [hitems])).symm
      rw [hrest.get_eq x (hx.trans_le hworks.grafts.size_le) fun i hi => ?_, hworks.get_eq x hx hne]
      · rfl
      · obtain ⟨new, hnew, hplaces⟩ := hworks.items
        have htaken : (w.taken q).items = rest := hq
        rw [hnew, htaken] at hi
        rcases List.mem_append.1 hi with hi | hi
        · exact hfree i (by simp [hitems, hi])
        · rcases hplaces i hi with hplace | hplace
          · exact hplace ▸ hne.symm
          · exact Nat.ne_of_gt (hx.trans_le hplace)

theorem rests_drain (hw : w.Sound) (h : (drain c).runIn w = (.ok (), w')) : Rests w w' := by
  rw [drain, Work.runIn_bind_of_ok (Work.runIn_get w)] at h
  exact rests_drainWithin hw h

end Drain

end PayloadSchema.Extraction
