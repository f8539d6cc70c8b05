import PayloadSchema.Proofs.Extraction.AttributeOrigins

/-!
# Elements are gathered

Components of a source are asked for one after the other, and constructs are put around what stands nowhere
yet.  What is known of the elements before the queue is drained is kept by each of these steps.
-/

namespace PayloadSchema.Extraction

open Schema Copying

/-! ## Names of copies -/

section Names

variable {α : Type} {c : Context} {path : List ComponentKey} {n : Node} {shape r : Shape Node}
  {seed : Seed}

@[simp] theorem component?_fill (x : α) (slot : Slot) (s : Shape α) :
    (slot.fill x s).component? = s.component? := by
  cases slot <;> cases s <;> rfl

/-- A type does not name the construct that it is the type of. -/
theorem component?_typeEdits {simpleOnly : Bool} {q : Option QName} {own : Option Node}
    (h : (inlineEdits c path (typeEdits c.source simpleOnly q own) shape).Gives r) :
    r.component? = shape.component? := by
  obtain ⟨q', rfl⟩ | ⟨m, rfl⟩ := typeEdits_cases h
  · cases shape <;> rfl
  · exact component?_fill _ _ _

/-- The copy of an element keeps the name of its place, also where it takes from the head of a group. -/
theorem component?_inlineNode (hs : c.source.Proper) (hn : n.Proper) (hkind : n.shape.kind = .element)
    (h : (inlineNode c path n shape).Gives r) : r.component? = shape.component? := by
  induction hd : depth c.source path n using WellFoundedLT.induction generalizing path n shape with
  | ind d ih =>
    subst hd
    obtain ⟨s⟩ := n
    cases s with
    | element own d type =>
      rw [inlineNode] at h
      change (inlineEdits c path (elementEdits c.source shape.kind d type) shape).Gives r at h
      rw [elementEdits] at h
      cases hhead : d.substitutionGroup with
      | none =>
        rw [hhead] at h
        exact component?_typeEdits h
      | some q =>
        simp only [hhead] at h
        cases hfind : c.source.find? .elements (some q) with
        | none =>
          rw [hfind] at h
          simp only [Edit.fail, inlineEdits_stop] at h
          exact absurd h gives_throw
        | some head =>
          obtain ⟨own', d', type', rfl⟩ := (hs.find hfind).2.element
          have hdesc : Descends c.source ⟨.element own d type⟩ _ ⟨.element own' d' type'⟩ :=
            descends_found hs hfind (by simp) fun a ha =>
              ha.reaches (by simp [Node.shape, Shape.references, hhead])
          simp only [hfind, followEdits, Node.shape] at h
          split at h
          · rw [inlineEdits_change] at h
            obtain ⟨inside, henter, s, hs', h⟩ := gives_follow.1 h
            rw [inlineEdits_nil, gives_pure] at h
            subst h
            rw [ih _ (depth_lt hdesc henter) hdesc.proper rfl hs' rfl]
            cases shape <;> rfl
          · rw [inlineEdits_stop] at h
            exact absurd h gives_throw
    | modelGroup order _ _ => cases order <;> cases hkind
    | complexDerivation how _ _ _ _ => cases how <;> cases hkind
    | _ => cases hkind

theorem Seed.component?_inline (hs : c.source.Proper) (hseed : seed.IsFrom c.source)
    (h : (seed.inline c).Gives n) : n.shape.component? = some ⟨seed.name, seed.topLevel⟩ := by
  obtain ⟨r, hr, hn⟩ := gives_bind.1 h
  rw [gives_pure] at hn
  subst hn
  have hproper := hseed.proper hs
  cases seed with
  | element n topLevel =>
    obtain ⟨s⟩ := n
    obtain ⟨own, d, type, rfl⟩ := Shape.exists_of_kind_element hseed.2
    have hedits : Seed.edits (.element ⟨.element own d type⟩ topLevel) =
        [.change (.element d), .follow ⟨.element own d type⟩] := rfl
    rw [hedits, inlineEdits_change] at hr
    obtain ⟨inside, -, s, hs', hr⟩ := gives_follow.1 hr
    rw [inlineEdits_nil, gives_pure] at hr
    subst hr
    exact component?_inlineNode hs hproper rfl hs'
  | type name n topLevel =>
    rw [Seed.edits] at hr
    obtain ⟨m, -, hr⟩ := gives_attach.1 hr
    rw [inlineEdits_nil, gives_pure] at hr
    rw [← hr]
    rfl

end Names

/-! ## Places that are added -/

/-- A place that does not stand in any construct. -/
structure Store.Loose (s : Store) (p : Place) : Prop where
  inside : p < s.size
  unused : s.uses p = 0

/-- A later workspace with more places, the earlier of which are as they were and wait for nothing new.  None
but the given ones of the earlier places stands in a new construct. -/
structure Adds (used : List Place) (w w' : Workspace) : Prop where
  grown : w.store.Grown w'.store
  loose : ∀ q, w.store.Loose q → q ∉ used → w'.store.Loose q
  items : ∃ new : List WorkItem, w'.items = w.items ++ new ∧ ∀ i ∈ new, w.store.size ≤ i.place

section Adds

variable {used used' : List Place} {w w' w'' : Workspace} {p : Place}

theorem Adds.refl (w : Workspace) : Adds [] w w :=
  ⟨.refl _, fun _ hq _ => hq, [], by simp, by simp⟩

theorem Adds.trans (h : Adds used w w') (h' : Adds used' w' w'') : Adds (used ++ used') w w'' := by
  obtain ⟨new, hnew, hplaces⟩ := h.items
  obtain ⟨new', hnew', hplaces'⟩ := h'.items
  refine ⟨h.grown.trans h'.grown, fun q hq hnot => ?_, new ++ new', ?_, fun i hi => ?_⟩
  · rw [List.mem_append, not_or] at hnot
    exact h'.loose q (h.loose q hq hnot.1) hnot.2
  · rw [hnew', hnew, List.append_assoc]
  · rcases List.mem_append.1 hi with hi | hi
    · exact hplaces i hi
    · exact h.grown.size_le.trans (hplaces' i hi)

theorem Adds.weaken (h : Adds used w w') (hused : ∀ q ∈ used, q < w.store.size → q ∈ used') :
    Adds used' w w' :=
  ⟨h.grown, fun q hq hnot => h.loose q hq fun hmem => hnot (hused q hmem hq.inside), h.items⟩

theorem Adds.free (h : Adds used w w') (hp : p < w.store.size) (hfree : w.Free p) : w'.Free p := by
  obtain ⟨new, hnew, hplaces⟩ := h.items
  intro i hi
  rw [hnew] at hi
  rcases List.mem_append.1 hi with hi | hi
  · exact hfree i hi
  · exact Nat.ne_of_gt (hp.trans_le (hplaces i hi))

end Adds

/-! ## What is gathered -/

/-- What is known of a workspace while elements are gathered in it, some of which have been asked for from a
source. -/
structure Gathers (c : Context) (asked : List (Seed × Place)) (w : Workspace) : Prop where
  tracks : Tracks c w (asked.map (·.1)) (asked.map (·.2))
  sources : ∀ a ∈ asked, a.1.IsFrom c.source
  traced : w.Traced c.source
  forest : w.store.Forest
  borrows : w.store.Borrows c.source

def Workspace.pushed (w : Workspace) (shape : Shape Place) (target : SchemaOf Place) : Workspace :=
  { w with store := (w.store.push shape).2, target := target }

section Gathers

variable {c : Context} {asked : List (Seed × Place)} {w w' : Workspace} {seed : Seed} {root : Place}
  {shape : Shape Place}

theorem gathers_ofForms (c : Context) (space elementForm attributeForm : String) :
    Gathers c [] (.ofForms space elementForm attributeForm) := by
  refine ⟨tracks_ofSchema c (.empty space elementForm attributeForm), by simp, ?_, Store.forest_empty,
    fun p x hx => ?_⟩
  · intro i hi
    cases hi
  · have hnone : Store.empty.get p = .schemaNode := Store.get_of_size_le (Nat.zero_le _)
    change (Store.empty.get p).attributeName? = some x at hx
    rw [hnone] at hx
    cases hx

theorem Gathers.push (h : Gathers c asked w) (shape : Shape Place) (target : SchemaOf Place)
    (hname : shape.attributeName? = none) (hnodup : shape.children.Nodup)
    (hloose : ∀ q ∈ shape.children, w.store.Loose q) :
    Gathers c asked (w.pushed shape target) ∧ Adds shape.children w (w.pushed shape target) ∧
      (w.pushed shape target).store.Loose w.store.size := by
  have hgrown := Store.grown_push w.store shape
  have hinside : ∀ q ∈ shape.children, q < w.store.size := fun q hq => (hloose q hq).inside
  have huses (q : Place) (hq : q ∉ shape.children) :
      (w.pushed shape target).store.uses q = w.store.uses q := by
    change (w.store.push shape).2.uses q = w.store.uses q
    rw [Store.uses_push, List.count_eq_zero_of_not_mem hq, Nat.add_zero]
  have hsound := h.tracks.sound.push hinside
  have hrefines := refines_push h.tracks.sound.store hinside
    (Workspace.todo_of_free (c := c) (h.tracks.sound.free_of_size_le (Nat.le_refl _)))
  refine ⟨⟨⟨⟨hsound.store, hsound.inside, hsound.nodup⟩, h.tracks.represents.refines hrefines⟩,
    h.sources, fun i hi => ?_, ?_, ?_⟩, ⟨hgrown, fun q hq hnot => ?_, [], ?_, by simp⟩, ?_, ?_⟩
  · obtain ⟨htraced, hawaits⟩ := h.traced i hi
    exact ⟨htraced, hawaits.keeps hgrown.keeps⟩
  · exact h.forest.push hnodup fun q hq => ⟨hinside q hq, (hloose q hq).unused⟩
  · exact borrows_push h.borrows (by simp [hname])
  · exact ⟨hq.inside.trans_le hgrown.size_le, by rw [huses q hnot, hq.unused]⟩
  · simp [Workspace.items, Workspace.pushed]
  · exact Store.lt_size_push _ _
  · rw [huses _ fun hmem => Nat.lt_irrefl _ (hinside _ hmem), h.forest.inside _ (Nat.le_refl _)]

theorem Gathers.register (hs : c.source.Proper) (h : Gathers c asked w)
    (hseed : seed.IsFrom c.source) (hrun : (seed.register c).runIn w = (.ok root, w')) :
    Gathers c (asked ++ [(seed, root)]) w' ∧ Adds [] w w' ∧ w'.store.Loose root ∧
      w.store.size ≤ root ∧
      w'.target = if seed.topLevel then w.target.put .elements seed.name root else w.target := by
  have htracks := h.tracks.register hseed.hasName hrun
  obtain ⟨w'', hregister, htarget, htraced⟩ := register_spec hs hseed w
  cases hrun.symm.trans hregister
  rw [Seed.runIn_register hseed.hasName] at hrun
  obtain ⟨_, w₁, hedits, hpure⟩ := Work.runIn_bind_eq_ok.1 hrun
  cases hpure
  obtain ⟨hasked, hcopies⟩ := hseed.asked hs
  have hleaf : (seed.blank c : Shape Place).children = [] := Seed.children_blank
  have hgrown := Store.grown_push w.store (seed.blank c)
  obtain ⟨hgrafts, hunused⟩ := Store.grafts_push_leaf (s := w.store) hleaf
  have hlt : w.store.size < (seed.begun c w).store.size := Store.lt_size_push _ _
  have hworks := works_performAll hlt hedits
  have hborrows : (seed.begun c w).store.Borrows c.source :=
    borrows_push h.borrows (by cases seed <;> simp [Seed.blank, blankElement, Shape.attributeName?])
  have hgrown' : w.store.Grown w'.store := by
    refine ⟨hgrown.size_le.trans hworks.grafts.size_le, fun q hq => ?_⟩
    rw [hworks.get_eq q (hq.trans hlt) (Nat.ne_of_lt hq)]
    exact hgrown.get_eq q hq
  have hforest := h.forest
  refine ⟨⟨?_, ?_, htraced h.traced, hworks.grafts.forest (hgrafts.forest hforest), ?_⟩,
    ⟨hgrown', fun q hq _ => ?_, ?_⟩, ⟨hlt.trans_le hworks.grafts.size_le, ?_⟩, Nat.le_refl _, htarget⟩
  · simpa using htracks
  · intro a ha
    rcases List.mem_append.1 ha with ha | ha
    · exact h.sources a ha
    · obtain rfl := List.mem_singleton.1 ha
      exact hseed
  · refine borrows_performAll hlt hborrows (fun a ha => (hcopies a ha).2.1) (fun change hmem => ?_) hedits
    cases seed with
    | element n topLevel =>
      obtain ⟨s⟩ := n
      obtain ⟨own, d, type, rfl⟩ := Shape.exists_of_kind_element hseed.2
      have hfollow : Seed.edits (.element ⟨.element own d type⟩ topLevel) =
          [.change (.element d), .follow ⟨.element own d type⟩] := rfl
      rw [hfollow] at hmem
      simp only [List.mem_cons, Edit.change.injEq, reduceCtorEq, List.not_mem_nil, or_false] at hmem
      rw [hmem]
      trivial
    | type name n topLevel => simp [Seed.edits] at hmem
  · refine ⟨hq.inside.trans_le hgrown'.size_le, Nat.eq_zero_of_le_zero ?_⟩
    have huses := hworks.grafts.uses (hgrafts.forest hforest) q (hq.inside.trans hlt)
    exact (huses.trans (hgrafts.uses hforest q hq.inside)).trans_eq hq.unused
  · obtain ⟨new, hnew, hplaces⟩ := hworks.items
    refine ⟨new, hnew, fun i hi => ?_⟩
    rcases hplaces i hi with hplace | hplace
    · exact hplace.ge
    · exact hlt.le.trans hplace
  · exact Nat.eq_zero_of_le_zero
      ((hworks.grafts.uses (hgrafts.forest hforest) _ hlt).trans_eq (hunused hforest))

end Gathers

end PayloadSchema.Extraction
