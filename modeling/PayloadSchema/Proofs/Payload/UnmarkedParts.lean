import PayloadSchema.Proofs.Payload.Layout

/-!
# What a mark leaves alone

A mark changes one construct.  It adds an attribute to it, or it is the marked element, which gets another
type where its own one is not complex.  Names, kinds, model groups and the content of complex types stay.
-/

namespace PayloadSchema.Extraction.Store

open Schema

/-- A later store in which constructs have the names and kinds that they had, complex types and elements of
complex types have the content that they had, and model groups are as they were. -/
structure Spares (s s' : Store) : Prop where
  size_le : s.size ≤ s'.size
  component : ∀ q < s.size, (s'.get q).component? = (s.get q).component?
  kind : ∀ q < s.size, (s'.get q).kind = (s.get q).kind
  group : ∀ {q order bounds items}, q < s.size → s.get q = .modelGroup order bounds items →
    s'.get q = s.get q
  type : ∀ {q c d attributes any model particle}, q < s.size →
    s.get q = .complexType c d attributes any model particle →
    ∃ attributes', s'.get q = .complexType c d attributes' any model particle
  element : ∀ {q c d t}, q < s.size → s.get q = .element c d (some t) →
    (s.get t).kind = .complexType → s'.get q = s.get q

def pushAll (s : Store) (shapes : List (Shape Place)) : Store :=
  shapes.foldl (fun s shape => (s.push shape).2) s

theorem grown_pushAll (s : Store) (shapes : List (Shape Place)) : s.Grown (s.pushAll shapes) := by
  induction shapes generalizing s with
  | nil => exact .refl s
  | cons shape shapes ih => exact (grown_push s shape).trans (ih _)

theorem size_pushAll (s : Store) (shapes : List (Shape Place)) : (s.pushAll shapes).size = s.size + shapes.length := by
  induction shapes generalizing s with
  | nil => rfl
  | cons shape shapes ih =>
    calc (s.pushAll (shape :: shapes)).size
      _ = ((s.push shape).2.pushAll shapes).size := rfl
      _ = s.size + 1 + shapes.length := by rw [ih, size_push]
      _ = s.size + (shape :: shapes).length := by rw [List.length_cons, Nat.add_right_comm, Nat.add_assoc]

theorem get_pushAll (s : Store) {shapes : List (Shape Place)} {i : Nat} {shape : Shape Place}
    (h : shapes[i]? = some shape) : (s.pushAll shapes).get (s.size + i) = shape := by
  induction shapes generalizing s i with
  | nil => cases h
  | cons first shapes ih =>
    cases i with
    | zero =>
      obtain rfl : first = shape := by simpa using h
      rw [Nat.add_zero, pushAll, List.foldl_cons, ← pushAll,
        (grown_pushAll _ shapes).get_eq _ (by simp), get_push_size]
    | succ i =>
      have hnext := ih (s.push first).2 (by simpa using h)
      rwa [size_push, Nat.add_assoc, Nat.add_comm 1] at hnext

section Spares

variable {s s' s'' : Store} {p x note : Place} {f : Shape Place → Shape Place}

theorem lt_size_of_kind (h : (s.get p).kind ≠ .schemaNode) : p < s.size := by
  by_contra hle
  rw [get_of_size_le (Nat.not_lt.1 hle)] at h
  exact h rfl

theorem Spares.trans (h : s.Spares s') (h' : s'.Spares s'') : s.Spares s'' where
  size_le := h.size_le.trans h'.size_le
  component q hq := by rw [h'.component q (hq.trans_le h.size_le), h.component q hq]
  kind q hq := by rw [h'.kind q (hq.trans_le h.size_le), h.kind q hq]
  group hq hget := by
    have hsame := h.group hq hget
    rw [h'.group (hq.trans_le h.size_le) (hsame.trans hget), hsame]
  type hq hget := by
    obtain ⟨attributes', hget'⟩ := h.type hq hget
    exact h'.type (hq.trans_le h.size_le) hget'
  element {q c d t} hq hget htype := by
    have hsame := h.element hq hget htype
    have ht : t < s.size := lt_size_of_kind (by rw [htype]; decide)
    rw [h'.element (hq.trans_le h.size_le) (hsame.trans hget) (by rw [h.kind t ht, htype]), hsame]

theorem Grown.spares (h : s.Grown s') : s.Spares s' where
  size_le := h.size_le
  component q hq := by rw [h.get_eq q hq]
  kind q hq := by rw [h.get_eq q hq]
  group hq _ := h.get_eq _ hq
  type hq hget := ⟨_, by rw [h.get_eq _ hq, hget]⟩
  element hq _ _ := h.get_eq _ hq

private theorem spares_update (hcomponent : (f (s.get x)).component? = (s.get x).component?)
    (hkind : (f (s.get x)).kind = (s.get x).kind)
    (hgroup : ∀ order bounds items, s.get x = .modelGroup order bounds items → f (s.get x) = s.get x)
    (htype : ∀ c d attributes any model particle,
      s.get x = .complexType c d attributes any model particle →
      ∃ attributes', f (s.get x) = .complexType c d attributes' any model particle)
    (helement : ∀ c d t, s.get x = .element c d (some t) → (s.get t).kind = .complexType →
      f (s.get x) = s.get x) : s.Spares (s.update x f) := by
  have hself (q : Place) (hq : q < s.size) (heq : q = x) : (s.update x f).get q = f (s.get x) := by
    subst heq
    exact get_update_self f hq
  refine ⟨by simp, fun q hq => ?_, fun q hq => ?_, fun {q _ _ _} hq hget => ?_,
    fun {q _ _ _ _ _ _} hq hget => ?_, fun {q _ _ _} hq hget ht => ?_⟩ <;> by_cases heq : q = x
  · rw [hself q hq heq, hcomponent, heq]
  · rw [get_update_of_ne f heq]
  · rw [hself q hq heq, hkind, heq]
  · rw [get_update_of_ne f heq]
  · rw [hself q hq heq, heq]
    exact hgroup _ _ _ (heq ▸ hget)
  · rw [get_update_of_ne f heq]
  · rw [hself q hq heq]
    exact htype _ _ _ _ _ _ (heq ▸ hget)
  · exact ⟨_, by rw [get_update_of_ne f heq, hget]⟩
  · rw [hself q hq heq, heq]
    exact helement _ _ _ (heq ▸ hget) ht
  · rw [get_update_of_ne f heq]

theorem spares_addAttribute : s.Spares (s.update x (·.addAttribute note)) := by
  refine spares_update ?_ (Shape.kind_addAttribute _ _) ?_ ?_ ?_
  · cases s.get x <;> rfl
  · rintro _ _ _ hget
    rw [hget]
    rfl
  · rintro _ _ attributes _ _ _ hget
    rw [hget]
    exact ⟨attributes ++ [note], rfl⟩
  · rintro _ _ _ hget _
    rw [hget]
    rfl

theorem spares_element {c : Component} {d : ElementDecl} {own : Option Place}
    (hget : s.get x = .element c d own) (hown : ∀ t ∈ own, (s.get t).kind ≠ .complexType)
    (hf : ∃ d' own', f (s.get x) = .element c d' own') : s.Spares (s.update x f) := by
  obtain ⟨d', own', hf⟩ := hf
  refine spares_update ?_ ?_ ?_ ?_ ?_
  · rw [hf, hget]
    rfl
  · rw [hf, hget]
    rfl
  · rintro _ _ _ hget'
    cases hget.symm.trans hget'
  · rintro _ _ _ _ _ _ hget'
    cases hget.symm.trans hget'
  · rintro _ _ t hget' ht
    cases hget.symm.trans hget'
    exact absurd ht (hown t rfl)

end Spares

end PayloadSchema.Extraction.Store

namespace PayloadSchema.Payload

open Schema Extraction

/-! ## Marks -/

def wrapped (s : Store) (p t : Place) (name space : String) : Store :=
  let n := s.size
  (s.pushAll [marker space, Slot.type.fill t (blankElement (some (name ++ valueSuffix)) false none),
    .modelGroup .sequence .once [n + 1], plainType [n] none (some (n + 2))]).update p
      (·.withOwnType (some (n + 3)))

def extended (s : Store) (p : Place) (base : QName) (space : String) : Store :=
  let n := s.size
  (s.pushAll [marker space, .simpleContentExtension (some base) [n] none, .simpleContent (some (n + 1)),
    plainType [] (some (n + 2)) none]).update p (Slot.type.fill (n + 3))

section Marks

variable {w w' : Workspace} {p : Place} {space name : String} {depth : Nat} {marked : List Place}
  {names : List QName}

private theorem runIn_extendBase (base : QName) (w : Workspace) :
    (extendBase p w.store.size base).runIn
        { w with store := (w.store.push (marker space)).2 } =
      (.ok (), { w with store := extended w.store p base space }) := by
  simp [extendBase, Work.runIn_bind, extended, Store.pushAll]

private theorem runIn_wrapSimple (t : Place) (name : String) (w : Workspace) :
    (wrapSimple p w.store.size t (name ++ valueSuffix)).runIn
        { w with store := (w.store.push (marker space)).2 } =
      (.ok (), { w with store := wrapped w.store p t name space }) := by
  have hvalue := Store.update_push (w.store.push (marker space)).2
    (blankElement (some (name ++ valueSuffix)) false none) (Slot.type.fill t)
  rw [Store.size_push] at hvalue
  simp [wrapSimple, Work.runIn_bind, wrapped, Store.pushAll, hvalue]

theorem mark_cases (hp : ShowsElement w p) (h : (mark p space).runIn w = (.ok (), w')) :
    ∃ c d own, w.store.get p = .element c d own ∧
      ((∃ t, own = some t ∧ ∃ x, Bears w.store p x ∧
          w' = { w with store := (w.store.pushAll [marker space]).update x (·.addAttribute w.store.size) }) ∨
        (∃ t, own = some t ∧ (w.store.get t).kind = .simpleType ∧
          w' = { w with store := wrapped w.store p t (c.name.getD "") space }) ∨
        own = none ∧
          w' = { w with store := extended w.store p (d.typeName.getD (xsd "anySimpleType")) space }) := by
  obtain ⟨rest, hrest, hrun⟩ := exists_rest space hp.shows hp.kind
  rw [hrun] at h
  cases hrest with
  | complex hget hbears _ _ =>
    cases h
    exact ⟨_, _, _, hget, .inl ⟨_, rfl, _, hbears, rfl⟩⟩
  | simple hget htype =>
    rw [runIn_wrapSimple] at h
    cases h
    exact ⟨_, _, _, hget, .inr (.inl ⟨_, rfl, by rw [htype]; rfl, rfl⟩)⟩
  | named hget =>
    rw [runIn_extendBase] at h
    cases h
    exact ⟨_, _, _, hget, .inr (.inr ⟨rfl, rfl⟩)⟩

theorem spares_mark (hp : ShowsElement w p) (h : (mark p space).runIn w = (.ok (), w')) :
    w.store.Spares w'.store ∧ w'.items = w.items := by
  obtain ⟨c, d, own, hget, hcases⟩ := mark_cases hp h
  have hlt := hp.shows.holds.lt_size
  have hgrown (shapes : List (Shape Place)) := Store.grown_pushAll w.store shapes
  -- the marked element is as it was when it gets its other type, and so is the type that it had
  have helement {shapes : List (Shape Place)} {f : Shape Place → Shape Place}
      (hown : ∀ t ∈ own, (w.store.get t).kind = .simpleType)
      (hf : ∃ d' own', f (.element c d own) = .element c d' own') :
      w.store.Spares ((w.store.pushAll shapes).update p f) := by
    have hget' : (w.store.pushAll shapes).get p = .element c d own := by
      rw [(hgrown shapes).get_eq p hlt, hget]
    refine (hgrown shapes).spares.trans (Store.spares_element hget' (fun t ht => ?_) (by rwa [hget']))
    have hkind := hown t ht
    rw [(hgrown shapes).get_eq t (Store.lt_size_of_kind (by rw [hkind]; decide)), hkind]
    decide
  rcases hcases with ⟨t, -, x, -, rfl⟩ | ⟨t, rfl, ht, rfl⟩ | ⟨rfl, rfl⟩
  · exact ⟨(hgrown _).spares.trans Store.spares_addAttribute, rfl⟩
  · exact ⟨helement (by simpa using ht) ⟨_, _, rfl⟩, rfl⟩
  · exact ⟨helement (by simp) ⟨_, _, rfl⟩, rfl⟩

theorem runIn_markAll_cons {q : QName} : (markAll depth marked (q :: names)).runIn w =
    match find? w q.name depth marked with
    | .error f => (.error f, w)
    | .ok none => (.error (.problem (.missingPartElement q)), w)
    | .ok (some p) =>
      (do
        mark p q.space
        markAll depth (p :: marked) names).runIn w := by
  rw [markAll, Work.runIn_bind_of_ok (Work.runIn_get w), Work.runIn_bind, Work.runIn_ofExcept]
  cases find? w q.name depth marked with
  | error f => rfl
  | ok found => cases found <;> rfl

/-- What holds of every mark of an element with a namespace of some kind holds of marks in order. -/
theorem relates_markAll {relates : Workspace → Workspace → Prop} {good : String → Prop} (refl : ∀ w, relates w w)
    (trans : ∀ {w w' w''}, relates w w' → relates w' w'' → relates w w'')
    (step : ∀ {w w' p space}, good space → ShowsElement w p → (mark p space).runIn w = (.ok (), w') → relates w w')
    (hgood : ∀ q ∈ names, good q.space) (htop : ∀ q ∈ w.target.elements.values, ShowsElement w q)
    (h : (markAll depth marked names).runIn w = (.ok (), w')) : relates w w' := by
  induction names generalizing w marked with
  | nil =>
    cases h
    exact refl _
  | cons q names ih =>
    rw [runIn_markAll_cons] at h
    split at h
    · cases h
    · cases h
    · rename_i p hfind
      obtain ⟨_, w₁, hmark, hrest⟩ := Work.runIn_bind_eq_ok.1 h
      have hp := showsElement_of_find? htop hfind
      have hkeeps := keeps_mark hp.shows hp.kind hmark
      obtain ⟨hspace, hgood⟩ := List.forall_mem_cons.1 hgood
      refine trans (step hspace hp hmark) (ih hgood (fun x hx => ?_) hrest)
      rw [hkeeps.target] at hx
      exact (htop x hx).keeps hkeeps

theorem spares_markAll (htop : ∀ q ∈ w.target.elements.values, ShowsElement w q)
    (h : (markAll depth marked names).runIn w = (.ok (), w')) :
    w.store.Spares w'.store ∧ w'.items = w.items :=
  relates_markAll (fun w => ⟨(Store.Grown.refl w.store).spares, rfl⟩)
    (fun h h' => ⟨h.1.trans h'.1, h'.2.trans h.2⟩) (fun (_ : True) => spares_mark) (fun _ _ => trivial) htop h

end Marks

end PayloadSchema.Payload
