import PayloadSchema.Payload.Marker
import PayloadSchema.Proofs.Extraction.FinishedTrees
import PayloadSchema.Proofs.Extraction.QueuedItems

/-!
# Marking keeps trees finished

A mark changes a tree from outside, at a place in it, and may move a type of the tree further in.  That the
places still lead to an end is seen from a rank that goes down on the way inside; it leaves room for the
constructs that a mark puts in between.
-/

namespace PayloadSchema.Schema.Shape

variable {α : Type}

def derivation? (look : α → Shape α) : Shape α → Option α
  | complexType _ _ _ _ (some m) _ => (look m).content?.join
  | _ => none

theorem derivation?_of_content? {look : α → Shape α} {s : Shape α} {c : Component} {d : ComplexDecl}
    {attributes : List α} {any particle : Option α} {m : α} {content : Option α}
    (hs : s = .complexType c d attributes any (some m) particle) (h : (look m).content? = some content) :
    s.derivation? look = content := by
  rw [hs, derivation?, h, Option.join_some]

end PayloadSchema.Schema.Shape

namespace PayloadSchema.Extraction.Store

open Schema

/-! ## Finished trees at places -/

@[simp] theorem isTopLevel_map {α β : Type} (f : α → β) (s : Shape α) :
    (s.map f).isTopLevel = s.isTopLevel := by
  cases s <;> rfl

theorem plain_map {α β : Type} {f : α → β} {s : Shape α} : (s.map f).Plain ↔ s.Plain := by
  have hreference : (s.map f).isReference = s.isReference := by
    cases s <;> rfl
  have hnamed : (s.map f).isNamed = s.isNamed := by
    cases s <;> rfl
  have hnames : (s.map f).typeNames = s.typeNames := by
    cases s <;> rfl
  constructor <;> rintro ⟨href, hname, hbuiltin⟩ <;> constructor <;>
    simp_all [Shape.kind_map]

/-- A place that holds a finished tree. -/
structure Shows (s : Store) (p : Place) : Prop where
  holds : s.Holds 0 p (s.tree p)
  finished : (s.tree p).Finished

/-- A place that can play a role inside of a construct with a rank. -/
structure Offers (s : Store) (within : Place → Prop) (rank : Place → Nat) (bound : Nat)
    (part : Role × Place) : Prop where
  inside : within part.2
  below : rank part.2 < bound
  admits : part.1.admits (s.get part.2).kind
  inner : (s.get part.2).isTopLevel = false

/-- Places that lead to each other only, whose constructs are plain and fit together.  The rank goes down on
the way inside. -/
structure Neat (s : Store) (within : Place → Prop) (rank : Place → Nat) : Prop where
  inside : ∀ p, within p → p < s.size
  plain : ∀ p, within p → (s.get p).Plain
  fits : ∀ p, within p → ∀ part ∈ (s.get p).parts, s.Offers within rank (rank p) part

/-- A later store with more places.  What the earlier ones can be used for has not changed. -/
structure Joins (s : Store) (within : Place → Prop) (rank : Place → Nat) (s' : Store)
    (within' : Place → Prop) (rank' : Place → Nat) : Prop where
  inside : ∀ q, within q → within' q
  rank : ∀ q, within q → rank' q = rank q
  kind : ∀ q, within q → (s'.get q).kind = (s.get q).kind
  top : ∀ q, within q → (s'.get q).isTopLevel = (s.get q).isTopLevel

section Neat

variable {s s' s'' : Store} {within within' within'' : Place → Prop} {rank rank' rank'' : Place → Nat}
  {p q : Place} {bound : Nat} {part : Role × Place} {f : Shape Place → Shape Place}

theorem Joins.trans (h : s.Joins within rank s' within' rank')
    (h' : s'.Joins within' rank' s'' within'' rank'') : s.Joins within rank s'' within'' rank'' := by
  refine ⟨fun q hq => h'.inside q (h.inside q hq), fun q hq => ?_, fun q hq => ?_, fun q hq => ?_⟩
  · rw [h'.rank q (h.inside q hq), h.rank q hq]
  · rw [h'.kind q (h.inside q hq), h.kind q hq]
  · rw [h'.top q (h.inside q hq), h.top q hq]

theorem Offers.join (h : s.Offers within rank bound part)
    (hjoin : s.Joins within rank s' within' rank') : s'.Offers within' rank' bound part := by
  refine ⟨hjoin.inside _ h.inside, ?_, ?_, ?_⟩
  · rw [hjoin.rank _ h.inside]
    exact h.below
  · rw [hjoin.kind _ h.inside]
    exact h.admits
  · rw [hjoin.top _ h.inside]
    exact h.inner

theorem Offers.mono {bound' : Nat} (h : s.Offers within rank bound part) (hle : bound ≤ bound') :
    s.Offers within rank bound' part :=
  ⟨h.inside, h.below.trans_le hle, h.admits, h.inner⟩

theorem Holds.tree_get (h : s.Holds 0 p (s.tree p)) : s.tree p = ⟨(s.get p).map s.tree⟩ := by
  have hread : s.Holds 0 p ⟨(s.get p).map s.tree⟩ := by
    refine .intro p _ (Nat.zero_le _) h.lt_size fun q hq => ?_
    obtain ⟨n, hn⟩ := h.inner q hq
    rwa [hn.tree_eq]
  exact hread.tree_eq

theorem Neat.shows (h : s.Neat within rank) (hp : within p) : s.Shows p := by
  induction hrank : rank p using Nat.strong_induction_on generalizing p with
  | _ r ih =>
    subst hrank
    have hinner : ∀ part ∈ (s.get p).parts, s.Shows part.2 := fun part hpart =>
      ih _ (h.fits p hp part hpart).below (h.fits p hp part hpart).inside rfl
    have hread : s.Holds 0 p ⟨(s.get p).map s.tree⟩ := by
      refine .intro p _ (Nat.zero_le _) (h.inside p hp) fun q hq => ?_
      rw [Shape.children_eq_parts] at hq
      obtain ⟨part, hpart, rfl⟩ := List.mem_map.1 hq
      exact (hinner part hpart).holds
    have htree := hread.tree_eq
    refine ⟨by rwa [htree], ?_⟩
    rw [htree]
    refine built_iff.2 ⟨plain_map.2 (h.plain p hp), ?_⟩
    rw [Shape.parts_map]
    intro part hpart
    obtain ⟨⟨role, q⟩, hq, rfl⟩ := List.mem_map.1 hpart
    have hoffers := h.fits p hp _ hq
    have hshows := hinner _ hq
    have hshape := congrArg Node.shape hshows.holds.tree_get
    refine ⟨?_, ?_, hshows.finished⟩
    · rw [hshape]
      simpa [Node.shape] using hoffers.admits
    · rw [hshape]
      simpa [Node.shape] using hoffers.inner

/-- The places that hold finished trees are neat, with room between a place and what is inside of it. -/
theorem neat_shows (s : Store) : s.Neat s.Shows fun p => 4 * sizeOf (s.tree p) := by
  refine ⟨fun p hp => hp.holds.lt_size, fun p hp => ?_, fun p hp part hpart => ?_⟩
  · have hplain := hp.finished.here
    rw [hp.holds.tree_get] at hplain
    exact plain_map.1 hplain
  · have htree := hp.holds.tree_get
    have hpart' : (part.1, s.tree part.2) ∈ (s.tree p).shape.parts := by
      rw [htree, Node.shape, Shape.parts_map]
      exact List.mem_map_of_mem hpart
    have hfits := hp.finished.part hpart'
    obtain ⟨n, hn⟩ := hp.holds.inner part.2 (Shape.mem_children_of_mem_parts hpart)
    have hholds : s.Holds 0 part.2 (s.tree part.2) := by rwa [hn.tree_eq]
    have hsize : sizeOf (s.tree part.2) < sizeOf (s.tree p) :=
      Node.sizeOf_lt_of_mem_children (Shape.mem_children_of_mem_parts hpart')
    have hadmits := hfits.admits
    have htop := hfits.inner
    rw [hholds.tree_get] at hadmits htop
    simp only [Node.shape, Shape.kind_map, isTopLevel_map] at hadmits htop
    exact ⟨⟨hholds, hfits.built⟩, by omega, hadmits, htop⟩

theorem Neat.push (h : s.Neat within rank) (shape : Shape Place) (r : Nat) (hplain : shape.Plain)
    (hparts : ∀ part ∈ shape.parts, s.Offers within rank r part) :
    ∃ within' rank', (s.push shape).2.Neat within' rank' ∧
      s.Joins within rank (s.push shape).2 within' rank' ∧ within' s.size ∧ rank' s.size = r ∧
      ∀ q, within q → (s.push shape).2.get q = s.get q := by
  have hget (q : Place) (hq : within q) : (s.push shape).2.get q = s.get q :=
    get_push_lt (h.inside q hq)
  have hne (q : Place) (hq : within q) : q ≠ s.size := Nat.ne_of_lt (h.inside q hq)
  have hjoin : s.Joins within rank (s.push shape).2 (fun q => within q ∨ q = s.size)
      (fun q => if q = s.size then r else rank q) :=
    ⟨fun q hq => .inl hq, fun q hq => if_neg (hne q hq), fun q hq => by rw [hget q hq],
      fun q hq => by rw [hget q hq]⟩
  refine ⟨_, _, ⟨fun q hq => ?_, fun q hq => ?_, fun q hq part hpart => ?_⟩, hjoin, .inr rfl,
    if_pos rfl, hget⟩
  · rw [size_push]
    rcases hq with hq | rfl
    · exact (h.inside q hq).trans (Nat.lt_succ_self _)
    · exact Nat.lt_succ_self _
  · rcases hq with hq | rfl
    · rw [hget q hq]
      exact h.plain q hq
    · rwa [get_push_size]
  · rcases hq with hq | rfl
    · rw [hget q hq] at hpart
      rw [hjoin.rank q hq]
      exact (h.fits q hq part hpart).join hjoin
    · rw [get_push_size] at hpart
      rw [if_pos rfl]
      exact (hparts part hpart).join hjoin

theorem Neat.update (h : s.Neat within rank) (hp : within p)
    (hkind : (f (s.get p)).kind = (s.get p).kind)
    (htop : (f (s.get p)).isTopLevel = (s.get p).isTopLevel) (hplain : (f (s.get p)).Plain)
    (hparts : ∀ part ∈ (f (s.get p)).parts,
      part ∈ (s.get p).parts ∨ s.Offers within rank (rank p) part) :
    (s.update p f).Neat within rank ∧ s.Joins within rank (s.update p f) within rank := by
  have hself := get_update_self f (h.inside p hp)
  have hjoin : s.Joins within rank (s.update p f) within rank := by
    refine ⟨fun _ hq => hq, fun _ _ => rfl, fun q _ => ?_, fun q _ => ?_⟩ <;> by_cases hq : q = p
    · rw [hq, hself, hkind]
    · rw [get_update_of_ne f hq]
    · rw [hq, hself, htop]
    · rw [get_update_of_ne f hq]
  refine ⟨⟨fun q hq => by simpa using h.inside q hq, fun q hq => ?_, fun q hq part hpart => ?_⟩, hjoin⟩
  · by_cases hqp : q = p
    · rwa [hqp, hself]
    · rw [get_update_of_ne f hqp]
      exact h.plain q hq
  · by_cases hqp : q = p
    · subst hqp
      rw [hself] at hpart
      rcases hparts part hpart with hold | hnew
      · exact (h.fits q hq part hold).join hjoin
      · exact hnew.join hjoin
    · rw [get_update_of_ne f hqp] at hpart
      exact (h.fits q hq part hpart).join hjoin

end Neat

end PayloadSchema.Extraction.Store

namespace PayloadSchema.Payload

open Schema Extraction

/-! ## Steps of a mark -/

/-- A later workspace in which the places that were neat are neat. -/
structure Builds (w : Workspace) (within : Place → Prop) (rank : Place → Nat) (w' : Workspace)
    (within' : Place → Prop) (rank' : Place → Nat) : Prop where
  target : w'.target = w.target
  neat : w'.store.Neat within' rank'
  joins : w.store.Joins within rank w'.store within' rank'

section Steps

variable {w w' w'' : Workspace} {within within' within'' : Place → Prop}
  {rank rank' rank'' : Place → Nat} {p q t note : Place} {base : QName} {name space : String}

theorem Builds.trans (h : Builds w within rank w' within' rank')
    (h' : Builds w' within' rank' w'' within'' rank'') : Builds w within rank w'' within'' rank'' :=
  ⟨h'.target.trans h.target, h'.neat, h.joins.trans h'.joins⟩

theorem builds_push (h : w.store.Neat within rank) (shape : Shape Place) (r : Nat)
    (hplain : shape.Plain) (htop : shape.isTopLevel = false)
    (hparts : ∀ part ∈ shape.parts, w.store.Offers within rank r part) :
    ∃ q w' within' rank', (Work.push shape).runIn w = (.ok q, w') ∧
      Builds w within rank w' within' rank' ∧ w'.store.get q = shape ∧ rank' q = r ∧
      (∀ x, within x → w'.store.get x = w.store.get x) ∧
      ∀ role : Role, role.admits shape.kind → w'.store.Offers within' rank' (r + 1) (role, q) := by
  obtain ⟨within', rank', hneat, hjoin, hinside, hrank, hold⟩ := h.push shape r hplain hparts
  have hget := Store.get_push_size w.store shape
  refine ⟨_, _, within', rank', Work.runIn_push shape w, ⟨rfl, hneat, hjoin⟩, hget, hrank,
    hold, fun role hrole => ⟨hinside, ?_, ?_, ?_⟩⟩
  · rw [hrank]
    exact Nat.lt_succ_self r
  · rwa [hget]
  · rwa [hget]

theorem builds_fill (slot : Slot) (role : Role) (h : w.store.Neat within rank) (hp : within p)
    (hslot : slot.role? (w.store.get p).kind = some role)
    (hq : w.store.Offers within rank (rank p) (role, q)) :
    ∃ w', (Work.update p (slot.fill q)).runIn w = (.ok (), w') ∧
      Builds w within rank w' within rank := by
  obtain ⟨hneat, hjoin⟩ := h.update hp (Slot.kind_fill q slot _) isTopLevel_fill
    (plain_fill (h.plain p hp)) fun part hpart => by
      obtain ⟨role', q'⟩ := part
      rcases parts_fill hpart with hold | ⟨hrole, rfl⟩
      · exact .inl hold
      · cases hslot.symm.trans hrole
        exact .inr hq
  exact ⟨_, Work.runIn_update _ _ w, rfl, hneat, hjoin⟩

theorem builds_withOwnType (h : w.store.Neat within rank) (hp : within p)
    (hkind : (w.store.get p).kind = .element)
    (hq : w.store.Offers within rank (rank p) (.elementType, q)) :
    ∃ w', (Work.update p (·.withOwnType (some q))).runIn w = (.ok (), w') ∧
      Builds w within rank w' within rank := by
  have hplain := h.plain p hp
  obtain ⟨c, d, own, hshape⟩ := Shape.exists_of_kind_element hkind
  obtain ⟨hneat, hjoin⟩ := h.update (f := (·.withOwnType (some q))) hp (by rw [hshape]; rfl)
    (by rw [hshape]; rfl)
    (by
      rw [hshape] at hplain ⊢
      exact hplain.congr rfl rfl (fun _ => rfl) fun _ => .inl)
    (by
      rw [hshape]
      simpa [Shape.withOwnType, Shape.parts] using .inr hq)
  exact ⟨_, Work.runIn_update _ _ w, rfl, hneat, hjoin⟩

theorem plain_plainType {attributes : List Place} {model particle : Option Place} :
    (plainType attributes model particle).Plain :=
  ⟨rfl, fun _ => rfl, by simp [plainType, Shape.typeNames]⟩

def extendBase (p note : Place) (base : QName) : Work Unit := do
  let extension ← Work.push (.simpleContentExtension (some base) [note] none)
  let model ← Work.push (.simpleContent (some extension))
  let wrapper ← Work.push (plainType [] (some model) none)
  Work.update p (Slot.type.fill wrapper)

private theorem builds_extendBase (h : w.store.Neat within rank) (hp : within p)
    (hkind : (w.store.get p).kind = .element) (hroom : 4 ≤ rank p)
    (hnote : w.store.Offers within rank 1 (.attribute, note)) (hbase : base.isBuiltin) :
    ∃ w' within' rank', (extendBase p note base).runIn w = (.ok (), w') ∧
      Builds w within rank w' within' rank' := by
  obtain ⟨extension, w₁, within₁, rank₁, hrun₁, h₁, -, -, -, hextension⟩ :=
    builds_push h (.simpleContentExtension (some base) [note] none) 1
      ⟨rfl, by simp [Shape.kind, Kind.isType], by simpa [Shape.typeNames] using hbase⟩ rfl
      (by simpa [Shape.parts] using hnote)
  obtain ⟨model, w₂, within₂, rank₂, hrun₂, h₂, -, -, -, hmodel⟩ :=
    builds_push h₁.neat (.simpleContent (some extension)) 2
      ⟨rfl, by simp [Shape.kind, Kind.isType], by simp [Shape.typeNames]⟩ rfl
      (by simpa [Shape.parts] using hextension .simpleDerivation rfl)
  obtain ⟨wrapper, w₃, within₃, rank₃, hrun₃, h₃, -, -, -, hwrapper⟩ :=
    builds_push h₂.neat (plainType [] (some model) none) 3 plain_plainType rfl
      (by simpa [Shape.parts, plainType] using hmodel .model rfl)
  have hbuilds := (h₁.trans h₂).trans h₃
  obtain ⟨w₄, hrun₄, h₄⟩ := builds_fill .type .elementType h₃.neat
    (hbuilds.joins.inside p hp) (by rw [hbuilds.joins.kind p hp, hkind]; rfl)
    ((hwrapper .elementType rfl).mono (by rw [hbuilds.joins.rank p hp]; exact hroom))
  refine ⟨w₄, within₃, rank₃, ?_, hbuilds.trans h₄⟩
  rw [extendBase, Work.runIn_bind_of_ok hrun₁, Work.runIn_bind_of_ok hrun₂,
    Work.runIn_bind_of_ok hrun₃, hrun₄]

def wrapSimple (p note t : Place) (name : String) : Work Unit := do
  let value ← Work.push (blankElement (some name) false none)
  Work.update value (Slot.type.fill t)
  let sequence ← Work.push (.modelGroup .sequence .once [value])
  let wrapper ← Work.push (plainType [note] none (some sequence))
  Work.update p (·.withOwnType (some wrapper))

private theorem builds_wrapSimple (name : String) (h : w.store.Neat within rank) (hp : within p)
    (hkind : (w.store.get p).kind = .element)
    (hnote : w.store.Offers within rank 1 (.attribute, note))
    (ht : w.store.Offers within rank (rank t + 1) (.elementType, t)) (hroom : rank t + 4 ≤ rank p) :
    ∃ w' within' rank', (wrapSimple p note t name).runIn w = (.ok (), w') ∧
      Builds w within rank w' within' rank' := by
  obtain ⟨value, w₁, within₁, rank₁, hrun₁, h₁, hget, hrank, -, hvalue⟩ :=
    builds_push h (blankElement (some name) false none) (rank t + 1)
      ⟨rfl, by simp [blankElement, Shape.kind, Kind.isType], by simp [blankElement, Shape.typeNames]⟩
      rfl (by simp [Shape.parts, blankElement])
  have hitem : w₁.store.Offers within₁ rank₁ (rank t + 2) (.item, value) := hvalue .item rfl
  obtain ⟨w₂, hrun₂, h₂⟩ := builds_fill .type .elementType h₁.neat hitem.inside
    (by rw [hget]; rfl) ((ht.join h₁.joins).mono (by rw [hrank]))
  obtain ⟨sequence, w₃, within₃, rank₃, hrun₃, h₃, -, -, -, hsequence⟩ :=
    builds_push h₂.neat (.modelGroup .sequence .once [value]) (rank t + 2)
      ⟨rfl, by simp [Shape.kind, Kind.isType], by simp [Shape.typeNames]⟩ rfl
      (by simpa [Shape.parts] using hitem.join h₂.joins)
  have hbuilds₃ := (h₁.trans h₂).trans h₃
  obtain ⟨wrapper, w₄, within₄, rank₄, hrun₄, h₄, -, -, -, hwrapper⟩ :=
    builds_push h₃.neat (plainType [note] none (some sequence)) (rank t + 3) plain_plainType rfl
      (by simpa [Shape.parts, plainType] using
        ⟨hsequence .particle rfl, (hnote.join hbuilds₃.joins).mono (by omega)⟩)
  have hbuilds := hbuilds₃.trans h₄
  obtain ⟨w₅, hrun₅, h₅⟩ := builds_withOwnType h₄.neat (hbuilds.joins.inside p hp)
    (by rw [hbuilds.joins.kind p hp, hkind])
    ((hwrapper .elementType rfl).mono (by rw [hbuilds.joins.rank p hp]; exact hroom))
  refine ⟨w₅, within₄, rank₄, ?_, hbuilds.trans h₅⟩
  rw [wrapSimple, Work.runIn_bind_of_ok hrun₁, Work.runIn_bind_of_ok hrun₂,
    Work.runIn_bind_of_ok hrun₃, Work.runIn_bind_of_ok hrun₄, hrun₅]

/-- What a mark keeps: the target, and that a place holds a finished tree of a kind. -/
structure Keeps (w w' : Workspace) : Prop where
  target : w'.target = w.target
  shows : ∀ q, w.store.Shows q → w'.store.Shows q
  kind : ∀ q, w.store.Shows q → (w'.store.get q).kind = (w.store.get q).kind

theorem plain_marker (space : String) : (marker space).Plain :=
  ⟨rfl, by simp [marker, Shape.kind, Kind.isType],
    by simp [marker, Shape.typeNames, QName.isBuiltin, xsd]⟩

private theorem part_of_content {s : Shape Place} (h : Role.model.admits s.kind)
    (hcontent : s.content? = some (some q)) :
    ∃ role, (role, q) ∈ s.parts ∧ (role = .simpleDerivation ∨ role = .complexDerivation) := by
  cases s with
  | simpleContent content =>
    cases hcontent
    exact ⟨.simpleDerivation, by simp [Shape.parts], .inl rfl⟩
  | complexContent mixed content =>
    cases hcontent
    exact ⟨.complexDerivation, by simp [Shape.parts], .inr rfl⟩
  | modelGroup order _ _ => cases order <;> cases h
  | complexDerivation how _ _ _ _ => cases how <;> cases h
  | _ => cases h

private theorem content?_of_model {s : Shape Place} (h : Role.model.admits s.kind) :
    ∃ content, s.content? = some content := by
  cases s with
  | simpleContent content => exact ⟨content, rfl⟩
  | complexContent mixed content => exact ⟨content, rfl⟩
  | modelGroup order _ _ => cases order <;> cases h
  | complexDerivation how _ _ _ _ => cases how <;> cases h
  | _ => cases h

private theorem role?_of_derivation {role : Role} {kind : Kind}
    (hrole : role = .simpleDerivation ∨ role = .complexDerivation) (h : role.admits kind) :
    Slot.attribute.role? kind = some .attribute := by
  revert h
  rcases hrole with rfl | rfl <;> cases kind <;> decide

private theorem attributes?_of_role {s : Shape Place} (h : Slot.attribute.role? s.kind = some .attribute) :
    s.attributes?.isSome := by
  cases s with
  | modelGroup order _ _ => cases order <;> cases h
  | complexDerivation how _ _ _ _ => rfl
  | simpleContentExtension | simpleContentRestriction | complexType | attributeGroup => rfl
  | _ => cases h

/-- Whether a construct takes the attribute that marks an element: the complex type of the element, or what that
derives its content by. -/
def Bears (s : Store) (p x : Place) : Prop :=
  ∃ t, (s.get p).ownType? = some (some t) ∧ (s.get t).kind = .complexType ∧
    ((s.get t).derivation? s.get = none ∧ x = t ∨ (s.get t).derivation? s.get = some x)

inductive Rest (s : Store) (p note : Place) : Work Unit → Prop where
  | complex {c : Component} {d : ElementDecl} {t x : Place} (hget : s.get p = .element c d (some t))
      (hbears : Bears s p x) (hshows : s.Shows x)
      (hslot : Slot.attribute.role? (s.get x).kind = some .attribute) :
      Rest s p note (Work.update x (·.addAttribute note))
  | simple {c : Component} {d : ElementDecl} {t : Place} {own : Component} {content : Option Place}
      (hget : s.get p = .element c d (some t)) (htype : s.get t = .simpleType own content) :
      Rest s p note (wrapSimple p note t (c.name.getD "" ++ valueSuffix))
  | named {c : Component} {d : ElementDecl} (hget : s.get p = .element c d none) :
      Rest s p note (extendBase p note (d.typeName.getD (xsd "anySimpleType")))

/-- A mark of an element puts its marker at a new place, and then does what is left to do. -/
theorem exists_rest (space : String) (hp : w.store.Shows p) (hkind : (w.store.get p).kind = .element) :
    ∃ rest, Rest w.store p w.store.size rest ∧
      (mark p space).runIn w = rest.runIn { w with store := (w.store.push (marker space)).2 } := by
  have hneat := Store.neat_shows w.store
  have hold (q : Place) (hq : w.store.Shows q) : (w.store.push (marker space)).2.get q = w.store.get q :=
    Store.get_push_lt hq.holds.lt_size
  obtain ⟨c, d, own, hget⟩ := Shape.exists_of_kind_element hkind
  rw [mark, Work.runIn_bind_of_ok (Work.runIn_push _ _), Work.runIn_bind_of_ok (Work.runIn_look _ _)]
  simp only [hold p hp, hget, Shape.ownType?]
  cases own with
  | none => exact ⟨_, .named hget, rfl⟩
  | some t =>
    have ht := hneat.fits p hp (.elementType, t) (by simp [hget, Shape.parts])
    have hadmits := ht.admits
    rw [pure_bind, Work.runIn_bind_of_ok (Work.runIn_look _ _)]
    simp only [hold t ht.inside]
    cases hst : w.store.get t with
    | simpleType own content => exact ⟨_, .simple hget hst, rfl⟩
    | complexType own decl members any model particle =>
      have hslot : Slot.attribute.role? (w.store.get t).kind = some .attribute := by
        rw [hst]
        rfl
      have hbears {x : Place} (hx : (w.store.get t).derivation? w.store.get = none ∧ x = t ∨
          (w.store.get t).derivation? w.store.get = some x) : Bears w.store p x :=
        ⟨t, by rw [hget]; rfl, by rw [hst]; rfl, hx⟩
      cases model with
      | none => exact ⟨_, .complex hget (hbears (.inl ⟨by rw [hst]; rfl, rfl⟩)) ht.inside hslot, rfl⟩
      | some m =>
        have hm := hneat.fits t ht.inside (.model, m) (by simp [hst, Shape.parts])
        simp only []
        rw [Work.runIn_bind_of_ok (Work.runIn_look _ _), hold m hm.inside]
        obtain ⟨content, hcontent⟩ := content?_of_model hm.admits
        have hderivation := Shape.derivation?_of_content? hst hcontent
        rw [hcontent]
        cases content with
        | none => exact ⟨_, .complex hget (hbears (.inl ⟨hderivation, rfl⟩)) ht.inside hslot, rfl⟩
        | some x =>
          obtain ⟨role, hpart, hrole⟩ := part_of_content hm.admits hcontent
          have hx := hneat.fits m hm.inside _ hpart
          have hslot' := role?_of_derivation hrole hx.admits
          refine ⟨_, .complex hget (hbears (.inr hderivation)) hx.inside hslot', ?_⟩
          change (addMarker x w.store.size).runIn _ = _
          rw [addMarker, Work.runIn_bind_of_ok (Work.runIn_look _ _), hold x hx.inside,
            if_pos (attributes?_of_role hslot')]
    | modelGroup order _ _ => rw [hst] at hadmits; cases order <;> cases hadmits
    | complexDerivation how _ _ _ _ => rw [hst] at hadmits; cases how <;> cases hadmits
    | _ => rw [hst] at hadmits; cases hadmits

theorem exists_mark (space : String) (hp : w.store.Shows p) (hkind : (w.store.get p).kind = .element) :
    ∃ w', (mark p space).runIn w = (.ok (), w') ∧ Keeps w w' := by
  have hneat := Store.neat_shows w.store
  obtain ⟨note, w₁, within, rank, hrun₁, h₁, -, -, hget, hnote⟩ :=
    builds_push hneat (marker space) 0 (plain_marker space) rfl (by simp [marker, Shape.parts])
  cases (Work.runIn_push (marker space) w).symm.trans hrun₁
  -- it is enough that the rest of the mark builds on
  have hdone {w₂ : Workspace} {within' : Place → Prop} {rank' : Place → Nat}
      (h₂ : Builds { w with store := (w.store.push (marker space)).2 } within rank w₂ within' rank') : Keeps w w₂ := by
    have hbuilds := h₁.trans h₂
    exact ⟨hbuilds.target, fun q hq => h₂.neat.shows (hbuilds.joins.inside q hq),
      fun q hq => hbuilds.joins.kind q hq⟩
  have hinside := h₁.joins.inside p hp
  have hkind₁ := (h₁.joins.kind p hp).trans hkind
  have hrank (x : Place) (hx : w.store.Shows x) : rank x = 4 * sizeOf (w.store.tree x) :=
    h₁.joins.rank x hx
  have hroom (x : Place) (hx : w.store.Shows x) : 4 ≤ rank x := by
    have hpos : 0 < sizeOf (w.store.tree x) := by
      cases w.store.tree x
      simp
    rw [hrank x hx]
    omega
  obtain ⟨rest, hrest, hrun⟩ := exists_rest space hp hkind
  rw [hrun]
  cases hrest with
  | @complex _ _ _ x _ _ hx hslot =>
    obtain ⟨w₂, hrun₂, h₂⟩ := builds_fill .attribute .attribute h₁.neat (h₁.joins.inside x hx)
      (by rw [hget x hx, hslot])
      ((hnote .attribute rfl).mono (by have := hroom x hx; omega))
    exact ⟨w₂, hrun₂, hdone h₂⟩
  | @simple c _ t _ _ hshape _ =>
    have ht := hneat.fits p hp (.elementType, t) (by simp [hshape, Shape.parts])
    have hbelow : 4 * sizeOf (w.store.tree t) < 4 * sizeOf (w.store.tree p) := ht.below
    have hwrap : Store.Offers _ within rank (rank t + 1) (.elementType, t) :=
      ⟨h₁.joins.inside t ht.inside, Nat.lt_succ_self _, (ht.join h₁.joins).admits,
        (ht.join h₁.joins).inner⟩
    obtain ⟨w₂, within', rank', hrun₂, h₂⟩ :=
      builds_wrapSimple (c.name.getD "" ++ valueSuffix) h₁.neat hinside hkind₁
        (hnote .attribute rfl) hwrap (by have := hrank p hp; have := hrank t ht.inside; omega)
    exact ⟨w₂, hrun₂, hdone h₂⟩
  | @named _ d hshape =>
    have hbase : (d.typeName.getD (xsd "anySimpleType")).isBuiltin := by
      cases hq : d.typeName with
      | none => rfl
      | some q => exact (hneat.plain p hp).builtin q (by simp [hshape, Shape.typeNames, hq])
    obtain ⟨w₂, within', rank', hrun₂, h₂⟩ :=
      builds_extendBase h₁.neat hinside hkind₁ (hroom p hp) (hnote .attribute rfl) hbase
    exact ⟨w₂, hrun₂, hdone h₂⟩

theorem keeps_mark (hp : w.store.Shows p) (hkind : (w.store.get p).kind = .element)
    (h : (mark p space).runIn w = (.ok (), w')) : Keeps w w' := by
  obtain ⟨w₁, hrun, hkeeps⟩ := exists_mark space hp hkind
  cases h.symm.trans hrun
  exact hkeeps

end Steps

/-! ## Marks in order -/

/-- A place that holds a finished element. -/
structure ShowsElement (w : Workspace) (p : Place) : Prop where
  shows : w.store.Shows p
  kind : (w.store.get p).kind = .element

section Order

variable {w w' w'' : Workspace} {p : Place} {name : String} {skip marked : List Place} {depth : Nat}

theorem Keeps.refl (w : Workspace) : Keeps w w :=
  ⟨rfl, fun _ hq => hq, fun _ _ => rfl⟩

theorem Keeps.trans (h : Keeps w w') (h' : Keeps w' w'') : Keeps w w'' := by
  refine ⟨h'.target.trans h.target, fun q hq => h'.shows q (h.shows q hq), fun q hq => ?_⟩
  rw [h'.kind q (h.shows q hq), h.kind q hq]

theorem ShowsElement.keeps (h : ShowsElement w p) (hkeeps : Keeps w w') : ShowsElement w' p := by
  refine ⟨hkeeps.shows p h.shows, ?_⟩
  rw [hkeeps.kind p h.shows, h.kind]

theorem ShowsElement.child (h : ShowsElement w p) {q : Place} (hq : q ∈ childElements w p) :
    ShowsElement w q := by
  have hneat := Store.neat_shows w.store
  obtain ⟨c, d, own, hp⟩ := Shape.exists_of_kind_element h.kind
  rw [childElements, shapeAt, hp] at hq
  cases own with
  | none => cases hq
  | some t =>
    obtain ⟨hmem, hkind⟩ := List.mem_filter.1 hq
    refine ⟨?_, of_decide_eq_true hkind⟩
    have ht := hneat.fits p h.shows (.elementType, t) (by simp [hp, Shape.parts])
    cases hst : w.store.get t with
    | complexType _ _ _ _ _ particle =>
      cases particle with
      | none => simp [shapeAt, hst, Shape.sequence?] at hmem
      | some x =>
        have hx := hneat.fits t ht.inside (.particle, x) (by simp [hst, Shape.parts])
        cases hsx : w.store.get x with
        | modelGroup order bounds items =>
          cases order with
          | sequence =>
            have hitem : q ∈ items := by simpa [shapeAt, hst, hsx, Shape.sequence?] using hmem
            exact (hneat.fits x hx.inside (.item, q) (by simpa [hsx, Shape.parts] using hitem)).inside
          | _ => simp [shapeAt, hst, hsx, Shape.sequence?] at hmem
        | _ => simp [shapeAt, hst, hsx, Shape.sequence?] at hmem
    | _ => simp [shapeAt, hst, Shape.sequence?] at hmem

theorem showsElement_of_findBelow? {level : List Place} (hlevel : ∀ q ∈ level, ShowsElement w q)
    (h : findBelow? w name skip depth level = some p) : ShowsElement w p := by
  induction depth generalizing level with
  | zero => cases h
  | succ depth ih =>
    rw [findBelow?] at h
    split at h
    · cases h
    · split at h
      · rename_i q hq
        cases h
        exact hlevel p (List.mem_of_find?_eq_some hq)
      · refine ih (fun q hq => ?_) h
        obtain ⟨x, hx, hq⟩ := List.mem_flatMap.1 hq
        exact (hlevel x hx).child hq

theorem showsElement_of_find? (htop : ∀ q ∈ w.target.elements.values, ShowsElement w q)
    (h : find? w name depth skip = .ok (some p)) : ShowsElement w p := by
  rw [find?] at h
  split at h
  · rename_i q hq
    cases h
    obtain ⟨hget, -⟩ := Option.filter_eq_some_iff.1 hq
    exact htop p (List.mem_map.2 ⟨_, Table.mem_of_get? hget, rfl⟩)
  · dsimp only at h
    split at h
    · refine showsElement_of_findBelow? (fun q hq => ?_) (Except.ok.inj h)
      obtain ⟨x, hx, hq⟩ := List.mem_flatMap.1 hq
      exact (htop x hx).child hq
    · cases h

theorem keeps_markAll {names : List QName} (htop : ∀ q ∈ w.target.elements.values, ShowsElement w q)
    (h : (markAll depth marked names).runIn w = (.ok (), w')) : Keeps w w' := by
  induction names generalizing w marked with
  | nil =>
    cases h
    exact .refl _
  | cons q names ih =>
    rw [markAll, Work.runIn_bind_of_ok (Work.runIn_get w), Work.runIn_bind, Work.runIn_ofExcept] at h
    match hfind : find? w q.name depth marked with
    | .error f =>
      rw [hfind] at h
      cases h
    | .ok none =>
      rw [hfind] at h
      cases h
    | .ok (some p) =>
      rw [hfind] at h
      have hp := showsElement_of_find? htop hfind
      obtain ⟨_, w₁, hmark, hrest⟩ := Work.runIn_bind_eq_ok.1 h
      have hkeeps := keeps_mark hp.shows hp.kind hmark
      refine hkeeps.trans (ih (fun x hx => ?_) hrest)
      rw [hkeeps.target] at hx
      exact (htop x hx).keeps hkeeps

end Order

end PayloadSchema.Payload
