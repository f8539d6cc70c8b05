import PayloadSchema.Proofs.Extraction.Idempotence
import PayloadSchema.Proofs.Payload.Finding
import PayloadSchema.Proofs.Payload.Ownership

/-!
# Names are matched in order

The elements of a name are found in the order in which they stand in the schema before the first mark: a mark gives an
element a type, but neither moves nor hides an element, and what it adds has a name of its own kind.  So the first
target with a name gets the first of these elements, the second one the next, and a target is missing exactly where
there are more targets with a name than elements.
-/

namespace PayloadSchema.Schema.Shape

variable {α : Type} {look : α → Shape α} {s : Shape α} {items : List α}

theorem exists_children_of_sequence? (h : s.sequence? look = some items) :
    ∃ x, (.particle, x) ∈ s.parts ∧ (look x).children = items := by
  cases s with
  | complexType c decl attributes any model particle =>
    cases particle with
    | none => cases h
    | some x =>
      refine ⟨x, by simp [parts], ?_⟩
      rw [sequence?] at h
      split at h
      · rename_i heq
        cases h
        rw [heq]
        rfl
      · cases h
  | _ => cases h

theorem sequence?_congr {look' : α → Shape α} (h : ∀ x, (.particle, x) ∈ s.parts → look' x = look x) :
    s.sequence? look' = s.sequence? look := by
  cases s with
  | complexType c decl attributes any model particle =>
    cases particle with
    | none => rfl
    | some x => rw [sequence?, sequence?, h x (by simp [parts])]
  | _ => rfl

end PayloadSchema.Schema.Shape

namespace PayloadSchema.Extraction.Store

open Schema

variable {s : Store} {p q : Place}

theorem Forest.nodup_children (hs : s.Forest) (p : Place) : (s.get p).children.Nodup := by
  rcases Nat.lt_or_ge p s.size with hlt | hge
  · refine List.nodup_iff_count_le_one.2 fun q => ?_
    have hcut := uses_update hlt (fun _ => .schemaNode) q
    have hnone : (Shape.schemaNode : Shape Place).children.count q = 0 := rfl
    have := hs.once q
    omega
  · rw [get_of_size_le hge]
    exact List.nodup_nil

/-- What is inside of a finished tree is finished, and not at the top of its schema. -/
theorem Shows.child (hp : s.Shows p) (hq : q ∈ (s.get p).children) : s.Shows q ∧ (s.get q).isTopLevel = false := by
  rw [Shape.children_eq_parts] at hq
  obtain ⟨part, hpart, rfl⟩ := List.mem_map.1 hq
  have hoffers := (neat_shows s).fits p hp part hpart
  exact ⟨hoffers.inside, hoffers.inner⟩

end PayloadSchema.Extraction.Store

namespace PayloadSchema.Payload

open Schema Extraction

/-! ## Trees of distinct elements -/

/-- A workspace whose target is a tree of distinct elements: the elements at its top are finished and stand there
under their own names, and no construct stands in two others. -/
structure Generated (w : Workspace) : Prop where
  shows : ∀ e ∈ w.target.elements, ShowsElement w e.2
  component : ∀ e ∈ w.target.elements, (w.store.get e.2).component? = some ⟨e.1, true⟩
  keyed : (w.target.elements.map (·.1)).Nodup
  forest : w.store.Forest

/-- The elements of a name that a search can come to, in the order in which it does: the one at the top of the schema,
and those in the levels below it. -/
def candidates (w : Workspace) (depth : Nat) (name : String) : List Place :=
  (w.target.elements.get? (some name)).toList ++
    (searched w depth (w.target.elements.values.flatMap (childElements w))).filter (isNamed w name)

section Search

variable {w w' : Workspace} {p p' q : Place} {level : List Place} {depth : Nat} {name : String} {space : String}
  {marked : List Place}

/-- Between an element and a child element of it there is a type and a sequence. -/
theorem exists_between (hq : q ∈ childElements w p) : ∃ t x, (w.store.get p).ownType? = some (some t) ∧
    (.particle, x) ∈ (w.store.get t).parts ∧ q ∈ (w.store.get x).children := by
  rw [childElements] at hq
  split at hq
  · rename_i t hown
    obtain ⟨hmem, -⟩ := List.mem_filter.1 hq
    cases hitems : (w.store.get t).sequence? w.store.get with
    | none =>
      have hnone : (shapeAt w t).sequence? (shapeAt w) = none := hitems
      simp [hnone] at hmem
    | some items =>
      obtain ⟨x, hx, rfl⟩ := Shape.exists_children_of_sequence? hitems
      have hsome : (shapeAt w t).sequence? (shapeAt w) = some (w.store.get x).children := hitems
      exact ⟨t, x, hown, hx, by simpa [hsome] using hmem⟩
  · cases hq

theorem parent_unique (hs : w.store.Forest) (hq : q ∈ childElements w p) (hq' : q ∈ childElements w p') : p = p' := by
  obtain ⟨t, x, hown, hx, hq⟩ := exists_between hq
  obtain ⟨t', x', hown', hx', hq'⟩ := exists_between hq'
  obtain rfl := hs.parent_unique hq hq'
  obtain rfl := hs.parent_unique (Shape.mem_children_of_mem_parts hx) (Shape.mem_children_of_mem_parts hx')
  exact hs.parent_unique (Shape.mem_children_of_ownType? hown) (Shape.mem_children_of_ownType? hown')

theorem nodup_childElements (hs : w.store.Forest) (p : Place) : (childElements w p).Nodup := by
  rw [childElements]
  split
  · rename_i t hown
    refine List.Nodup.filter _ ?_
    cases hitems : (shapeAt w t).sequence? (shapeAt w) with
    | none => exact List.nodup_nil
    | some items =>
      obtain ⟨x, -, rfl⟩ := Shape.exists_children_of_sequence? hitems
      exact hs.nodup_children x
  · exact List.nodup_nil

theorem isTopLevel_child (hp : ShowsElement w p) (hq : q ∈ childElements w p) :
    (w.store.get q).isTopLevel = false := by
  obtain ⟨t, x, hown, hx, hq⟩ := exists_between hq
  have ht := (hp.shows.child (Shape.mem_children_of_ownType? hown)).1
  exact ((ht.child (Shape.mem_children_of_mem_parts hx)).1.child hq).2

def Below (w : Workspace) : Place → Place → Prop :=
  Relation.TransGen fun p q => q ∈ childElements w p

theorem below_of_mem_searched (hq : q ∈ searched w depth (level.flatMap (childElements w))) :
    ∃ p ∈ level, Below w p q := by
  induction depth generalizing level with
  | zero => cases hq
  | succ depth ih =>
    rw [searched, List.mem_append] at hq
    rcases hq with hq | hq
    · obtain ⟨p, hp, hq⟩ := List.mem_flatMap.1 hq
      exact ⟨p, hp, .single hq⟩
    · obtain ⟨x, hx, hq⟩ := ih hq
      obtain ⟨p, hp, hx⟩ := List.mem_flatMap.1 hx
      exact ⟨p, hp, .head hx hq⟩

/-- A search comes to no element twice, if no element of the level where it starts is below another one of it. -/
theorem nodup_searched (hs : w.store.Forest) (hlevel : level.Nodup)
    (hclear : ∀ p ∈ level, ∀ q ∈ level, ¬ Below w p q) : (searched w depth level).Nodup := by
  induction depth generalizing level with
  | zero => exact List.nodup_nil
  | succ depth ih =>
    refine List.nodup_append.2 ⟨hlevel, ih ?_ ?_, fun q hq q' hq' heq => ?_⟩
    · refine List.nodup_flatMap.2 ⟨fun p _ => nodup_childElements hs p, hlevel.imp fun hne q hq hq' => ?_⟩
      exact hne (parent_unique hs hq hq')
    · intro p hp q hq hbelow
      obtain ⟨x, hx, hp⟩ := List.mem_flatMap.1 hp
      obtain ⟨y, hy, hq⟩ := List.mem_flatMap.1 hq
      -- the last step to an element comes from its parent
      obtain ⟨z, hpz, hz⟩ := Relation.TransGen.tail'_iff.1 hbelow
      obtain rfl := parent_unique hs hz hq
      exact hclear x hx z hy (.head' hp hpz)
    · subst heq
      obtain ⟨p, hp, hbelow⟩ := below_of_mem_searched hq'
      exact hclear p hp q hq hbelow

theorem shows_of_mem_searched (hlevel : ∀ q ∈ level, ShowsElement w q) :
    ∀ q ∈ searched w depth level, ShowsElement w q := by
  induction depth generalizing level with
  | zero => simp [searched]
  | succ depth ih =>
    refine List.forall_mem_append.2 ⟨hlevel, ih fun q hq => ?_⟩
    obtain ⟨p, hp, hq⟩ := List.mem_flatMap.1 hq
    exact (hlevel p hp).child hq

theorem Generated.onTop (hw : Generated w) : ∀ p ∈ w.target.elements.values, ShowsElement w p := by
  intro p hp
  obtain ⟨e, he, rfl⟩ := List.mem_map.1 hp
  exact hw.shows e he

/-- All elements that a search can come to are different, from the top of the schema on. -/
theorem Generated.nodup_searched (hw : Generated w) (depth : Nat) :
    (searched w depth w.target.elements.values).Nodup := by
  have htop : w.target.elements.values.Nodup := by
    refine List.Nodup.of_map (fun p => (w.store.get p).component?.map (·.name)) ?_
    have hnames : w.target.elements.values.map (fun p => (w.store.get p).component?.map (·.name)) =
        (w.target.elements.map (·.1)).map some := by
      simp only [Table.values, List.map_map]
      exact List.map_congr_left fun e he => by simp [hw.component e he]
    rw [hnames]
    exact hw.keyed.map fun _ _ => Option.some.inj
  refine Payload.nodup_searched hw.forest htop fun p hp q hq hbelow => ?_
  obtain ⟨e, he, rfl⟩ := List.mem_map.1 hq
  -- what is below an element is not at the top
  have hinner : ∀ {p q}, ShowsElement w p → Below w p q → ShowsElement w q ∧ (w.store.get q).isTopLevel = false := by
    intro p q hp hbelow
    induction hbelow with
    | single hq => exact ⟨hp.child hq, isTopLevel_child hp hq⟩
    | tail _ hq ih => exact ⟨ih.1.child hq, isTopLevel_child ih.1 hq⟩
  have htop := (hinner (hw.onTop p hp) hbelow).2
  simp [Shape.isTopLevel, hw.component e he] at htop

theorem Generated.nodup_candidates (hw : Generated w) (depth : Nat) (name : String) :
    (candidates w depth name).Nodup := by
  have hall : (w.target.elements.values ++
      searched w depth (w.target.elements.values.flatMap (childElements w))).Nodup :=
    hw.nodup_searched (depth + 1)
  refine hall.sublist (List.Sublist.append ?_ List.filter_sublist)
  cases hget : w.target.elements.get? (some name) with
  | none => exact List.nil_sublist _
  | some p => exact List.singleton_sublist.2 (List.mem_map_of_mem (Table.mem_of_get? hget))

theorem Generated.named (hw : Generated w) (hp : p ∈ candidates w depth name) :
    ShowsElement w p ∧ (w.store.get p).name? = some name := by
  rcases List.mem_append.1 hp with hp | hp
  · have he := Table.mem_of_get? (Option.mem_toList.1 hp)
    exact ⟨hw.shows _ he, by rw [Shape.name?, hw.component _ he]; rfl⟩
  · obtain ⟨hp, hname⟩ := List.mem_filter.1 hp
    refine ⟨shows_of_mem_searched (fun q hq => ?_) p hp, isNamed_iff.1 hname⟩
    obtain ⟨x, hx, hq⟩ := List.mem_flatMap.1 hq
    exact (hw.onTop x hx).child hq

/-- The element that is found is the first candidate that has not been marked. -/
theorem Generated.find?_eq (hw : Generated w) (depth : Nat) (name : String) (marked : List Place) :
    find? w name depth marked = .ok ((candidates w depth name).find? (· ∉ marked)) := by
  have hall : w.target.elements.values.all fun p => (shapeAt w p).ownType?.isSome := by
    refine List.all_eq_true.2 fun p hp => ?_
    obtain ⟨c, d, own, hget⟩ := Shape.exists_of_kind_element (hw.onTop p hp).kind
    simp [shapeAt, hget, Shape.ownType?]
  have hfirst : (w.target.elements.get? (some name)).toList.find? (· ∉ marked) =
      (w.target.elements.get? (some name)).filter (· ∉ marked) := by
    cases w.target.elements.get? (some name) with
    | none => rfl
    | some p => by_cases hp : p ∈ marked <;> simp [Option.filter, hp]
  rw [find?, candidates, List.find?_append, hfirst, List.find?_filter]
  cases (w.target.elements.get? (some name)).filter (· ∉ marked) with
  | some p => rfl
  | none => simp only [hall, if_true, findBelow?_eq, Option.none_or, Bool.decide_and, Bool.decide_eq_true]

end Search

/-! ## A mark leaves the candidates -/

section Leave

variable {w w' : Workspace} {p q t : Place} {level level' : List Place} {depth : Nat} {name space : String}

/-- A name that does not end like that of an element that has taken over a simple type. -/
def Ordinary (name : String) : Prop :=
  ¬ valueSuffix.toList <:+ name.toList

/-- The element that takes over a simple type: its name is one of its own kind, and nothing is found below it. -/
structure IsValue (w : Workspace) (v : Place) : Prop where
  name : ∃ base, (w.store.get v).name? = some (base ++ valueSuffix)
  leaf : childElements w v = []

/-- A level that is as it was, but for elements that have taken over a simple type. -/
inductive Sprouts (w w' : Workspace) : List Place → List Place → Prop where
  | nil : Sprouts w w' [] []
  | same (p : Place) {level level' : List Place} (hp : ShowsElement w p) (h : Sprouts w w' level level') :
    Sprouts w w' (p :: level) (p :: level')
  | value (v : Place) {level level' : List Place} (hv : IsValue w' v) (h : Sprouts w w' level level') :
    Sprouts w w' level (v :: level')

theorem Sprouts.refl (h : ∀ p ∈ level, ShowsElement w p) : Sprouts w w' level level := by
  induction level with
  | nil => exact .nil
  | cons p level ih =>
    obtain ⟨hp, hlevel⟩ := List.forall_mem_cons.1 h
    exact .same p hp (ih hlevel)

theorem Sprouts.append {below below' : List Place} (h : Sprouts w w' level level')
    (h' : Sprouts w w' below below') : Sprouts w w' (level ++ below) (level' ++ below') := by
  induction h with
  | nil => exact h'
  | same p hp _ ih => exact .same p hp ih
  | value v hv _ ih => exact .value v hv ih

theorem Sprouts.children (hchild : ∀ p, ShowsElement w p → Sprouts w w' (childElements w p) (childElements w' p))
    (h : Sprouts w w' level level') :
    Sprouts w w' (level.flatMap (childElements w)) (level'.flatMap (childElements w')) := by
  induction h with
  | nil => exact .nil
  | same p hp _ ih => exact (hchild p hp).append ih
  | value v hv _ ih => simpa [hv.leaf] using ih

theorem Sprouts.searched (hchild : ∀ p, ShowsElement w p → Sprouts w w' (childElements w p) (childElements w' p))
    (hsame : ∀ p, ShowsElement w p → isNamed w' name p = isNamed w name p)
    (hname : Ordinary name) (h : Sprouts w w' level level') :
    (searched w' depth level').filter (isNamed w' name) = (searched w depth level).filter (isNamed w name) := by
  have hlevel {level level' : List Place} (h : Sprouts w w' level level') :
      level'.filter (isNamed w' name) = level.filter (isNamed w name) := by
    induction h with
    | nil => rfl
    | same p hp _ ih => rw [List.filter_cons, List.filter_cons, hsame p hp, ih]
    | value v hv _ ih =>
      rw [List.filter_cons_of_neg, ih]
      obtain ⟨base, hbase⟩ := hv.name
      rw [isNamed_iff, hbase]
      rintro ⟨rfl⟩
      exact hname ⟨base.toList, (String.toList_append ..).symm⟩
  induction depth generalizing level level' with
  | zero => rfl
  | succ depth ih =>
    rw [Payload.searched, Payload.searched, List.filter_append, List.filter_append, hlevel h, ih (h.children hchild)]

theorem childElements_preserves (hp : ShowsElement w p) (h : w.store.Preserves w'.store p)
    (hkind : ∀ x, w.store.Shows x → (w'.store.get x).kind = (w.store.get x).kind) :
    childElements w' p = childElements w p := by
  rw [childElements_eq, childElements_eq, h.here, Shape.inner, Shape.inner]
  split
  · rename_i t hown
    obtain ⟨ht, hshows⟩ := owns_type hp hown
    have hsequence : (w.store.get t).sequence? w'.store.get = (w.store.get t).sequence? w.store.get := by
      refine Shape.sequence?_congr fun x hx => h.owned x (ht.part hshows hx (by decide))
    rw [h.owned t ht, hsequence]
    cases hitems : (w.store.get t).sequence? w.store.get with
    | none => rfl
    | some items =>
      obtain ⟨x, hx, rfl⟩ := Shape.exists_children_of_sequence? hitems
      refine List.filter_congr fun i hi => ?_
      rw [hkind i ((hshows.child (Shape.mem_children_of_mem_parts hx)).1.child hi).1]
  · rfl

/-- The child elements of an element whose type is complex stay with a mark of it. -/
theorem childElements_spares (hp : ShowsElement w p) (hspares : w.store.Spares w'.store)
    (hown : (w.store.get p).ownType? = some (some t)) (htype : (w.store.get t).kind = .complexType) :
    childElements w' p = childElements w p := by
  obtain ⟨c, d, own, hget⟩ := Shape.exists_of_kind_element hp.kind
  obtain rfl : own = some t := by simpa [hget, Shape.ownType?] using hown
  obtain ⟨-, hshows⟩ := owns_type hp hown
  obtain ⟨c', d', attributes, any, model, particle, hst⟩ := Shape.exists_of_kind_complexType htype
  obtain ⟨attributes', hst'⟩ := hspares.type hshows.holds.lt_size hst
  have hsequence : (w'.store.get t).sequence? w'.store.get = (w.store.get t).sequence? w.store.get := by
    cases particle with
    | none => rw [hst, hst']; rfl
    | some x =>
      have hpart : (Role.particle, x) ∈ (w.store.get t).parts := by simp [hst, Shape.parts]
      obtain ⟨hshowsX, hsuits⟩ := hshows.part hpart
      obtain ⟨order, bounds, items, hx⟩ : ∃ order bounds items, w.store.get x = .modelGroup order bounds items := by
        generalize w.store.get x = shape at hsuits
        cases hsuits
        exact ⟨_, _, _, rfl⟩
      rw [hst, hst', Shape.sequence?, Shape.sequence?, hspares.group hshowsX.holds.lt_size hx]
  rw [childElements_eq, childElements_eq, hspares.element hp.shows.holds.lt_size hget htype, Shape.inner, Shape.inner,
    hown]
  simp only [hsequence]
  cases hitems : (w.store.get t).sequence? w.store.get with
  | none => rfl
  | some items =>
    obtain ⟨x, hx, rfl⟩ := Shape.exists_children_of_sequence? hitems
    refine List.filter_congr fun i hi => ?_
    have hi := ((hshows.child (Shape.mem_children_of_mem_parts hx)).1.child hi).1
    rw [hspares.kind i hi.holds.lt_size]

/-- An element has the child elements that it had, unless it had a simple type and was marked. -/
theorem sprouts_mark (hs : w.store.Forest) (hp : ShowsElement w p) (h : (mark p space).runIn w = (.ok (), w'))
    (hq : ShowsElement w q) : Sprouts w w' (childElements w q) (childElements w' q) := by
  have hkeeps := keeps_mark hp.shows hp.kind h
  by_cases hne : q = p
  · subst hne
    have hspares := (spares_mark hp h).1
    have hlt := hp.shows.holds.lt_size
    obtain ⟨c, d, own, hget, ⟨t, -, x, ⟨t', hown, htype, -⟩, -⟩ | ⟨t, rfl, ht, rfl⟩ | ⟨rfl, rfl⟩⟩ := mark_cases hp h
    · rw [childElements_spares hp hspares hown htype]
      exact .refl fun x hx => hq.child hx
    · obtain ⟨own, content, hst⟩ := Shape.exists_of_kind_simpleType ht
      have hold : childElements w q = [] := by
        simp [childElements, shapeAt, hget, hst, Shape.ownType?, Shape.sequence?]
      obtain ⟨hself, -, hvalue, hsequence, hwrapper⟩ := get_wrapped hlt hget (c.name.getD "") space
      have hnew : childElements { w with store := wrapped w.store q t (c.name.getD "") space } q =
          [w.store.size + 1] := by
        simp [childElements, shapeAt, hself, hwrapper, hsequence, hvalue, plainType, blankElement, Slot.fill,
          Shape.ownType?, Shape.sequence?, Shape.kind]
      have htype : (wrapped w.store q t (c.name.getD "") space).get t = .simpleType own content := by
        have hne : t ≠ q := by
          rintro rfl
          rw [hq.kind] at ht
          cases ht
        rw [wrapped, Store.get_edited_of_ne (Store.lt_size_of_kind (by rw [ht]; decide)) hne, hst]
      rw [hold, hnew]
      refine .value _ ⟨⟨c.name.getD "", ?_⟩, ?_⟩ .nil
      · rw [hvalue]
        rfl
      · simp [childElements, shapeAt, hvalue, htype, blankElement, Slot.fill, Shape.ownType?, Shape.sequence?]
    · have hold : childElements w q = [] := by
        simp [childElements, shapeAt, hget, Shape.ownType?]
      obtain ⟨hself, -, -, -, hwrapper⟩ := get_extended hlt hget (d.typeName.getD (xsd "anySimpleType")) space
      rw [hold]
      simpa [childElements, shapeAt, hself, hwrapper, plainType, Shape.sequence?] using Sprouts.nil
  · rw [childElements_preserves hq (preserves_mark hs hp h hq.kind hne) hkeeps.kind]
    exact .refl fun x hx => hq.child hx

theorem Generated.mark (hw : Generated w) (hp : ShowsElement w p) (h : (mark p space).runIn w = (.ok (), w')) :
    Generated w' := by
  have hkeeps := keeps_mark hp.shows hp.kind h
  have hspares := (spares_mark hp h).1
  refine ⟨fun e he => ?_, fun e he => ?_, ?_, forest_mark hw.forest hp h⟩
  · rw [hkeeps.target] at he
    exact (hw.shows e he).keeps hkeeps
  · rw [hkeeps.target] at he
    rw [hspares.component e.2 (hw.shows e he).shows.holds.lt_size, hw.component e he]
  · rw [hkeeps.target]
    exact hw.keyed

theorem candidates_mark (hw : Generated w) (hp : ShowsElement w p) (h : (mark p space).runIn w = (.ok (), w'))
    (hname : Ordinary name) : candidates w' depth name = candidates w depth name := by
  have hkeeps := keeps_mark hp.shows hp.kind h
  have hspares := (spares_mark hp h).1
  have hchild (q : Place) (hq : ShowsElement w q) := sprouts_mark hw.forest hp h hq
  have hsame (q : Place) (hq : ShowsElement w q) : isNamed w' name q = isNamed w name q := by
    simp only [isNamed, shapeAt, hspares.component q hq.shows.holds.lt_size]
  rw [candidates, candidates, hkeeps.target]
  congr 1
  exact ((Sprouts.refl hw.onTop).children hchild).searched hchild hsame hname

end Leave

/-! ## What is generated -/

section Sources

variable {c : Context} {w w' : Workspace} {seeds : List Seed} {roots : List Place} {m : Message}

theorem grafts_register {seed : Seed} {root : Place} (hname : seed.HasName)
    (hrun : (seed.register c).runIn w = (.ok root, w')) : w.store.Grafts w'.store := by
  rw [Seed.runIn_register hname] at hrun
  obtain ⟨_, w₁, hedits, hpure⟩ := Work.runIn_bind_eq_ok.1 hrun
  cases hpure
  have hleaf : (seed.blank c : Shape Place).children = [] := Seed.children_blank
  have hlt : w.store.size < (seed.begun c w).store.size := Store.lt_size_push _ _
  exact (Store.grafts_push_leaf hleaf).1.trans (works_performAll hlt hedits).grafts

theorem forest_runAll {calls : List Call} {ps : List Place} (hs : c.source.Proper)
    (hfrom : ∀ seed ∈ calls.flatMap Call.seeds, seed.IsFrom c.source) (h : Extracts c w seeds roots)
    (hforest : w.store.Forest) (hrun : (Call.runAll c calls).runIn w = (.ok ps, w')) : w'.store.Forest := by
  induction calls generalizing w seeds roots ps with
  | nil =>
    cases hrun
    exact hforest
  | cons call calls ih =>
    rw [Call.runAll, Work.runIn_bind_eq_ok] at hrun
    obtain ⟨first, w₁, hfirst, hrun⟩ := hrun
    obtain ⟨others, w₂, hothers, hpure⟩ := Work.runIn_bind_eq_ok.1 hrun
    cases hpure
    have hcall (seed : Seed) (hseed : seed ∈ call.seeds) : seed.IsFrom c.source := hfrom seed (by simp [hseed])
    refine ih (fun seed hseed => hfrom seed (by simp_all)) (h.call hs hcall hfirst) ?_ hothers
    cases call with
    | extract seed =>
      obtain ⟨_, _, hregister, hpure⟩ := Work.runIn_bind_eq_ok.1 hfirst
      cases hpure
      exact (grafts_register ((hcall seed (by simp [Call.seeds])).hasName) hregister).forest hforest
    | drain =>
      obtain ⟨_, _, hdrain, hpure⟩ := Work.runIn_bind_eq_ok.1 hfirst
      cases hpure
      exact (rests_drain h.tracks.sound hdrain).grafts.forest hforest

theorem generated_extraction {source : Schema} (hs : source.Proper) {space elementForm attributeForm : String}
    {limit : Nat} {calls : List Call} (hfrom : ∀ seed ∈ calls.flatMap Call.seeds, seed.IsFrom source)
    (hrun : (Call.runAll (.between source (.empty space elementForm attributeForm) limit) calls).runIn
      (.ofForms space elementForm attributeForm) = (.ok roots, w))
    (hitems : w.items = []) : Generated w := by
  obtain ⟨hreusable, -⟩ := reusable_extraction hs hfrom hrun hitems
  exact ⟨hreusable.shows, hreusable.component, hreusable.keyed,
    forest_runAll hs hfrom (extracts_ofForms _ _ _ _ _) Store.forest_empty hrun⟩

/-- The payload schema of a message is a tree of distinct elements, before anything in it is marked. -/
theorem generated_payload {w₁ : Workspace} (hs : c.source.Proper)
    (hadd : (addPayload c m).runIn (start c.source) = (.ok (), w₁)) (hdrain : (drain c).runIn w₁ = (.ok (), w)) :
    Generated w := by
  obtain ⟨asked, calls, header, body, root, name, hassembled⟩ :=
    assembled_addPayload hs (gathers_ofForms c _ _ _) hadd
  have hlaid := (laid_drain hs hassembled hdrain).named hs
  have helements : w.target.elements = [(some name, root)] := by
    rw [hlaid.target_eq]
    rfl
  have hroot : ∃ title, (w.store.get root).component? = some ⟨some title, true⟩ := by
    have haround {title : String} {items : List Place} (h : StandsMarked w true title items root) :
        ∃ title, (w.store.get root).component? = some ⟨some title, true⟩ := by
      obtain ⟨_, ⟨_, _, hget, -⟩, -⟩ := h
      exact ⟨title, by rw [hget]; rfl⟩
    have hstacked := hlaid.stacked
    unfold Stacked at hstacked
    split at hstacked
    · exact haround hstacked.2
    · obtain ⟨_, _, _, -, hroot, -⟩ := hstacked
      exact haround hroot
    · obtain ⟨-, _, _, hroot, -⟩ := hstacked
      exact haround hroot
    · rename_i hstyle hheader
      obtain ⟨-, hbody⟩ := hstacked
      split at hbody
      · rename_i hone
        obtain ⟨part, -, hnamed⟩ := exists_of_forall₂ (b := root) hlaid.body_stands (by simp [hbody])
        refine ⟨part.label, ?_⟩
        rw [hnamed.component, Message.isBare]
        simp [hstyle, hheader, hone]
      · exact haround hbody
  obtain ⟨title, hcomponent⟩ := hroot
  obtain rfl : title = name := by
    have htitled := hlaid.titled
    rw [Shape.name?, hcomponent] at htitled
    exact Option.some.inj htitled
  refine ⟨?_, ?_, ?_, (rests_drain hassembled.gathers.tracks.sound hdrain).grafts.forest hassembled.gathers.forest⟩
  · simpa [helements] using hlaid.top
  · simpa [helements] using hcomponent
  · simp [helements]

end Sources

/-! ## The matching -/

/-- Whether an element is what a target is matched with: among the candidates for the name of the target, as many come
before the element as there are earlier targets with the name. -/
def Matches (w : Workspace) (depth : Nat) (targets : List QName) (i : Nat) (q : QName) (p : Place) : Prop :=
  targets[i]? = some q ∧ (candidates w depth q.name)[(targets.take i).countP (·.name = q.name)]? = some p

section Matching

variable {w w' : Workspace} {p : Place} {q q' : QName} {depth i j : Nat} {name : String} {marked : List Place}
  {targets done rest : List QName}

/-- What is left of a list after its first items, when one more of its items is taken away. -/
theorem filter_drop_succ {α : Type} [DecidableEq α] {l : List α} {k : Nat} {a : α} {keep : α → Bool} (hl : l.Nodup)
    (ha : l[k]? = some a) (hkeep : l.filter keep = l.drop k) :
    l.filter (fun b => b ≠ a && keep b) = l.drop (k + 1) := by
  obtain ⟨hk, rfl⟩ := List.getElem?_eq_some_iff.1 ha
  have hsplit : l.drop k = l[k] :: l.drop (k + 1) := List.drop_eq_getElem_cons hk
  have hnot : l[k] ∉ l.drop (k + 1) := by
    have hnodup : (l.drop k).Nodup := hl.sublist (List.drop_sublist k l)
    rw [hsplit] at hnodup
    exact (List.nodup_cons.1 hnodup).1
  have hrest : (l.drop (k + 1)).filter (fun b => decide (b ≠ l[k])) = l.drop (k + 1) :=
    List.filter_eq_self.2 fun b hb => decide_eq_true fun heq => hnot (heq ▸ hb)
  rw [← List.filter_filter, hkeep, hsplit, List.filter_cons_of_neg (by simp), hrest]

theorem countP_take_lt (hi : targets[i]? = some q) (hij : i < j) :
    (targets.take i).countP (·.name = q.name) < (targets.take j).countP (·.name = q.name) := by
  have hnext : targets.take (i + 1) = targets.take i ++ [q] := by rw [List.take_add_one, hi, Option.toList_some]
  have hle : (targets.take (i + 1)).countP (·.name = q.name) ≤ (targets.take j).countP (·.name = q.name) :=
    (List.take_sublist_take_left hij).countP_le
  rw [hnext, List.countP_append, List.countP_singleton, if_pos (decide_eq_true rfl)] at hle
  omega

theorem Matches.mem (h : Matches w depth targets i q p) : p ∈ candidates w depth q.name :=
  List.mem_of_getElem? h.2

theorem Matches.unique (hw : Generated w) (h : Matches w depth targets i q p) (h' : Matches w depth targets j q' p) :
    i = j := by
  have hname : q.name = q'.name :=
    Option.some.inj ((hw.named h.mem).2.symm.trans (hw.named h'.mem).2)
  obtain ⟨hi, hp⟩ := h
  obtain ⟨hj, hp'⟩ := h'
  rw [← hname] at hp'
  have hcount : (targets.take i).countP (·.name = q.name) = (targets.take j).countP (·.name = q.name) :=
    (List.getElem?_inj (List.getElem?_eq_some_iff.1 hp).1 (hw.nodup_candidates depth q.name)).1 (hp.trans hp'.symm)
  rcases Nat.lt_trichotomy i j with hij | rfl | hij
  · exact absurd hcount (Nat.ne_of_lt (countP_take_lt hi hij))
  · rfl
  · rw [hname] at hcount
    exact absurd hcount (Nat.ne_of_gt (countP_take_lt hj hij))

theorem Matches.mark {space : String} (hw : Generated w) (hp : ShowsElement w p)
    (hmark : (mark p space).runIn w = (.ok (), w')) (hname : Ordinary q.name) {x : Place} :
    Matches w' depth targets i q x ↔ Matches w depth targets i q x := by
  rw [Matches, Matches, candidates_mark hw hp hmark hname]

/-- What is known when some targets have been matched: of the candidates for a name so many are marked, the first ones,
as targets had the name. -/
structure MatchedUpTo (w : Workspace) (depth : Nat) (done : List QName) (marked : List Place) : Prop where
  generated : Generated w
  left : ∀ name, Ordinary name → (candidates w depth name).filter (· ∉ marked) =
    (candidates w depth name).drop (done.countP (·.name = name))
  enough : ∀ name, Ordinary name → done.countP (·.name = name) ≤ (candidates w depth name).length

theorem Generated.matchedUpTo (hw : Generated w) (depth : Nat) : MatchedUpTo w depth [] [] :=
  ⟨hw, by simp, by simp⟩

theorem MatchedUpTo.find?_eq (h : MatchedUpTo w depth done marked) (hname : Ordinary name) :
    find? w name depth marked = .ok (candidates w depth name)[done.countP (·.name = name)]? := by
  rw [h.generated.find?_eq, ← List.head?_filter, h.left name hname, List.head?_drop]

theorem MatchedUpTo.mark (h : MatchedUpTo w depth done marked)
    (hp : (candidates w depth q.name)[done.countP (·.name = q.name)]? = some p)
    (hmark : (mark p q.space).runIn w = (.ok (), w')) : MatchedUpTo w' depth (done ++ [q]) (p :: marked) := by
  obtain ⟨hw, hleft, henough⟩ := h
  obtain ⟨hshows, hnamed⟩ := hw.named (List.mem_of_getElem? hp)
  refine ⟨hw.mark hshows hmark, fun name hname => ?_, fun name hname => ?_⟩ <;>
    rw [candidates_mark hw hshows hmark hname, List.countP_append, List.countP_singleton] <;>
    by_cases hsame : q.name = name
  · subst hsame
    have hnext := filter_drop_succ (hw.nodup_candidates depth q.name) hp (hleft q.name hname)
    simpa [not_or] using hnext
  · rw [if_neg (by simpa using hsame), Nat.add_zero, ← hleft name hname]
    refine List.filter_congr fun x hx => ?_
    have hne : x ≠ p := by
      rintro rfl
      exact hsame (Option.some.inj (hnamed.symm.trans (hw.named hx).2))
    simp [hne]
  · subst hsame
    rw [if_pos (decide_eq_true rfl)]
    exact (List.getElem?_eq_some_iff.1 hp).1
  · simpa [hsame] using henough name hname

/-- What marks for the targets from a number on do: each of them marks the element that it is matched with, and every
other element is preserved. -/
structure MarkedFrom (n : Nat) (w : Workspace) (depth : Nat) (targets : List QName) (w' : Workspace) : Prop where
  matched : ∀ i ≥ n, ∀ q, targets[i]? = some q → ∃ p, Matches w depth targets i q p ∧
    (w'.store.get p).markers w'.store.get = (w.store.get p).markers w.store.get ++ [some q.space]
  preserved : ∀ p, (w.store.get p).kind = .element → (∀ i ≥ n, ∀ q, ¬ Matches w depth targets i q p) →
    w.store.Preserves w'.store p

theorem MarkedFrom.cons {n : Nat} {w₁ : Workspace} (h : MarkedFrom (n + 1) w₁ depth targets w') (hw : Generated w)
    (hordinary : ∀ q ∈ targets, Ordinary q.name) (hmatch : Matches w depth targets n q p)
    (hmark : (mark p q.space).runIn w = (.ok (), w₁)) : MarkedFrom n w depth targets w' := by
  obtain ⟨hshows, -⟩ := hw.named hmatch.mem
  have hkeeps := keeps_mark hshows.shows hshows.kind hmark
  have hsame (i : Nat) {q : QName} (hq : targets[i]? = some q) (x : Place) :
      Matches w₁ depth targets i q x ↔ Matches w depth targets i q x :=
    Matches.mark hw hshows hmark (hordinary q (List.mem_of_getElem? hq))
  have hpreserves (x : Place) (hx : (w.store.get x).kind = .element) (hne : x ≠ p) :
      w.store.Preserves w₁.store x := preserves_mark hw.forest hshows hmark hx hne
  -- the element that has just been marked is matched with nothing later, and so is preserved from there on
  have hkept : w₁.store.Preserves w'.store p := by
    refine h.preserved p ?_ fun i hi q' hmatch' => ?_
    · rw [hkeeps.kind p hshows.shows, hshows.kind]
    · have hunique := hmatch.unique hw ((hsame i hmatch'.1 p).1 hmatch')
      omega
  refine ⟨fun i hi q' hq' => ?_, fun x hx hnot => ?_⟩
  · rcases Nat.lt_or_eq_of_le hi with hlt | rfl
    · obtain ⟨x, hmatch', hmarkers⟩ := h.matched i hlt q' hq'
      have hmatch'' := (hsame i hq' x).1 hmatch'
      refine ⟨x, hmatch'', ?_⟩
      have hne : x ≠ p := by
        rintro rfl
        exact Nat.ne_of_lt hlt (hmatch.unique hw hmatch'')
      obtain ⟨hx, -⟩ := hw.named hmatch''.mem
      rw [hmarkers, markers_preserves hx (hpreserves x hx.kind hne)]
    · obtain rfl : q = q' := Option.some.inj (hmatch.1.symm.trans hq')
      exact ⟨p, hmatch, by rw [markers_preserves (hshows.keeps hkeeps) hkept,
        markers_mark hw.forest hshows hmark]⟩
  · have hne : x ≠ p := by
      rintro rfl
      exact hnot n (Nat.le_refl _) q hmatch
    refine (hpreserves x hx hne).trans (h.preserved x ?_ fun i hi q' hmatch' => ?_)
    · rwa [(hpreserves x hx hne).here]
    · exact hnot i (Nat.le_of_succ_le hi) q' ((hsame i hmatch'.1 x).1 hmatch')

/-- Marks in order match the targets that are left: one of them is missing only where there are not enough candidates
for a name, and otherwise each of them marks the element that it is matched with, and every other element is
preserved. -/
theorem runIn_markAll (h : MatchedUpTo w depth done marked) (htargets : targets = done ++ rest)
    (hordinary : ∀ q ∈ targets, Ordinary q.name) :
    (∃ q ∈ targets, (∃ w', (markAll depth marked rest).runIn w = (.error (.problem (.missingPartElement q)), w')) ∧
      (candidates w depth q.name).length < targets.countP (·.name = q.name)) ∨
    ∃ w', (markAll depth marked rest).runIn w = (.ok (), w') ∧
      (∀ name, Ordinary name → targets.countP (·.name = name) ≤ (candidates w depth name).length) ∧
      (∀ i ≥ done.length, ∀ q, targets[i]? = some q → ∃ p, Matches w depth targets i q p ∧
        (w'.store.get p).markers w'.store.get = (w.store.get p).markers w.store.get ++ [some q.space]) ∧
      ∀ p, (w.store.get p).kind = .element → (∀ i ≥ done.length, ∀ q, ¬ Matches w depth targets i q p) →
        w.store.Preserves w'.store p := by
  induction rest generalizing w done marked with
  | nil =>
    rw [List.append_nil] at htargets
    subst htargets
    refine .inr ⟨w, rfl, h.enough, fun i hi q hq => ?_, fun p _ _ => .refl _ _⟩
    rw [List.getElem?_eq_none hi] at hq
    cases hq
  | cons q rest ih =>
    have hmem : q ∈ targets := by simp [htargets]
    have hq := hordinary q hmem
    have hw := h.generated
    rw [runIn_markAll_cons, h.find?_eq hq]
    cases hp : (candidates w depth q.name)[done.countP (·.name = q.name)]? with
    | none =>
      refine .inl ⟨q, hmem, ⟨w, rfl⟩, ?_⟩
      have hlength := List.getElem?_eq_none_iff.1 hp
      rw [htargets, List.countP_append, List.countP_cons_of_pos (by simp)]
      omega
    | some p =>
      have hmatch : Matches w depth targets done.length q p := by
        refine ⟨by simp [htargets], ?_⟩
        rwa [htargets, List.take_left]
      obtain ⟨hshows, -⟩ := hw.named hmatch.mem
      obtain ⟨w₁, hmark, -⟩ := exists_mark q.space hshows.shows hshows.kind
      dsimp only
      rw [Work.runIn_bind_of_ok hmark]
      rcases ih (h.mark hp hmark) (by simp [htargets]) with
        ⟨q', hq', hrun, hlt⟩ | ⟨w', hrun, hall, hmatches, hrest⟩
      · rw [candidates_mark hw hshows hmark (hordinary q' hq')] at hlt
        exact .inl ⟨q', hq', hrun, hlt⟩
      · rw [List.length_append] at hmatches hrest
        have hmarked := MarkedFrom.cons ⟨hmatches, hrest⟩ hw hordinary hmatch hmark
        refine .inr ⟨w', hrun, fun name hname => ?_, hmarked.matched, hmarked.preserved⟩
        rw [← candidates_mark hw hshows hmark hname]
        exact hall name hname

/-- Marks are matched in order.  When all targets have ordinary names, one of them is missing if and only if more
targets have some name than there are candidates for it.  Otherwise a target gets the candidate for its name whose
number is that of the target among those with the name: this element gets one marker, with the namespace of the
target, and every other element is left as it is, with all that belongs to it. -/
theorem markAll_matches (hw : Generated w) (depth : Nat) {targets : List QName}
    (hordinary : ∀ q ∈ targets, Ordinary q.name) :
    ((∃ p w', (markAll depth [] targets).runIn w = (.error (.problem p), w') ∧ p.errorClass = .namespaceTarget) ↔
      ∃ name, (candidates w depth name).length < targets.countP (·.name = name)) ∧
    ((∀ name, targets.countP (·.name = name) ≤ (candidates w depth name).length) →
      ∃ w', (markAll depth [] targets).runIn w = (.ok (), w') ∧
        (∀ i q, targets[i]? = some q → ∃ p, Matches w depth targets i q p ∧
          markers (w'.store.tree p) = markers (w.store.tree p) ++ [some q.space]) ∧
        ∀ p, (w.store.get p).kind = .element → (∀ i q, ¬ Matches w depth targets i q p) →
          w.store.Preserves w'.store p) := by
  have hrun := runIn_markAll (hw.matchedUpTo depth) rfl hordinary
  simp only [List.nil_append, List.length_nil, ge_iff_le, Nat.zero_le, forall_const] at hrun
  rcases hrun with ⟨q, -, ⟨w', hrun⟩, hlt⟩ | ⟨w', hrun, hall, hmatches, hrest⟩
  · refine ⟨⟨fun _ => ⟨q.name, hlt⟩, fun _ => ⟨_, w', hrun, rfl⟩⟩, fun hall => ?_⟩
    exact absurd (hall q.name) (Nat.not_le.2 hlt)
  · refine ⟨⟨?_, ?_⟩, fun _ => ⟨w', hrun, fun i q hq => ?_, hrest⟩⟩
    · rintro ⟨p, w'', hfails, -⟩
      cases hrun.symm.trans hfails
    · rintro ⟨name, hlt⟩
      obtain ⟨q, hq, hname⟩ := List.countP_pos_iff.1 (Nat.zero_lt_of_lt hlt)
      obtain rfl := of_decide_eq_true hname
      exact absurd (hall q.name (hordinary q hq)) (Nat.not_le.2 hlt)
    · obtain ⟨p, hmatch, hmarkers⟩ := hmatches i q hq
      obtain ⟨hp, -⟩ := hw.named hmatch.mem
      have hkeeps := keeps_markAll hw.onTop hrun
      exact ⟨p, hmatch, by rw [markers_tree hp.shows, markers_tree (hp.keeps hkeeps).shows, hmarkers]⟩

/-- Targets of which three have the name of one element at the top and of two elements below it. -/
def orderTargets : List QName :=
  [⟨"urn:a", "note"⟩, ⟨"urn:b", "entry"⟩, ⟨"urn:c", "note"⟩, ⟨"urn:d", "order"⟩, ⟨"urn:e", "note"⟩]

theorem candidates_orderRun :
    candidates orderRun.2 3 "note" = [1, 4, 16] ∧ candidates orderRun.2 3 "entry" = [6] ∧
      candidates orderRun.2 3 "order" = [0] := by
  decide +kernel

theorem name_orderTargets {q : QName} (hq : q ∈ orderTargets) :
    q.name = "note" ∨ q.name = "entry" ∨ q.name = "order" := by
  revert q
  decide

/-- Each target of the sample marks the element at its place.  The three notes are the one at the top, one in the order
and one in the history of the order, which is left as it is. -/
theorem markAll_matches_sample :
    Generated orderRun.2 ∧ (∀ q ∈ orderTargets, Ordinary q.name) ∧
    ∃ w', (markAll 3 [] orderTargets).runIn orderRun.2 = (.ok (), w') ∧
      (∀ e ∈ orderTargets.zip [1, 6, 4, 0, 16],
        markers (w'.store.tree e.2) = markers (orderRun.2.store.tree e.2) ++ [some e.1.space]) ∧
      orderRun.2.store.Preserves w'.store 7 := by
  obtain ⟨hrun, hempty⟩ := orderRun_eq
  have hw := generated_extraction isRead_orderSchema.proper orderCalls_isFrom hrun hempty
  have hkind : (orderRun.2.store.get 7).kind = .element := by decide +kernel
  obtain ⟨hnote, hentry, horder⟩ := candidates_orderRun
  generalize orderRun.2 = w at *
  have hordinary : ∀ q ∈ orderTargets, Ordinary q.name := by
    intro q hq hsuffix
    have hlengths : ∀ q ∈ orderTargets, q.name.toList.length < valueSuffix.toList.length := by decide
    exact absurd hsuffix.length_le (Nat.not_le.2 (hlengths q hq))
  obtain ⟨w', hmark, hmatches, hrest⟩ := (markAll_matches hw 3 hordinary).2 fun name => by
    by_cases hname : ∃ q ∈ orderTargets, q.name = name
    · obtain ⟨q, hq, rfl⟩ := hname
      rcases name_orderTargets hq with h | h | h <;> simp only [h, hnote, hentry, horder] <;> decide
    · rw [List.countP_eq_zero.2 fun q hq => by simpa using fun h => hname ⟨q, hq, h⟩]
      exact Nat.zero_le _
  have hplace {i p : Nat} {q : QName} (hq : orderTargets[i]? = some q)
      (hp : (candidates w 3 q.name)[(orderTargets.take i).countP (·.name = q.name)]? = some p) :
      markers (w'.store.tree p) = markers (w.store.tree p) ++ [some q.space] := by
    obtain ⟨p', ⟨-, hp'⟩, hmarkers⟩ := hmatches i q hq
    cases hp.symm.trans hp'
    exact hmarkers
  refine ⟨hw, hordinary, w', hmark, ?_, hrest 7 hkind fun i q hmatch => ?_⟩
  · simp only [orderTargets, List.zip_cons_cons, List.zip_nil_left, List.forall_mem_cons]
    refine ⟨hplace (i := 0) rfl ?_, hplace (i := 1) rfl ?_, hplace (i := 2) rfl ?_, hplace (i := 3) rfl ?_,
      hplace (i := 4) rfl ?_, by simp⟩ <;> simp only [hnote, hentry, horder] <;> decide
  · have hmem := hmatch.mem
    rcases name_orderTargets (List.mem_of_getElem? hmatch.1) with h | h | h <;>
      simp [h, hnote, hentry, horder] at hmem

end Matching

end PayloadSchema.Payload
