import PayloadSchema.Proofs.Payload.UnmarkedParts
import PayloadSchema.Proofs.Store.Forests

/-!
# What belongs to an element

In a forest everything belongs to one element at most, which is the nearest one around it.  A mark only changes what
belongs to the element that it is put on, so every other element keeps all that belongs to it.
-/

namespace PayloadSchema.Schema.Shape

variable {α β : Type} {look : α → Shape α} {s : Shape α} {as : List α} {a d : α}

/-! ## The parts that a mark looks at -/

theorem mem_parts_of_ownType? {c : Component} {e : ElementDecl} (h : s = .element c e (some a)) :
    (.elementType, a) ∈ s.parts := by
  simp [h, parts]

theorem mem_parts_of_attributes? (h : s.attributes? = some as) (ha : a ∈ as) : (.attribute, a) ∈ s.parts := by
  cases s <;> cases h <;> simp [parts, ha]

theorem exists_model_of_derivation? (h : s.derivation? look = some d) :
    ∃ m, (.model, m) ∈ s.parts ∧ (look m).content? = some (some d) := by
  cases s with
  | complexType c decl attributes any model particle =>
    cases model with
    | none => cases h
    | some m => exact ⟨m, by simp [parts], Option.join_eq_some_iff.1 h⟩
  | _ => cases h

theorem derivation?_congr {look' : α → Shape α} (h : ∀ m, (.model, m) ∈ s.parts → look' m = look m) :
    s.derivation? look' = s.derivation? look := by
  cases s with
  | complexType c decl attributes any model particle =>
    cases model with
    | none => rfl
    | some m => rw [derivation?, derivation?, h m (by simp [parts])]
  | _ => rfl

@[simp] theorem derivation?_addAttribute (look : α → Shape α) (a : α) (s : Shape α) :
    (s.addAttribute a).derivation? look = s.derivation? look := by
  cases s with
  | complexType c decl attributes any model particle => cases model <;> rfl
  | _ => rfl

theorem exists_of_kind_complexType (h : s.kind = .complexType) :
    ∃ c d attributes any model particle, s = .complexType c d attributes any model particle := by
  cases s with
  | complexType c d attributes any model particle => exact ⟨c, d, attributes, any, model, particle, rfl⟩
  | modelGroup order _ _ => cases order <;> cases h
  | complexDerivation how _ _ _ _ => cases how <;> cases h
  | _ => cases h

theorem exists_of_kind_simpleType (h : s.kind = .simpleType) : ∃ c content, s = .simpleType c content := by
  cases s with
  | simpleType c content => exact ⟨c, content, rfl⟩
  | modelGroup order _ _ => cases order <;> cases h
  | complexDerivation how _ _ _ _ => cases how <;> cases h
  | _ => cases h

theorem attributes?_addAttribute (h : s.attributes? = some as) (a : α) :
    (s.addAttribute a).attributes? = some (as ++ [a]) := by
  cases s <;> cases h <;> rfl

end PayloadSchema.Schema.Shape

namespace PayloadSchema.Extraction.Store

open Schema

/-! ## Owners -/

/-- A place that belongs to an element: it stands inside of it, and no other element stands between them. -/
inductive Owns (s : Store) (p : Place) : Place → Prop where
  | child {x : Place} (hx : x ∈ (s.get p).children) (hkind : (s.get x).kind ≠ .element) : Owns s p x
  | inner {x y : Place} (hy : Owns s p y) (hx : x ∈ (s.get y).children) (hkind : (s.get x).kind ≠ .element) :
    Owns s p x

/-- A later store in which an element is as it was, with all that belongs to it. -/
structure Preserves (s s' : Store) (p : Place) : Prop where
  here : s'.get p = s.get p
  owned : ∀ x, s.Owns p x → s'.get x = s.get x

section Owns

variable {s s' s'' : Store} {p p' x y : Place}

theorem Owns.kind (h : s.Owns p x) : (s.get x).kind ≠ .element := by
  cases h with
  | child _ hkind => exact hkind
  | inner _ _ hkind => exact hkind

theorem Owns.lt_size (hs : s.Forest) (h : s.Owns p x) : x < s.size := by
  cases h with
  | child hx _ => exact hs.lt_size hx
  | inner _ hx _ => exact hs.lt_size hx

theorem Forest.owner_unique (hs : s.Forest) (hp : (s.get p).kind = .element) (hp' : (s.get p').kind = .element)
    (h : s.Owns p x) (h' : s.Owns p' x) : p = p' := by
  induction h with
  | child hx _ =>
    cases h' with
    | child hx' _ => exact hs.parent_unique hx hx'
    | inner hy' hx' _ =>
      obtain rfl := hs.parent_unique hx hx'
      exact absurd hp hy'.kind
  | inner hy hx _ ih =>
    cases h' with
    | child hx' _ =>
      obtain rfl := hs.parent_unique hx hx'
      exact absurd hp' hy.kind
    | inner hy' hx' _ =>
      obtain rfl := hs.parent_unique hx hx'
      exact ih hy'

theorem Preserves.refl (s : Store) (p : Place) : s.Preserves s p :=
  ⟨rfl, fun _ _ => rfl⟩

theorem Preserves.owns (h : s.Preserves s' p) (hx : s.Owns p x) : s'.Owns p x := by
  induction hx with
  | child hx hkind =>
    have hsame := h.owned _ (.child hx hkind)
    exact .child (by rwa [h.here]) (by rwa [hsame])
  | inner hy hx hkind ih =>
    have hsame := h.owned _ (.inner hy hx hkind)
    exact .inner ih (by rwa [h.owned _ hy]) (by rwa [hsame])

theorem Preserves.trans (h : s.Preserves s' p) (h' : s'.Preserves s'' p) : s.Preserves s'' p :=
  ⟨h'.here.trans h.here, fun x hx => (h'.owned x (h.owns hx)).trans (h.owned x hx)⟩

/-! ## The parts of a finished tree -/

/-- What a part of a finished tree can be used for, and that it is finished itself. -/
theorem Shows.part (hp : s.Shows p) {role : Role} (hpart : (role, x) ∈ (s.get p).parts) :
    s.Shows x ∧ (s.get x).Suits role := by
  have hneat := neat_shows s
  have hoffers := hneat.fits p hp _ hpart
  exact ⟨hoffers.inside, Shape.suits_of_admits hoffers.admits (hneat.plain x hoffers.inside).reference⟩

theorem kind_of_suits {role : Role} {shape : Shape Place} (h : shape.Suits role) (hrole : role ≠ .item) :
    shape.kind ≠ .element := by
  cases h with
  | complexDerivation how => cases how <;> simp [Shape.kind]
  | particle order => cases order <;> simp [Shape.kind]
  | groupContent order => cases order <;> simp [Shape.kind]
  | _ => first | exact absurd rfl hrole | simp [Shape.kind]

theorem Shows.owns_part (hp : s.Shows p) {role : Role} (hpart : (role, x) ∈ (s.get p).parts)
    (hrole : role ≠ .item) : s.Owns p x :=
  .child (Shape.mem_children_of_mem_parts hpart) (kind_of_suits (hp.part hpart).2 hrole)

theorem Owns.part (hy : s.Owns p y) (hshows : s.Shows y) {role : Role} (hpart : (role, x) ∈ (s.get y).parts)
    (hrole : role ≠ .item) : s.Owns p x :=
  .inner hy (Shape.mem_children_of_mem_parts hpart) (kind_of_suits (hshows.part hpart).2 hrole)

end Owns

/-! ## Forests that grow -/

section Forests

variable {s : Store} {shapes : List (Shape Place)} {p q : Place} {f : Shape Place → Shape Place}

theorem uses_pushAll (s : Store) (shapes : List (Shape Place)) (q : Place) :
    (s.pushAll shapes).uses q = s.uses q + (shapes.flatMap Shape.children).count q := by
  induction shapes generalizing s with
  | nil => simp [pushAll]
  | cons shape shapes ih =>
    calc ((s.pushAll (shape :: shapes)).uses q)
      _ = ((s.push shape).2.pushAll shapes).uses q := rfl
      _ = s.uses q + shape.children.count q + (shapes.flatMap Shape.children).count q := by rw [ih, uses_push]
      _ = s.uses q + ((shape :: shapes).flatMap Shape.children).count q := by
        rw [List.flatMap_cons, List.count_append, Nat.add_assoc]

theorem get_edited (hp : p < s.size) {i : Nat} {shape : Shape Place} (hi : shapes[i]? = some shape) :
    ((s.pushAll shapes).update p f).get (s.size + i) = shape := by
  rw [get_update_of_ne f (Nat.ne_of_gt (hp.trans_le (Nat.le_add_right _ _))), get_pushAll s hi]

theorem get_edited_self (hp : p < s.size) : ((s.pushAll shapes).update p f).get p = f (s.get p) := by
  have hgrown := s.grown_pushAll shapes
  rw [get_update_self f (hp.trans_le hgrown.size_le), hgrown.get_eq p hp]

theorem get_edited_of_ne (hq : q < s.size) (hne : q ≠ p) : ((s.pushAll shapes).update p f).get q = s.get q := by
  rw [get_update_of_ne f hne, (s.grown_pushAll shapes).get_eq q hq]

/-- A forest stays one where constructs are added and an old one is changed, if nothing is taken in but new places and
what the old one gives away. -/
theorem Forest.edited (hs : s.Forest) (hp : p < s.size)
    (hcount : ∀ q, (shapes.flatMap Shape.children).count q + (f (s.get p)).children.count q ≤
      (s.get p).children.count q + (List.range' s.size shapes.length).count q) :
    ((s.pushAll shapes).update p f).Forest := by
  have hgrown := s.grown_pushAll shapes
  have huses (q : Place) : ((s.pushAll shapes).update p f).uses q ≤
      s.uses q + (List.range' s.size shapes.length).count q := by
    have hadded := uses_pushAll s shapes q
    have hchanged := uses_update (hp.trans_le hgrown.size_le) f q
    rw [hgrown.get_eq p hp] at hchanged
    have := hcount q
    omega
  have hold (q : Nat) (hq : ¬ (s.size ≤ q ∧ q < s.size + shapes.length)) :
      (List.range' s.size shapes.length).count q = 0 :=
    List.count_eq_zero_of_not_mem fun hmem => hq (List.mem_range'_1.1 hmem)
  have hnew (q : Place) : (List.range' s.size shapes.length).count q ≤ 1 :=
    List.nodup_iff_count_le_one.1 List.nodup_range' q
  refine ⟨fun q => ?_, fun q hq => ?_⟩
  · have hle := huses q
    rcases Nat.lt_or_ge q s.size with hlt | hge
    · have := hold q (by omega)
      have := hs.once q
      omega
    · have := hs.inside q hge
      have := hnew q
      omega
  · rw [size_update, size_pushAll] at hq
    have hle := huses q
    have := hold q (by omega)
    have := hs.inside q ((Nat.le_add_right _ _).trans hq)
    omega

end Forests

end PayloadSchema.Extraction.Store

namespace PayloadSchema.Payload

open Schema Extraction

section Stores

variable {s : Store} {p t : Place} {c : Component} {d : ElementDecl}

theorem get_wrapped (hp : p < s.size) (hget : s.get p = .element c d (some t)) (name space : String) :
    let s' := wrapped s p t name space
    s'.get p = .element c d (some (s.size + 3)) ∧ s'.get s.size = marker space ∧
      s'.get (s.size + 1) = Slot.type.fill t (blankElement (some (name ++ valueSuffix)) false none) ∧
      s'.get (s.size + 2) = .modelGroup .sequence .once [s.size + 1] ∧
      s'.get (s.size + 3) = plainType [s.size] none (some (s.size + 2)) := by
  refine ⟨?_, Store.get_edited (i := 0) hp rfl, Store.get_edited hp rfl, Store.get_edited hp rfl,
    Store.get_edited hp rfl⟩
  rw [wrapped, Store.get_edited_self hp, hget]
  rfl

/-- The constructs by which an element without a type of its own is marked. -/
theorem get_extended (hp : p < s.size) (hget : s.get p = .element c d none) (base : QName) (space : String) :
    let s' := extended s p base space
    (s'.get p).ownType? = some (some (s.size + 3)) ∧ s'.get s.size = marker space ∧
      s'.get (s.size + 1) = .simpleContentExtension (some base) [s.size] none ∧
      s'.get (s.size + 2) = .simpleContent (some (s.size + 1)) ∧
      s'.get (s.size + 3) = plainType [] (some (s.size + 2)) none := by
  refine ⟨?_, Store.get_edited (i := 0) hp rfl, Store.get_edited hp rfl, Store.get_edited hp rfl,
    Store.get_edited hp rfl⟩
  rw [extended, Store.get_edited_self hp, hget]
  rfl

end Stores

section Marks

variable {w w' : Workspace} {p q t m x : Place} {space : String}

theorem owns_type (hp : ShowsElement w p) (hown : (w.store.get p).ownType? = some (some t)) :
    w.store.Owns p t ∧ w.store.Shows t := by
  obtain ⟨c, d, own, hget⟩ := Shape.exists_of_kind_element hp.kind
  obtain rfl : own = some t := by simpa [hget, Shape.ownType?] using hown
  have hpart := Shape.mem_parts_of_ownType? hget
  exact ⟨hp.shows.owns_part hpart (by decide), (hp.shows.part hpart).1⟩

theorem owns_model (hp : ShowsElement w p) (hown : (w.store.get p).ownType? = some (some t))
    (hm : (.model, m) ∈ (w.store.get t).parts) :
    w.store.Owns p m ∧ w.store.Shows m ∧ (w.store.get m).Suits .model := by
  obtain ⟨ht, hshows⟩ := owns_type hp hown
  exact ⟨ht.part hshows hm (by decide), hshows.part hm⟩

/-- What the own type of a finished element derives its content by belongs to the element. -/
theorem owns_derivation (hp : ShowsElement w p) (hown : (w.store.get p).ownType? = some (some t))
    (hx : (w.store.get t).derivation? w.store.get = some x) :
    w.store.Owns p x ∧ w.store.Shows x ∧ (w.store.get x).kind ≠ .complexType ∧
      ∃ attributes, (w.store.get x).attributes? = some attributes := by
  obtain ⟨m, hm, hcontent⟩ := Shape.exists_model_of_derivation? hx
  obtain ⟨hmodel, hshows, hsuits⟩ := owns_model hp hown hm
  have hderives (role : Role) (hpart : (role, x) ∈ (w.store.get m).parts)
      (hrole : role = .simpleDerivation ∨ role = .complexDerivation) :
      w.store.Owns p x ∧ w.store.Shows x ∧ (w.store.get x).kind ≠ .complexType ∧
        ∃ attributes, (w.store.get x).attributes? = some attributes := by
    obtain ⟨hshowsX, hsuitsX⟩ := hshows.part hpart
    refine ⟨hmodel.part hshows hpart (by rintro rfl; simp at hrole), hshowsX, ?_⟩
    generalize w.store.get x = shape at hsuitsX
    rcases hrole with rfl | rfl
    · cases hsuitsX <;> exact ⟨by simp [Shape.kind], _, rfl⟩
    · cases hsuitsX with
      | complexDerivation how => exact ⟨by cases how <;> simp [Shape.kind], _, rfl⟩
  generalize hshape : w.store.get m = shape at hsuits hcontent hderives
  cases hsuits with
  | simpleContent content =>
    cases hcontent
    exact hderives .simpleDerivation (by simp [Shape.parts]) (.inl rfl)
  | complexContent mixed content =>
    cases hcontent
    exact hderives .complexDerivation (by simp [Shape.parts]) (.inr rfl)

theorem owns_bearer (hp : ShowsElement w p) (hx : Bears w.store p x) :
    w.store.Owns p x ∧ ∃ attributes, (w.store.get x).attributes? = some attributes := by
  obtain ⟨t, hown, htype, ⟨-, rfl⟩ | hderivation⟩ := hx
  · refine ⟨(owns_type hp hown).1, ?_⟩
    obtain ⟨-, hshows⟩ := owns_type hp hown
    obtain ⟨c, d, attributes, any, model, particle, hget⟩ := Shape.exists_of_kind_complexType htype
    exact ⟨attributes, by rw [hget]; rfl⟩
  · obtain ⟨howns, -, -, hattributes⟩ := owns_derivation hp hown hderivation
    exact ⟨howns, hattributes⟩

theorem forest_mark (hs : w.store.Forest) (hp : ShowsElement w p) (h : (mark p space).runIn w = (.ok (), w')) :
    w'.store.Forest := by
  obtain ⟨c, d, own, hget, ⟨t, -, x, hx, rfl⟩ | ⟨t, rfl, -, rfl⟩ | ⟨rfl, rfl⟩⟩ := mark_cases hp h
  · refine hs.edited ((owns_bearer hp hx).1.lt_size hs) fun q => ?_
    cases w.store.get x <;>
      simp only [marker, Shape.addAttribute, Shape.children, List.flatMap_cons, List.flatMap_nil, List.count_append,
        List.count_nil, List.length_singleton, List.range'_one, Option.toList_none] <;> omega
  · refine hs.edited hp.shows.holds.lt_size fun q => ?_
    rw [hget]
    simp [marker, blankElement, plainType, Slot.fill, Shape.withOwnType, Shape.children, List.range'_succ,
      List.count_cons, Nat.add_assoc]
    omega
  · refine hs.edited hp.shows.holds.lt_size fun q => ?_
    rw [hget]
    simp [marker, plainType, Slot.fill, Shape.children, List.range'_succ, List.count_cons, Nat.add_assoc]
    omega

theorem preserves_mark (hs : w.store.Forest) (hp : ShowsElement w p) (h : (mark p space).runIn w = (.ok (), w'))
    (hq : (w.store.get q).kind = .element) (hne : q ≠ p) : w.store.Preserves w'.store q := by
  -- it is enough that one construct is changed that the element does not own
  have hedited {x : Place} {shapes : List (Shape Place)} {f : Shape Place → Shape Place} (hx : q ≠ x)
      (howned : ∀ y, w.store.Owns q y → y ≠ x) :
      w.store.Preserves ((w.store.pushAll shapes).update x f) q := by
    exact ⟨Store.get_edited_of_ne (Store.lt_size_of_kind (by rw [hq]; decide)) hx,
      fun y hy => Store.get_edited_of_ne (hy.lt_size hs) (howned y hy)⟩
  obtain ⟨c, d, own, hget, ⟨t, -, x, hx, rfl⟩ | ⟨t, rfl, -, rfl⟩ | ⟨rfl, rfl⟩⟩ := mark_cases hp h
  · have howns := (owns_bearer hp hx).1
    exact hedited (fun heq => howns.kind (heq ▸ hq))
      fun y hy heq => hne (hs.owner_unique hq hp.kind hy (heq ▸ howns))
  · exact hedited hne fun y hy heq => hy.kind (heq ▸ hp.kind)
  · exact hedited hne fun y hy heq => hy.kind (heq ▸ hp.kind)

end Marks

/-! ## Markers -/

section Markers

variable {w w' : Workspace} {p t a : Place} {space : String}

theorem owns_carried (hp : ShowsElement w p) (ha : a ∈ (w.store.get p).carried w.store.get) :
    w.store.Owns p a ∧ (w.store.get a).attributes? = none := by
  have hattribute {x : Place} {attributes : List Place} (hx : w.store.Owns p x) (hshows : w.store.Shows x)
      (hattributes : (w.store.get x).attributes? = some attributes) (ha : a ∈ attributes) :
      w.store.Owns p a ∧ (w.store.get a).attributes? = none := by
    have hpart := Shape.mem_parts_of_attributes? hattributes ha
    refine ⟨hx.part hshows hpart (by decide), ?_⟩
    obtain ⟨-, hsuits⟩ := hshows.part hpart
    generalize w.store.get a = shape at hsuits
    cases hsuits
    rfl
  rw [Shape.carried] at ha
  split at ha
  · rename_i t hown
    obtain ⟨ht, hshows⟩ := owns_type hp hown
    rcases List.mem_append.1 ha with ha | ha
    · cases hattributes : (w.store.get t).attributes? with
      | none => simp [hattributes] at ha
      | some attributes => exact hattribute ht hshows hattributes (by simpa [hattributes] using ha)
    · cases hderivation : (w.store.get t).derivation? w.store.get with
      | none => simp [hderivation] at ha
      | some x =>
        obtain ⟨hx, hshowsX, -, attributes, hattributes⟩ := owns_derivation hp hown hderivation
        exact hattribute hx hshowsX hattributes (by simpa [hderivation, hattributes] using ha)
  · cases ha

theorem markers_preserves (hp : ShowsElement w p) (h : w.store.Preserves w'.store p) :
    (w'.store.get p).markers w'.store.get = (w.store.get p).markers w.store.get := by
  have hcarried : (w'.store.get p).carried w'.store.get = (w.store.get p).carried w.store.get := by
    rw [h.here, Shape.carried, Shape.carried]
    split
    · rename_i t hown
      rw [h.owned t (owns_type hp hown).1, Shape.derivation?_congr fun m hm => h.owned m (owns_model hp hown hm).1]
      cases hderivation : (w.store.get t).derivation? w.store.get with
      | none => rfl
      | some x =>
        obtain ⟨hx, -⟩ := owns_derivation hp hown hderivation
        rw [Option.bind_some, Option.bind_some, h.owned x hx]
    · rfl
  rw [Shape.markers, Shape.markers, hcarried]
  refine List.filterMap_congr fun a ha => ?_
  rw [h.owned a (owns_carried hp ha).1]

/-- The attributes that what bears the mark of an element takes come last among those of the element. -/
private theorem carried_bearer {s' : Store} {x note : Place} (hs : w.store.Forest) (hp : ShowsElement w p)
    (hx : Bears w.store p x) (hself : s'.get x = (w.store.get x).addAttribute note)
    (hother : ∀ y < w.store.size, y ≠ x → s'.get y = w.store.get y) :
    (s'.get p).carried s'.get = (w.store.get p).carried w.store.get ++ [note] := by
  obtain ⟨howns, attributes, hattributes⟩ := owns_bearer hp hx
  obtain ⟨t, hown, htype, hbears⟩ := hx
  have ht := owns_type hp hown
  have hderivation : (w.store.get t).derivation? s'.get = (w.store.get t).derivation? w.store.get := by
    refine Shape.derivation?_congr fun m hm => ?_
    obtain ⟨howns, -, hsuits⟩ := owns_model hp hown hm
    refine hother m (howns.lt_size hs) ?_
    rintro rfl
    generalize w.store.get m = shape at hsuits hattributes
    cases hsuits <;> cases hattributes
  have hmarked : (s'.get p).ownType? = some (some t) := by
    rw [hother p hp.shows.holds.lt_size (fun heq => howns.kind (heq ▸ hp.kind)), hown]
  rw [Shape.carried, Shape.carried, hmarked, hown]
  rcases hbears with ⟨hnone, rfl⟩ | hsome
  · simp [hself, hderivation, hnone, hattributes, Shape.attributes?_addAttribute hattributes]
  · have hne : t ≠ x := by
      rintro rfl
      exact (owns_derivation hp hown hsome).2.2.1 htype
    simp [hother t (ht.1.lt_size hs) hne, hderivation, hsome, hself, hattributes,
      Shape.attributes?_addAttribute hattributes]

theorem markers_mark (hs : w.store.Forest) (hp : ShowsElement w p) (h : (mark p space).runIn w = (.ok (), w')) :
    (w'.store.get p).markers w'.store.get = (w.store.get p).markers w.store.get ++ [some space] := by
  have hlt := hp.shows.holds.lt_size
  have hmarker : (marker space).marker? = some (some space) := rfl
  obtain ⟨c, d, own, hget, ⟨t, rfl, x, hx, rfl⟩ | ⟨t, rfl, ht, rfl⟩ | ⟨rfl, rfl⟩⟩ := mark_cases hp h
  · obtain ⟨howns, attributes, hattributes⟩ := owns_bearer hp hx
    have hinside := howns.lt_size hs
    generalize hstore : (w.store.pushAll [marker space]).update x (·.addAttribute w.store.size) = s'
    have hself : s'.get x = (w.store.get x).addAttribute w.store.size := by
      rw [← hstore, Store.get_edited_self hinside]
    have hother (y : Place) (hy : y < w.store.size) (hne : y ≠ x) : s'.get y = w.store.get y := by
      rw [← hstore, Store.get_edited_of_ne hy hne]
    have hnote : s'.get (w.store.size + 0) = marker space := by
      rw [← hstore, Store.get_edited hinside rfl]
    rw [Shape.markers, Shape.markers, carried_bearer hs hp hx hself hother, List.filterMap_append]
    congr 1
    · refine List.filterMap_congr fun a ha => ?_
      obtain ⟨howned, hnone⟩ := owns_carried hp ha
      rw [hother a (howned.lt_size hs) (by rintro rfl; rw [hnone] at hattributes; cases hattributes)]
    · rw [Nat.add_zero] at hnote
      simp [hnote, hmarker]
  · obtain ⟨own, content, hst⟩ := Shape.exists_of_kind_simpleType ht
    have hold : (w.store.get p).markers w.store.get = [] := by
      simp [Shape.markers, Shape.carried, hget, hst, Shape.ownType?, Shape.attributes?, Shape.derivation?]
    obtain ⟨hself, hnote, -, -, htype⟩ := get_wrapped hlt hget (c.name.getD "") space
    rw [hold, List.nil_append]
    simp [Shape.markers, Shape.carried, hself, htype, hnote, hmarker, plainType, Shape.ownType?,
      Shape.attributes?, Shape.derivation?]
  · have hold : (w.store.get p).markers w.store.get = [] := by
      rw [hget]
      rfl
    obtain ⟨hself, hnote, hextension, hmodel, htype⟩ :=
      get_extended hlt hget (d.typeName.getD (xsd "anySimpleType")) space
    rw [hold, List.nil_append]
    simp [Shape.markers, Shape.carried, hself, htype, hmodel, hextension, hnote, hmarker, plainType,
      Shape.attributes?, Shape.derivation?, Shape.content?]

end Markers

end PayloadSchema.Payload
