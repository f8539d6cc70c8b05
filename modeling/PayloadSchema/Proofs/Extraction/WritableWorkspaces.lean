import PayloadSchema.Proofs.Extraction.Circles
import PayloadSchema.Proofs.Extraction.WritableCopies
import PayloadSchema.Proofs.Payload.UnmarkedParts

/-!
# Workspaces that can be written

In a workspace that is filled from a definite source, every construct at a place stays one that loses at most what it
refers to when it is written.  What stands at the top of the target keeps its name, and a reference is completed only at
a place that is inside.
-/

namespace PayloadSchema.Extraction

open Schema

/-! ## Stores -/

/-- A store in which writing loses at most what a construct refers to. -/
def Store.Lasting (ok : Char → Prop) (s : Store) : Prop :=
  ∀ p, (s.get p).Lasting ok

namespace Store

variable {ok : Char → Prop} {s : Store} {shape : Shape Place} {p : Place} {f : Shape Place → Shape Place}

theorem lasting_empty : Store.empty.Lasting ok := fun p => by
  rw [get_of_size_le (Nat.zero_le p)]
  exact ⟨⟨Shape.legible_silent rfl rfl rfl rfl rfl, by simp [Shape.occurs?]⟩, trivial⟩

theorem Lasting.push (hs : s.Lasting ok) (hshape : shape.Lasting ok) : (s.push shape).2.Lasting ok := by
  intro q
  rcases Nat.lt_trichotomy q s.size with hq | rfl | hq
  · rw [get_push_lt hq]
    exact hs q
  · rwa [get_push_size]
  · rw [get_of_size_le ((size_push s shape).le.trans hq), ← get_of_size_le (Nat.le_of_lt hq)]
    exact hs q

theorem Lasting.update (hs : s.Lasting ok) (hf : (f (s.get p)).Lasting ok) : (s.update p f).Lasting ok := by
  intro q
  by_cases hq : q = p
  · subst hq
    by_cases hlt : q < s.size
    · rwa [get_update_self f hlt]
    · rw [get_of_size_le (by simpa using hlt), ← get_of_size_le (Nat.not_lt.1 hlt)]
      exact hs q
  · rw [get_update_of_ne f hq]
    exact hs q

section Traverse

variable {α β : Type} {holds : Store → Prop}

def Upholds (holds : Store → Prop) (step : StateM Store α) : Prop :=
  ∀ s, holds s → holds (step.run s).2

theorem Upholds.bind {step : StateM Store α} {next : α → StateM Store β} (h : Upholds holds step)
    (hnext : ∀ a, Upholds holds (next a)) : Upholds holds (step >>= next) :=
  fun s hs => hnext _ _ (h s hs)

theorem upholds_pure {a : α} : Upholds holds (pure a) :=
  fun _ hs => hs

theorem upholds_list {f : α → StateM Store β} {l : List α} (h : ∀ a ∈ l, Upholds holds (f a)) :
    Upholds holds (l.mapM f) := by
  induction l with
  | nil => exact upholds_pure
  | cons a l ih =>
    obtain ⟨ha, hl⟩ := List.forall_mem_cons.1 h
    rw [List.mapM_cons]
    exact ha.bind fun _ => (ih hl).bind fun _ => upholds_pure

theorem upholds_option {f : α → StateM Store β} {o : Option α} (h : ∀ a ∈ o.toList, Upholds holds (f a)) :
    Upholds holds (o.mapM f) := by
  cases o with
  | none => exact upholds_pure
  | some a => exact (h a (by simp)).bind fun _ => upholds_pure

/-- What no step on an inner construct breaks is kept while a construct is gone through. -/
theorem upholds_traverse {f : α → StateM Store β} {shape : Shape α} (h : ∀ a ∈ shape.children, Upholds holds (f a)) :
    Upholds holds (shape.traverse f) := by
  have hoption {o : Option α} (ho : o.toList ⊆ shape.children) : Upholds holds (o.mapM f) :=
    upholds_option fun a ha => h a (ho ha)
  have hlist {l : List α} (hl : l ⊆ shape.children) : Upholds holds (l.mapM f) :=
    upholds_list fun a ha => h a (hl ha)
  cases shape with
  | schemaNode | facet | anyAttribute | wildcard | attributeRef | attributeGroupRef | groupRef | elementRef =>
    exact upholds_pure
  | simpleList | simpleType | «attribute» | group | simpleContent | complexContent | element =>
    exact (hoption (by simp [Shape.children])).bind fun _ => upholds_pure
  | simpleUnion | modelGroup => exact (hlist (by simp [Shape.children])).bind fun _ => upholds_pure
  | simpleRestriction =>
    exact (hoption (by simp [Shape.children])).bind fun _ =>
      (hlist (by simp [Shape.children])).bind fun _ => upholds_pure
  | attributeGroup | simpleContentExtension =>
    exact (hlist (by simp [Shape.children])).bind fun _ =>
      (hoption (by simp [Shape.children])).bind fun _ => upholds_pure
  | simpleContentRestriction =>
    exact (hoption fun a ha => by simp_all [Shape.children]).bind fun _ =>
      (hlist fun a ha => by simp_all [Shape.children]).bind fun _ =>
      (hlist fun a ha => by simp_all [Shape.children]).bind fun _ =>
      (hoption fun a ha => by simp_all [Shape.children]).bind fun _ => upholds_pure
  | complexDerivation =>
    exact (hoption fun a ha => by simp_all [Shape.children]).bind fun _ =>
      (hlist fun a ha => by simp_all [Shape.children]).bind fun _ =>
      (hoption fun a ha => by simp_all [Shape.children]).bind fun _ => upholds_pure
  | complexType =>
    exact (hlist fun a ha => by simp_all [Shape.children]).bind fun _ =>
      (hoption fun a ha => by simp_all [Shape.children]).bind fun _ =>
      (hoption fun a ha => by simp_all [Shape.children]).bind fun _ =>
      (hoption fun a ha => by simp_all [Shape.children]).bind fun _ => upholds_pure

end Traverse

private theorem upholds_pushShape {shape : Shape Node} (hshape : shape.Lasting ok)
    (ih : ∀ m ∈ shape.children, Upholds (Store.Lasting ok) (pushTree m)) :
    Upholds (Store.Lasting ok) (pushShape shape) := by
  intro s hs
  have hplants : Plants (shape.traverse pushTree) fun shape' s low =>
      shape'.map s.tree = shape ∧ HoldAll s low shape'.children shape.children :=
    plants_traverse fun m _ => plants_pushTree m
  have hmap := (hplants s s.size (Nat.le_refl _)).2.1
  have hown : ((shape.traverse pushTree).run s).1.Lasting ok := by
    refine (Shape.lasting_map (f := ((shape.traverse pushTree).run s).2.tree)).1 ?_
    rwa [hmap]
  exact (upholds_traverse ih s hs).push hown

theorem lasting_pushTree {n : Node} (h : n.Throughout (Shape.Lasting ok)) :
    Upholds (Store.Lasting ok) (pushTree n) := by
  induction h with
  | intro n here _ ih =>
    rw [pushTree_eq]
    exact upholds_pushShape here ih

theorem lasting_pushShape {shape : Shape Node} (h : Node.Throughout (Shape.Lasting ok) ⟨shape⟩) :
    Upholds (Store.Lasting ok) (pushShape shape) :=
  upholds_pushShape (throughout_iff.1 h).1 fun m hm => lasting_pushTree ((throughout_iff.1 h).2 m hm)

end Store

/-! ## Steps -/

structure Workspace.Lasting (ok : Char → Prop) (w : Workspace) : Prop where
  store : w.store.Lasting ok
  waits : ∀ i ∈ w.items, i.place < w.store.size ∧
    (i.origin.shape.isReference → (w.store.get i.place).isTopLevel = false)

/-- What a step keeps: lasting constructs, and the names of what stands at the top. -/
structure Retains (ok : Char → Prop) (w w' : Workspace) : Prop where
  size_le : w.store.size ≤ w'.store.size
  title : ∀ p < w.store.size, (w'.store.get p).title? = (w.store.get p).title?
  lasting : w.Lasting ok → w'.Lasting ok

section Steps

variable {ok : Char → Prop} {c : Context} {path : List ComponentKey} {w w' w'' : Workspace} {p : Place}
  {shape : Shape Place} {f : Shape Place → Shape Place} {child : Child} {e : Edit} {es : List Edit}

theorem Retains.refl (w : Workspace) : Retains ok w w :=
  ⟨Nat.le_refl _, fun _ _ => rfl, id⟩

theorem Retains.trans (h : Retains ok w w') (h' : Retains ok w' w'') : Retains ok w w'' := by
  refine ⟨h.size_le.trans h'.size_le, fun p hp => ?_, fun hw => h'.lasting (h.lasting hw)⟩
  rw [h'.title p (hp.trans_le h.size_le), h.title p hp]

theorem Retains.isTopLevel (h : Retains ok w w') (hp : p < w.store.size) :
    (w'.store.get p).isTopLevel = (w.store.get p).isTopLevel := by
  rw [Shape.isTopLevel_eq_title?, Shape.isTopLevel_eq_title?, h.title p hp]

theorem retains_of_store (hitems : w'.items = w.items) (hsize : w.store.size ≤ w'.store.size)
    (htitle : ∀ p < w.store.size, (w'.store.get p).title? = (w.store.get p).title?)
    (hstore : w.store.Lasting ok → w'.store.Lasting ok) : Retains ok w w' := by
  refine ⟨hsize, htitle, fun hw => ⟨hstore hw.store, fun i hi => ?_⟩⟩
  rw [hitems] at hi
  obtain ⟨hplace, hinside⟩ := hw.waits i hi
  refine ⟨hplace.trans_le hsize, fun hreference => ?_⟩
  rw [Shape.isTopLevel_eq_title?, htitle _ hplace, ← Shape.isTopLevel_eq_title?, hinside hreference]

theorem retains_push (hshape : shape.Lasting ok) :
    Retains ok w { w with store := (w.store.push shape).2 } :=
  retains_of_store rfl (by simp) (fun q hq => by rw [Store.get_push_lt hq]) fun hw => hw.push hshape

theorem retains_update (htitle : (f (w.store.get p)).title? = (w.store.get p).title?)
    (hf : (w.store.get p).Lasting ok → (f (w.store.get p)).Lasting ok) :
    Retains ok w { w with store := w.store.update p f } := by
  refine retains_of_store rfl (by simp) (fun q hq => ?_) fun hw => hw.update (hf (hw p))
  by_cases hqp : q = p
  · subst hqp
    rw [Store.get_update_self f hq, htitle]
  · rw [Store.get_update_of_ne f hqp]

theorem retains_schedule {key : Option ComponentKey} {n : Node} (hp : p < w.store.size)
    (hinside : n.shape.isReference → (w.store.get p).isTopLevel = false)
    (h : (schedule path key p n).runIn w = (.ok (), w')) : Retains ok w w' := by
  rw [runIn_schedule] at h
  split at h
  · cases h
    refine ⟨Nat.le_refl _, fun _ _ => rfl, fun hw => ⟨hw.store, fun i hi => ?_⟩⟩
    rw [Workspace.items, Queue.toList_push] at hi
    rcases List.mem_append.1 hi with hi | hi
    · exact hw.waits i hi
    · obtain rfl := List.mem_singleton.1 hi
      exact ⟨hp, hinside⟩
  · cases h

theorem retains_create (hs : c.source.Definite ok) (horigin : Contains c.source child.origin) (hchild : child.Definite)
    (h : (create c path child).runIn w = (.ok p, w')) : Retains ok w w' ∧ p < w'.store.size := by
  obtain ⟨shape, inside, houtline, -, rfl, rfl⟩ := runIn_create_eq_ok h
  obtain ⟨hlasting, hinside⟩ := lasting_child (hs.nodes _ horigin) (fun m hm => hs.nodes m (horigin.child hm)) hchild
    houtline
  have hstore := Store.lasting_pushShape hlasting w.store
  obtain ⟨s, own, hplanted, hmap, -, hrun⟩ := Store.run_pushShape w.store shape
  rw [hrun] at hstore ⊢
  have hgrown : w.store.Grown (s.push own).2 := hplanted.toGrown.trans (Store.grown_push s own)
  have htitle : own.title? = none := by
    rw [← Shape.title?_map s.tree own, hmap, Shape.title?_eq_none, hinside]
  have hpushed : Retains ok w { w with store := (s.push own).2 } :=
    retains_of_store rfl hgrown.size_le (fun q hq => by rw [hgrown.get_eq q hq]) hstore
  refine ⟨⟨hpushed.size_le, hpushed.title, fun hw => ⟨hstore hw.store, fun i hi => ?_⟩⟩, by simp⟩
  rw [Workspace.items, Queue.toList_push] at hi
  rcases List.mem_append.1 hi with hi | hi
  · exact (hpushed.lasting hw).waits i hi
  · obtain rfl := List.mem_singleton.1 hi
    refine ⟨by simp, fun _ => ?_⟩
    rw [Store.place_push, Store.get_push_size, ← Shape.title?_eq_none, htitle]

theorem lasting_anyAttribute {wild : Wildcard} (h : ∀ t ∈ wild.texts, Carried ok t) :
    (Shape.anyAttribute wild : Shape Place).Lasting ok :=
  ⟨⟨⟨h, by simp [Shape.typeNames], by simp [Shape.members], by simp [Shape.occurs?], by simp [Shape.facet?]⟩,
    by simp [Shape.occurs?]⟩, trivial⟩

theorem lasting_group {order : Order} {items : List Place} :
    (Shape.modelGroup order .once items).Lasting ok := by
  refine ⟨⟨⟨by simp [Shape.texts], by simp [Shape.typeNames], by simp [Shape.members], ?_, by simp [Shape.facet?]⟩, ?_⟩,
    trivial⟩
  · rintro _ ⟨rfl⟩
    exact Occurs.short_once
  · rintro _ ⟨rfl⟩
    rfl

theorem retains_perform (hs : c.source.Definite ok) (hp : p < w.store.size)
    (he : e.Definite ok ((w.store.get p).isTopLevel = false))
    (hcopies : ∀ a ∈ e.copies c.source.space, Contains c.source a.2)
    (h : (perform c path p e).runIn w = (.ok (), w')) : Retains ok w w' := by
  have hfill (slot : Slot) (q : Place) (w : Workspace) :
      Retains ok w { w with store := w.store.update p (slot.fill q) } :=
    retains_update title?_fill (lasting_fill _)
  cases e with
  | attach slot child =>
    obtain ⟨q, w₁, hcreate, h⟩ := Work.runIn_bind_eq_ok.1 h
    rw [Work.runIn_update] at h
    cases h
    exact (retains_create hs (hcopies _ (List.mem_singleton_self _)) he hcreate).1.trans (hfill slot q w₁)
  | attachSequence first second =>
    obtain ⟨a, w₁, hfirst, h⟩ := Work.runIn_bind_eq_ok.1 h
    obtain ⟨b, w₂, hsecond, h⟩ := Work.runIn_bind_eq_ok.1 h
    obtain ⟨q, w₃, hpush, h⟩ := Work.runIn_bind_eq_ok.1 h
    rw [Work.runIn_push] at hpush
    cases hpush
    rw [Work.runIn_update] at h
    cases h
    have hretains₁ := (retains_create hs (hcopies _ List.mem_cons_self) he.1 hfirst).1
    have hretains₂ := (retains_create hs (hcopies _ (List.mem_cons_of_mem _ List.mem_cons_self)) he.2 hsecond).1
    exact ((hretains₁.trans hretains₂).trans (retains_push lasting_group)).trans (hfill .particle _ _)
  | discard child =>
    obtain ⟨q, w₁, hcreate, h⟩ := Work.runIn_bind_eq_ok.1 h
    cases h
    exact (retains_create hs (hcopies _ (List.mem_singleton_self _)) he hcreate).1
  | follow n =>
    refine retains_schedule hp (fun hreference => ?_) h
    cases he.symm.trans hreference
  | change ch =>
    rw [perform, Work.runIn_update] at h
    cases h
    exact retains_update (title?_change he) fun hlasting => lasting_change hlasting he
  | wildcard wild =>
    obtain ⟨q, w₁, hpush, h⟩ := Work.runIn_bind_eq_ok.1 h
    rw [Work.runIn_push] at hpush
    cases hpush
    rw [Work.runIn_update] at h
    cases h
    exact (retains_push (lasting_anyAttribute he)).trans (retains_update title?_withAny lasting_withAny)
  | warn text =>
    cases h
    exact retains_of_store rfl (Nat.le_refl _) (fun _ _ => rfl) id
  | stop f => cases h

theorem retains_performAll (hs : c.source.Definite ok) (hp : p < w.store.size)
    (hes : AllDefinite ok ((w.store.get p).isTopLevel = false) es)
    (hcopies : ∀ a ∈ es.flatMap (Edit.copies c.source.space), Contains c.source a.2)
    (h : (performAll c path p es).runIn w = (.ok (), w')) : Retains ok w w' := by
  induction es generalizing w with
  | nil =>
    cases h
    exact .refl _
  | cons e es ih =>
    rw [performAll_cons] at h
    obtain ⟨_, w₁, hfirst, h⟩ := Work.runIn_bind_eq_ok.1 h
    obtain ⟨he, hes⟩ := List.forall_mem_cons.1 hes
    have hretains := retains_perform hs hp he (fun a ha => hcopies a (by simp [ha])) hfirst
    refine hretains.trans (ih (hp.trans_le hretains.size_le) ?_ (fun a ha => hcopies a ?_) h)
    · rwa [hretains.isTopLevel hp]
    · rw [List.flatMap_cons]
      exact List.mem_append_right _ ha

end Steps

/-! ## Draining -/

section Drains

variable {ok : Char → Prop} {c : Context} {w w' : Workspace} {item : WorkItem} {rest : List WorkItem}
  {q : Queue WorkItem}

theorem lasting_taken (hw : w.Lasting ok) (hitems : w.items = item :: rest) (hq : q.toList = rest) :
    (w.taken q).Lasting ok := by
  refine ⟨hw.store, fun i hi => hw.waits i ?_⟩
  have htaken : (w.taken q).items = rest := hq
  rw [htaken] at hi
  rw [hitems]
  exact List.mem_cons_of_mem item hi

theorem retains_handle (hok : AllowsPrintable ok) (hs : c.source.Definite ok) (hw : w.Lasting ok)
    (htraced : w.Traced c.source) (hitems : w.items = item :: rest)
    (h : (handle c item).runIn (w.taken q) = (.ok (), w')) : Retains ok (w.taken q) w' := by
  have hitem : item ∈ w.items := by simp [hitems]
  obtain ⟨htrace, hawaits⟩ := htraced item hitem
  have hasked := (lawful_edits (c := c) hs.toProper htrace.proper hawaits.copy).asked
  rw [runIn_handle] at h
  refine retains_performAll hs hawaits.inside (definite_edits hok hs htrace.contained (hw.waits item hitem).2)
    (fun a ha => ?_) h
  obtain ⟨e, he, ha⟩ := List.mem_flatMap.1 ha
  exact ((hasked e he).descends a ha).contained htrace.contained

theorem retains_drainWithin {budget : Nat} (hok : AllowsPrintable ok) (hs : c.source.Definite ok) (hw : w.Lasting ok)
    (htraced : w.Traced c.source) (h : (drainWithin c budget).runIn w = (.ok (), w')) : Retains ok w w' := by
  induction budget generalizing w with
  | zero =>
    rcases runIn_drainWithin w with ⟨-, hrun⟩ | ⟨_, _, _, -, -, -, hrun⟩
    · rw [hrun] at h
      cases h
      exact .refl _
    · rw [hrun] at h
      cases h
  | succ budget ih =>
    rcases runIn_drainWithin w with ⟨-, hrun⟩ | ⟨item, rest, q, hitems, hq, -, hrun⟩
    · rw [hrun] at h
      cases h
      exact .refl _
    · rw [hrun] at h
      obtain ⟨_, w₁, hhandle, h⟩ := Work.runIn_bind_eq_ok.1 h
      have htaken : Retains ok w (w.taken q) :=
        ⟨Nat.le_refl _, fun _ _ => rfl, fun hw => lasting_taken hw hitems hq⟩
      have hstep := htaken.trans (retains_handle hok hs hw htraced hitems hhandle)
      exact hstep.trans (ih (hstep.lasting hw) (handle_spec hs.toProper htraced hitems hq hhandle).1 h)

end Drains

end PayloadSchema.Extraction

namespace PayloadSchema.Payload

open Schema Extraction

/-! ## Marks -/

section Marks

variable {ok : Char → Prop} {w w' : Workspace} {p : Place} {space : String}

theorem lasting_marker (hok : AllowsPrintable ok) (hspace : Carried ok space) : (marker space).Lasting ok := by
  refine ⟨⟨⟨?_, ?_, by simp [marker, Shape.members], by simp [marker, Shape.occurs?], by simp [marker, Shape.facet?]⟩,
    by simp [marker, Shape.occurs?]⟩, rfl⟩
  · simpa [marker, Shape.texts, AttributeUse.texts] using ⟨hok.carried (by decide), hspace⟩
  · simpa [marker, Shape.typeNames] using spellable_xsd hok (by decide) (by decide)

theorem lasting_plainType {attributes : List Place} {model particle : Option Place} :
    (plainType attributes model particle).Lasting ok :=
  ⟨⟨Shape.legible_silent rfl rfl rfl rfl rfl, by simp [plainType, Shape.occurs?]⟩, rfl⟩

theorem lasting_blank {name form : Option String} {topLevel : Bool} (hname : ∀ t ∈ name, Carried ok t)
    (hform : ∀ t ∈ form, Carried ok t ∧ topLevel = false) :
    (blankElement name topLevel form : Shape Place).Lasting ok := by
  refine ⟨⟨⟨?_, by simp [blankElement, Shape.typeNames], by simp [blankElement, Shape.members], ?_,
    by simp [blankElement, Shape.facet?]⟩, ?_⟩, rfl, ?_⟩
  · intro t ht
    simp only [blankElement, Shape.texts, ElementDecl.texts, List.mem_append, Option.mem_toList, Option.toList_none,
      List.not_mem_nil, false_or] at ht
    exact ht.elim (hname t) fun ht => (hform t ht).1
  · rintro _ ⟨rfl⟩
    exact Occurs.short_once
  · rintro _ ⟨rfl⟩
    rfl
  · cases topLevel with
    | false => rfl
    | true =>
      cases form with
      | none => exact ⟨rfl, rfl⟩
      | some f => cases (hform f rfl).2

private theorem lasting_pushAll {s : Store} {shapes : List (Shape Place)} (hs : s.Lasting ok)
    (hshapes : ∀ shape ∈ shapes, shape.Lasting ok) : (s.pushAll shapes).Lasting ok := by
  induction shapes generalizing s with
  | nil => exact hs
  | cons shape shapes ih =>
    obtain ⟨hshape, hrest⟩ := List.forall_mem_cons.1 hshapes
    exact ih (hs.push hshape) hrest

/-- A mark with a namespace that can be written adds only what can be written. -/
theorem retains_mark (hok : AllowsPrintable ok) (hspace : Carried ok space) (hp : ShowsElement w p)
    (h : (mark p space).runIn w = (.ok (), w')) : Retains ok w w' := by
  obtain ⟨hspares, hitems⟩ := spares_mark hp h
  refine retains_of_store hitems hspares.size_le (fun q hq => ?_) fun hw => ?_
  · rw [Shape.title?, Shape.title?, hspares.component q hq]
  obtain ⟨c, d, own, hget, hcases⟩ := mark_cases hp h
  have hself := hw p
  rw [hget] at hself
  have hmarker := lasting_marker hok hspace
  rcases hcases with ⟨_, -, x, -, rfl⟩ | ⟨t, -, -, rfl⟩ | ⟨-, rfl⟩
  · have hadd {s : Shape Place} {note : Place} (hs : s.Lasting ok) : (s.addAttribute note).Lasting ok :=
      lasting_fill .attribute hs
    exact (lasting_pushAll hw (by simpa using hmarker)).update (hadd (lasting_pushAll hw (by simpa using hmarker) x))
  · have hname : Carried ok (c.name.getD "" ++ valueSuffix) := by
      refine Carried.append ?_ (hok.carried (by decide))
      cases hc : c.name with
      | none => simp [Carried]
      | some name => exact hself.texts name (by simp [Shape.texts, hc])
    have hvalue : (blankElement (some (c.name.getD "" ++ valueSuffix)) false none : Shape Place).Lasting ok :=
      lasting_blank (by simpa using hname) (by simp)
    refine Store.Lasting.update (lasting_pushAll hw ?_) (lasting_withOwnType (lasting_pushAll hw ?_ p))
    all_goals simpa using ⟨hmarker, lasting_fill _ hvalue, lasting_group, lasting_plainType⟩
  · have hbase : Spellable ok (d.typeName.getD (xsd "anySimpleType")) := by
      cases hq : d.typeName with
      | none => exact spellable_xsd hok (by decide) (by decide)
      | some q => exact hself.names q (by simp [Shape.typeNames, hq])
    have hextension : (Shape.simpleContentExtension (some (d.typeName.getD (xsd "anySimpleType"))) [w.store.size] none :
        Shape Place).Lasting ok :=
      ⟨⟨⟨by simp [Shape.texts], by simpa [Shape.typeNames] using hbase, by simp [Shape.members],
        by simp [Shape.occurs?], by simp [Shape.facet?]⟩, by simp [Shape.occurs?]⟩, trivial⟩
    have hmodel : (Shape.simpleContent (some (w.store.size + 1))).Lasting ok :=
      ⟨⟨Shape.legible_silent rfl rfl rfl rfl rfl, by simp [Shape.occurs?]⟩, trivial⟩
    refine Store.Lasting.update (lasting_pushAll hw ?_) (lasting_fill _ (lasting_pushAll hw ?_ p))
    all_goals simpa using ⟨hmarker, hextension, hmodel, lasting_plainType⟩

theorem retains_markAll {depth : Nat} {marked : List Place} {names : List QName} (hok : AllowsPrintable ok)
    (hspaces : ∀ q ∈ names, Carried ok q.space) (htop : ∀ q ∈ w.target.elements.values, ShowsElement w q)
    (h : (markAll depth marked names).runIn w = (.ok (), w')) : Retains ok w w' :=
  relates_markAll Retains.refl Retains.trans (retains_mark hok) hspaces htop h

end Marks

end PayloadSchema.Payload
