import PayloadSchema.Proofs.Extraction.Calls
import PayloadSchema.Proofs.Extraction.QueuedItems
import PayloadSchema.Proofs.Schema.Reading

/-!
# Circles are found

The path of an item in the queue names components that lead to its node, each of them once.  A component
that comes up while it is on the path leads to itself, and nothing else is called a circle.
-/

namespace PayloadSchema.Extraction

open Schema

/-! ## What rules ask for -/

section Rules

variable {s : Schema} {target : Kind} {n : Node} {e : Edit} {es : List Edit} {child : Child}
  {kind : Kind}

theorem Child.Apt.sensible (h : child.Apt s n kind) : child.Sensible :=
  ⟨h.descends.proper, kind, h.copy⟩

/-- What is known of an edit that a rule may ask for, the last one included. -/
structure Edit.Asked (s : Schema) (target : Kind) (n : Node) (e : Edit) : Prop where
  sensible : e.Sensible target
  descends : ∀ a ∈ e.copies s.space, Descends s n a.1 a.2
  intrinsic : ∀ f ∈ e.stops, Intrinsic s f
  changes : ∀ change, e = .change change → change.Lawful s target

theorem Edit.Lawful.asked (h : e.Lawful s target n) : e.Asked s target n := by
  cases h with
  | attach _ _ hchild | discard hchild =>
    exact ⟨hchild.sensible, by simpa [Edit.copies] using hchild.descends, by simp [Edit.stops],
      by rintro _ ⟨⟩⟩
  | attachSequence _ _ _ hfirst hsecond =>
    exact ⟨⟨hfirst.sensible, hsecond.sensible⟩,
      by simpa [Edit.copies] using ⟨hfirst.descends, hsecond.descends⟩, by simp [Edit.stops],
      by rintro _ ⟨⟩⟩
  | change h =>
    refine ⟨trivial, by simp [Edit.copies], by simp [Edit.stops], ?_⟩
    rintro _ ⟨⟩
    exact h
  | wildcard | warn =>
    exact ⟨trivial, by simp [Edit.copies], by simp [Edit.stops], by rintro _ ⟨⟩⟩
  | stop hf =>
    exact ⟨trivial, by simp [Edit.copies], by simpa [Edit.stops] using hf, by rintro _ ⟨⟩⟩

theorem LawfulRule.asked (h : LawfulRule s target n es) : ∀ e ∈ es, e.Asked s target n := by
  obtain ⟨front, last, rfl, hfront, hlast⟩ := h
  intro e he
  rcases List.mem_append.1 he with he | he
  · exact (hfront e he).asked
  · rcases hlast with rfl | ⟨m, rfl, hcopy, hdescends⟩
    · cases he
    · obtain rfl := List.mem_singleton.1 he
      exact ⟨hcopy, by simpa [Edit.copies] using hdescends, by simp [Edit.stops], by rintro _ ⟨⟩⟩

end Rules

/-! ## Paths -/

/-- An item whose path names components that lead to its node, each of them once. -/
structure WorkItem.Traced (s : Schema) (i : WorkItem) : Prop where
  proper : i.origin.Proper
  contained : Contains s i.origin
  nodup : i.path.Nodup
  covers : ∀ k ∈ i.path, Covers s k.component i.origin

section Paths

variable {s : Schema} {i : WorkItem} {key : Option ComponentKey} {m : Node}
  {path inside : List ComponentKey} {p : Place}

theorem nodup_enter (h : path.Nodup) (henter : enter path key = .ok inside) : inside.Nodup := by
  obtain ⟨rfl, hnew⟩ := enter_eq_ok henter
  cases key with
  | none => simpa using h
  | some k =>
    refine List.nodup_append.2 ⟨h, by simp, fun a ha b hb => ?_⟩
    obtain rfl := List.mem_singleton.1 hb
    rintro rfl
    exact hnew a rfl ha

theorem WorkItem.Traced.descend (h : i.Traced s) (hm : Descends s i.origin key m)
    (henter : enter i.path key = .ok inside) : WorkItem.Traced s ⟨p, m, inside⟩ := by
  refine ⟨hm.proper, hm.contained h.contained, nodup_enter h.nodup henter, fun k hk => ?_⟩
  obtain ⟨rfl, -⟩ := enter_eq_ok henter
  rcases List.mem_append.1 hk with hk | hk
  · exact hm.covers _ (h.covers k hk)
  · exact (hm.keyed k (Option.mem_toList.1 hk)).2.1

theorem WorkItem.Traced.intrinsic {f : Fault} (h : i.Traced s) (hm : Descends s i.origin key m)
    (henter : enter i.path key = .error f) : Intrinsic s f := by
  cases key with
  | none => cases henter
  | some k =>
    rw [enter] at henter
    split at henter
    · rename_i hk
      cases henter
      have hcircle : Reaches s k.component k.component :=
        (hm.keyed k rfl).2.2 k.component (h.covers k hk)
      refine Genuine.intrinsic ⟨_, rfl, by simp, fun _ => ⟨_, k.name, k.kind.table, hcircle, .inl ⟨rfl, ?_⟩⟩⟩
        (by simp [Problem.errorClass]) (by simp [Problem.IsBare])
      cases k.kind <;> simp [ComponentKind.table]
    · cases henter

end Paths

/-! ## Steps -/

/-- A workspace whose items can all be handled. -/
def Workspace.Traced (s : Schema) (w : Workspace) : Prop :=
  ∀ i ∈ w.items, i.Traced s ∧ i.Awaits w.store

section Steps

variable {c : Context} {w w' : Workspace} {item : WorkItem} {rest : List WorkItem}
  {q : Queue WorkItem} {r : Except Fault Unit} {seed : Seed}

/-- To handle an item adds items that are further down, or comes upon a genuine fault. -/
theorem handle_spec (hs : c.source.Proper) (hw : w.Traced c.source) (hitems : w.items = item :: rest)
    (hq : q.toList = rest) (h : (handle c item).runIn (w.taken q) = (r, w')) :
    w'.Traced c.source ∧ w'.target = w.target ∧
      (∃ new, w'.items = rest ++ new ∧ ∀ i ∈ new,
        depth c.source i.path i.origin < depth c.source item.path item.origin) ∧
      ∀ f, r = .error f → Intrinsic c.source f := by
  obtain ⟨htraced, hawaits⟩ := hw item (by simp [hitems])
  have hasked := (lawful_edits (c := c) hs htraced.proper hawaits.copy).asked
  have hdescends : ∀ a ∈ (edits c (w.store.get item.place).kind item.origin).flatMap
      (Edit.copies c.source.space), Descends c.source item.origin a.1 a.2 := by
    intro a ha
    obtain ⟨e, he, ha⟩ := List.mem_flatMap.1 ha
    exact (hasked e he).descends a ha
  have hplace : item.place < (w.taken q).store.size := hawaits.inside
  have hrun : Enqueues item.path _ _ _ ((performAll c item.path item.place _).runIn (w.taken q)) :=
    enqueues_performAll hplace fun e he => (hasked e he).sensible
  rw [runIn_handle] at h
  change (performAll c item.path item.place
    (edits c (w.store.get item.place).kind item.origin)).runIn (w.taken q) = (r, w') at h
  rw [h] at hrun
  obtain ⟨hkeeps, htarget, ⟨new, hnew, hnewItems⟩, hfault⟩ := hrun
  have htaken : (w.taken q).items = rest := hq
  rw [htaken] at hnew
  refine ⟨fun i hi => ?_, htarget, ⟨new, hnew, fun i hi => ?_⟩, fun f hf => ?_⟩
  · rw [hnew] at hi
    rcases List.mem_append.1 hi with hi | hi
    · obtain ⟨hold, holdAwaits⟩ := hw i (by simp [hitems, hi])
      exact ⟨hold, holdAwaits.keeps hkeeps⟩
    · obtain ⟨hnewAwaits, key, hkey, henter⟩ := hnewItems i hi
      exact ⟨htraced.descend (hdescends _ hkey) henter, hnewAwaits⟩
  · obtain ⟨-, key, hkey, henter⟩ := hnewItems i hi
    exact depth_lt (hdescends _ hkey) henter
  · rcases hfault f hf with hstop | ⟨a, ha, henter⟩
    · obtain ⟨e, he, hstop⟩ := List.mem_flatMap.1 hstop
      exact (hasked e he).intrinsic f hstop
    · exact htraced.intrinsic (hdescends a ha) henter

theorem Seed.IsFrom.hasName (h : seed.IsFrom c.source) : seed.HasName := by
  cases seed with
  | element n _ =>
    obtain ⟨s⟩ := n
    obtain ⟨own, d, type, rfl⟩ := Shape.exists_of_kind_element h.2
    rfl
  | type => trivial

theorem covers_of_key? {s : Schema} (hs : s.Proper) {n : Node} (h : Contains s n) {k : ComponentKey}
    (hk : n.shape.key? s.space = some k) : Covers s k.component n := by
  cases h with
  | @entry table e he =>
    obtain ⟨name, n⟩ := e
    have hentry := hs.entry table _ he
    have htable : table ≠ .attributeGroups := by
      rintro rfl
      obtain ⟨c, members, any, rfl⟩ := hentry.attributeGroup
      cases hk
    cases name with
    | none =>
      rw [Shape.key?, hentry.component] at hk
      cases n.shape.componentKind? <;> simp at hk
    | some name =>
      obtain ⟨k', hk', hcomponent⟩ := ProperEntry.key? (q := ⟨s.space, name⟩) hentry rfl htable
      cases hk.symm.trans hk'
      rw [hcomponent]
      exact covers_self (hs.find?_of_mem he)
  | child hn hm =>
    have hproper := hn.built fun table e he => (hs.entry table e he).proper
    rw [Node.children, Shape.children_eq_parts] at hm
    obtain ⟨part, hpart, rfl⟩ := List.mem_map.1 hm
    cases (key?_of_inner (hproper.part hpart).inner).symm.trans hk

/-- What a seed asks for can be copied, and is covered by its own component if it is one. -/
theorem Seed.IsFrom.asked (hs : c.source.Proper) (h : seed.IsFrom c.source) :
    (∀ e ∈ seed.edits, e.Sensible .element ∧ e.stops = []) ∧
      ∀ a ∈ seed.edits.flatMap (Edit.copies c.source.space),
        a.2.Proper ∧ Contains c.source a.2 ∧ ∀ k, a.1 = some k → Covers c.source k.component a.2 := by
  have hproper := h.proper hs
  cases seed with
  | element n topLevel =>
    obtain ⟨hcontains, hkind⟩ := h
    have hcovers := fun k => covers_of_key? (k := k) hs hcontains
    obtain ⟨s⟩ := n
    obtain ⟨own, d, type, rfl⟩ := Shape.exists_of_kind_element hkind
    have hedits : Seed.edits (.element ⟨.element own d type⟩ topLevel) =
        [.change (.element d), .follow ⟨.element own d type⟩] := rfl
    rw [hedits]
    refine ⟨by simp [Edit.Sensible, Edit.stops, Node.shape, Shape.kind, Kind.copy?], ?_⟩
    simpa [Edit.copies] using ⟨hproper, hcontains, hcovers⟩
  | type name n topLevel =>
    obtain ⟨hcontains, hkind⟩ := h
    have hcovers := fun k => covers_of_key? (k := k) hs hcontains
    have hcopy := (copy?_of_isType hkind).1
    refine ⟨?_, ?_⟩
    · simpa [Seed.edits, Edit.Sensible, Edit.stops, Child.Sensible] using ⟨hproper, _, hcopy⟩
    · simpa [Seed.edits, Edit.copies, Child.key?, Child.plain] using ⟨hproper, hcontains, hcovers⟩

/-- An element or a type of a well-formed source can always be asked for, and adds an item that can be handled. -/
theorem register_spec (hs : c.source.Proper) (hseed : seed.IsFrom c.source) (w : Workspace) :
    ∃ w', (seed.register c).runIn w = (.ok w.store.size, w') ∧
      w'.target = (seed.begun c w).target ∧ (w.Traced c.source → w'.Traced c.source) := by
  obtain ⟨hedits, hcovers⟩ := hseed.asked hs
  have hkind : ((seed.begun c w).store.get w.store.size).kind = .element := by
    rw [Seed.begun, Store.get_push_size]
    cases seed <;> rfl
  have hlt : w.store.size < (seed.begun c w).store.size := by simp [Seed.begun]
  have hrun : Enqueues [] _ _ _ ((performAll c [] w.store.size seed.edits).runIn _) :=
    enqueues_performAll hlt fun e he => by
      rw [hkind]
      exact (hedits e he).1
  rw [Seed.runIn_register hseed.hasName, Work.runIn_bind]
  rcases hresult : (performAll c [] w.store.size seed.edits).runIn (seed.begun c w) with ⟨result, w₁⟩
  cases result with
  | error f =>
    rw [hresult] at hrun
    rcases hrun.fault f rfl with hstop | ⟨⟨key, n⟩, -, henter⟩
    · obtain ⟨e, he, hstop⟩ := List.mem_flatMap.1 hstop
      simp [(hedits e he).2] at hstop
    · cases key <;> simp [enter] at henter
  | ok _ =>
    rw [hresult] at hrun
    obtain ⟨hkeeps, htarget, ⟨new, hnew, hnewItems⟩, -⟩ := hrun
    refine ⟨w₁, rfl, htarget, fun hw i hi => ?_⟩
    rw [hnew] at hi
    rcases List.mem_append.1 hi with hi | hi
    · obtain ⟨hold, holdAwaits⟩ := hw i hi
      exact ⟨hold, (holdAwaits.keeps (Store.grown_push _ _).keeps).keeps hkeeps⟩
    · obtain ⟨hnewAwaits, key, hkey, henter⟩ := hnewItems i hi
      obtain ⟨hproper, hcontained, hcovered⟩ := hcovers _ hkey
      obtain ⟨hpath, -⟩ := enter_eq_ok henter
      refine ⟨⟨hproper, hcontained, nodup_enter List.nodup_nil henter, fun k hk => ?_⟩, hnewAwaits⟩
      rw [hpath, List.nil_append] at hk
      exact hcovered k (Option.mem_toList.1 hk)

end Steps

end PayloadSchema.Extraction
