import PayloadSchema.Proofs.Extraction.Refinement
import PayloadSchema.Proofs.Inlining.Totality

/-!
# What gets into the queue

An edit has nodes copied.  Each of them is queued on a path that its key could be added to, and waits at a
place for the construct that its copy is.  No step takes an item out of the queue or changes the kind of a
construct.
-/

namespace PayloadSchema.Extraction

open Schema

/-! ## Kinds of constructs -/

/-- A store with the constructs of another one, each changed at most within its kind. -/
structure Store.Keeps (s t : Store) : Prop where
  size_le : s.size ≤ t.size
  kind : ∀ p < s.size, (t.get p).kind = (s.get p).kind

namespace Store

variable {s t u : Store} {p : Place}

theorem Keeps.refl (s : Store) : s.Keeps s :=
  ⟨Nat.le_refl _, fun _ _ => rfl⟩

theorem Keeps.trans (hst : s.Keeps t) (htu : t.Keeps u) : s.Keeps u := by
  refine ⟨hst.size_le.trans htu.size_le, fun p hp => ?_⟩
  rw [htu.kind p (hp.trans_le hst.size_le), hst.kind p hp]

theorem Grown.keeps (h : s.Grown t) : s.Keeps t :=
  ⟨h.size_le, fun p hp => by rw [h.get_eq p hp]⟩

theorem keeps_update {f : Shape Place → Shape Place} (hp : p < s.size)
    (hf : ∀ shape, (f shape).kind = shape.kind) : s.Keeps (s.update p f) := by
  refine ⟨by simp, fun q _ => ?_⟩
  by_cases hq : q = p
  · rw [hq, get_update_self f hp, hf]
  · rw [get_update_of_ne f hq]

end Store

structure WorkItem.Awaits (s : Store) (i : WorkItem) : Prop where
  inside : i.place < s.size
  copy : i.origin.shape.kind.copy? = some (s.get i.place).kind

theorem WorkItem.Awaits.keeps {s t : Store} {i : WorkItem} (h : i.Awaits s) (hst : s.Keeps t) :
    i.Awaits t := by
  refine ⟨h.inside.trans_le hst.size_le, ?_⟩
  rw [hst.kind i.place h.inside]
  exact h.copy

/-! ## What edits ask for -/

/-- The nodes that an edit has copied, each with the key under which it is checked for circles. -/
def Edit.copies (space : String) : Edit → List (Option ComponentKey × Node)
  | .attach _ child | .discard child => [(child.key? space, child.origin)]
  | .attachSequence first second =>
    [(first.key? space, first.origin), (second.key? space, second.origin)]
  | .follow n => [(n.shape.key? space, n)]
  | .change _ | .wildcard _ | .warn _ | .stop _ => []

def Edit.stops : Edit → List Fault
  | .stop f => [f]
  | _ => []

def Child.Sensible (child : Child) : Prop :=
  child.origin.Proper ∧ ∃ kind, child.origin.shape.kind.copy? = some kind

def Edit.Sensible (target : Kind) : Edit → Prop
  | .attach _ child | .discard child => child.Sensible
  | .attachSequence first second => first.Sensible ∧ second.Sensible
  | .follow n => n.shape.kind.copy? = some target
  | _ => True

/-- What is known of the end of a run that has nodes copied.  It fails where it is told to, or where it comes
upon a component that is on the path. -/
structure Enqueues {α : Type} (path : List ComponentKey) (copies : List (Option ComponentKey × Node))
    (stops : List Fault) (w : Workspace) (run : Except Fault α × Workspace) : Prop where
  keeps : w.store.Keeps run.2.store
  target : run.2.target = w.target
  items : ∃ new, run.2.items = w.items ++ new ∧ ∀ i ∈ new, i.Awaits run.2.store ∧
    ∃ key, (key, i.origin) ∈ copies ∧ enter path key = .ok i.path
  fault : ∀ f, run.1 = .error f → f ∈ stops ∨ ∃ a ∈ copies, enter path a.1 = .error f

section Enqueues

variable {α β : Type} {c : Context} {path : List ComponentKey}
  {copies copies' : List (Option ComponentKey × Node)} {stops stops' : List Fault} {w w' : Workspace}
  {p : Place} {child : Child} {e : Edit} {es : List Edit}

theorem Enqueues.idle {run : Except Fault α × Workspace} (hkeeps : w.store.Keeps run.2.store)
    (htarget : run.2.target = w.target) (hitems : run.2.items = w.items)
    (hfault : ∀ f, run.1 = .error f → f ∈ stops) : Enqueues path copies stops w run :=
  ⟨hkeeps, htarget, ⟨[], by simpa using hitems, by simp⟩, fun f hf => .inl (hfault f hf)⟩

theorem Enqueues.bind {m : Work α} {next : α → Work β} (hm : Enqueues path copies stops w (m.runIn w))
    (hnext : ∀ a w', m.runIn w = (.ok a, w') → Enqueues path copies' stops' w' ((next a).runIn w')) :
    Enqueues path (copies ++ copies') (stops ++ stops') w ((m >>= next).runIn w) := by
  rw [Work.runIn_bind]
  match hrun : m.runIn w with
  | (.error f, w₁) =>
    rw [hrun] at hm
    obtain ⟨hkeeps, htarget, ⟨new, hitems, hnew⟩, hfault⟩ := hm
    refine ⟨hkeeps, htarget, ⟨new, hitems, fun i hi => ?_⟩, fun f' hf' => ?_⟩
    · obtain ⟨hawaits, key, hkey, henter⟩ := hnew i hi
      exact ⟨hawaits, key, List.mem_append_left _ hkey, henter⟩
    · rcases hfault f' (by cases hf'; rfl) with hstop | ⟨a, ha, henter⟩
      · exact .inl (List.mem_append_left _ hstop)
      · exact .inr ⟨a, List.mem_append_left _ ha, henter⟩
  | (.ok a, w₁) =>
    rw [hrun] at hm
    obtain ⟨hkeeps, htarget, ⟨new, hitems, hnew⟩, -⟩ := hm
    obtain ⟨hkeeps', htarget', ⟨new', hitems', hnew'⟩, hfault'⟩ := hnext a w₁ hrun
    refine ⟨hkeeps.trans hkeeps', htarget'.trans htarget, ⟨new ++ new', ?_, fun i hi => ?_⟩,
      fun f hf => ?_⟩
    · rw [hitems', hitems, List.append_assoc]
    · rcases List.mem_append.1 hi with hi | hi
      · obtain ⟨hawaits, key, hkey, henter⟩ := hnew i hi
        exact ⟨hawaits.keeps hkeeps', key, List.mem_append_left _ hkey, henter⟩
      · obtain ⟨hawaits, key, hkey, henter⟩ := hnew' i hi
        exact ⟨hawaits, key, List.mem_append_right _ hkey, henter⟩
    · rcases hfault' f hf with hstop | ⟨a, ha, henter⟩
      · exact .inl (List.mem_append_right _ hstop)
      · exact .inr ⟨a, List.mem_append_right _ ha, henter⟩

theorem enqueues_update {f : Shape Place → Shape Place} (hp : p < w.store.size)
    (hf : ∀ shape, (f shape).kind = shape.kind) :
    Enqueues path [] [] w ((Work.update p f).runIn w) :=
  .idle (Store.keeps_update hp hf) rfl rfl (by simp)

theorem enqueues_push (shape : Shape Place) : Enqueues path [] [] w ((Work.push shape).runIn w) :=
  .idle (Store.grown_push _ _).keeps rfl rfl (by simp)

theorem enqueues_schedule {key : Option ComponentKey} {n : Node} (hp : p < w.store.size)
    (hcopy : n.shape.kind.copy? = some (w.store.get p).kind) :
    Enqueues path [(key, n)] [] w ((schedule path key p n).runIn w) := by
  rw [runIn_schedule]
  match henter : enter path key with
  | .error f =>
    refine ⟨.refl _, rfl, ⟨[], by simp, by simp⟩, fun f' hf' => .inr ⟨_, List.mem_singleton_self _, ?_⟩⟩
    cases hf'
    exact henter
  | .ok inside =>
    refine ⟨.refl _, rfl, ⟨[⟨p, n, inside⟩], by simp [Workspace.items], fun i hi => ?_⟩, by simp⟩
    obtain rfl := List.mem_singleton.1 hi
    exact ⟨⟨hp, hcopy⟩, key, List.mem_singleton_self _, henter⟩

theorem enqueues_create (h : child.Sensible) :
    Enqueues path [(child.key? c.source.space, child.origin)] [] w ((create c path child).runIn w) := by
  obtain ⟨hproper, kind, hcopy⟩ := h
  obtain ⟨shape, houtline, hcomplete⟩ := complete_outline hproper hcopy
  obtain ⟨s, own, hplanted, hmap, -, hrun⟩ := Store.run_pushShape w.store shape
  have hgrown : w.store.Grown (s.push own).2 := hplanted.toGrown.trans (Store.grown_push s own)
  rw [runIn_create, houtline]
  match henter : enter path (child.key? c.source.space) with
  | .error f =>
    simp only [hrun]
    refine ⟨hgrown.keeps, rfl, ⟨[], by simp [Workspace.items], by simp⟩,
      fun f' hf' => .inr ⟨_, List.mem_singleton_self _, ?_⟩⟩
    cases hf'
    exact henter
  | .ok inside =>
    simp only [hrun]
    refine ⟨hgrown.keeps, rfl, ⟨[⟨s.size, child.origin, inside⟩], by simp [Workspace.items],
      fun i hi => ?_⟩, by simp⟩
    obtain rfl := List.mem_singleton.1 hi
    refine ⟨⟨by simp, ?_⟩, _, List.mem_singleton_self _, henter⟩
    rw [hcopy]
    simp only [Store.get_push_size]
    rw [← hcomplete.kind, ← hmap, Shape.kind_map]

theorem enqueues_perform (hp : p < w.store.size) (he : e.Sensible (w.store.get p).kind) :
    Enqueues path (e.copies c.source.space) e.stops w ((perform c path p e).runIn w) := by
  -- the places that exist before a step exist after it
  have hstill {α : Type} {m : Work α} {a : α} {w₁ : Workspace}
      {copies : List (Option ComponentKey × Node)} (h : Enqueues path copies [] w (m.runIn w))
      (hrun : m.runIn w = (.ok a, w₁)) : p < w₁.store.size := by
    rw [hrun] at h
    exact hp.trans_le h.keeps.size_le
  cases e with
  | attach slot child =>
    have hcreate : Enqueues path _ [] w ((create c path child).runIn w) := enqueues_create he
    exact hcreate.bind fun place w₁ hrun =>
      enqueues_update (hstill hcreate hrun) (Slot.kind_fill place slot)
  | attachSequence first second =>
    obtain ⟨hfirst, hsecond⟩ := he
    have ha : Enqueues path _ [] w ((create c path first).runIn w) := enqueues_create hfirst
    refine ha.bind fun a w₁ hrun => ?_
    have hb : Enqueues path _ [] w₁ ((create c path second).runIn w₁) := enqueues_create hsecond
    refine hb.bind fun b w₂ hrun' => ?_
    have hp₂ : p < w₂.store.size := by
      rw [hrun'] at hb
      exact (hstill ha hrun).trans_le hb.keeps.size_le
    exact (enqueues_push _).bind fun place w₃ hpush =>
      enqueues_update (by cases hpush; exact hp₂.trans_le (Store.grown_push _ _).size_le)
        (Slot.kind_fill place .particle)
  | discard child =>
    exact (enqueues_create he).bind fun _ _ _ => .idle (.refl _) rfl rfl (by simp)
  | follow n => exact enqueues_schedule hp he
  | change change => exact enqueues_update hp change.kind_apply
  | wildcard wild =>
    exact (enqueues_push _).bind fun place w₁ hrun =>
      enqueues_update (hstill (enqueues_push _) hrun) (Shape.kind_withAny (some place))
  | warn text => exact .idle (.refl _) rfl rfl (by rintro _ ⟨⟩)
  | stop f =>
    refine .idle (.refl _) rfl rfl ?_
    rintro _ ⟨⟩
    exact List.mem_singleton_self f

theorem enqueues_performAll (hp : p < w.store.size)
    (hes : ∀ e ∈ es, e.Sensible (w.store.get p).kind) :
    Enqueues path (es.flatMap (Edit.copies c.source.space)) (es.flatMap Edit.stops) w
      ((performAll c path p es).runIn w) := by
  induction es generalizing w with
  | nil => exact .idle (.refl _) rfl rfl (by simp [performAll])
  | cons e es ih =>
    rw [performAll_cons, List.flatMap_cons, List.flatMap_cons]
    have hfirst : Enqueues path _ _ w ((perform c path p e).runIn w) :=
      enqueues_perform hp (hes e List.mem_cons_self)
    refine hfirst.bind fun _ w₁ hrun => ?_
    rw [hrun] at hfirst
    refine ih (hp.trans_le hfirst.keeps.size_le) fun e' he' => ?_
    rw [hfirst.keeps.kind p hp]
    exact hes e' (List.mem_cons_of_mem e he')

end Enqueues

end PayloadSchema.Extraction
