import PayloadSchema.Proofs.Extraction.Refinement

/-!
# Calls in any order

Elements and types are asked for, and the queue is drained, in whatever order one likes.  What has been
asked for so far is what the places stand for.
-/

namespace PayloadSchema.Extraction

open Schema Copying

/-! ## Calls -/

inductive Call where
  | extract (seed : Seed)
  | drain

namespace Call

/-- Makes a call, and gives the place of the element that was asked for. -/
def run (c : Context) : Call → Work (List Place)
  | extract seed => do
    let root ← seed.register c
    pure [root]
  | drain => do
    Extraction.drain c
    pure []

def seeds : Call → List Seed
  | extract seed => [seed]
  | drain => []

/-- Makes calls one after the other. -/
def runAll (c : Context) : List Call → Work (List Place)
  | [] => pure []
  | call :: calls => do
    let first ← call.run c
    let others ← runAll c calls
    pure (first ++ others)

end Call

/-- What an extraction is given when it copies from one schema into another one. -/
def Context.between (source target : Schema) (limit : Nat) : Context :=
  ⟨source, target.elementForm, target.attributeForm, limit⟩

/-! ## New workspaces -/

section New

open Store

private theorem plants_components (t : Components Node) :
    Plants (t.mapM fun e => do pure (e.1, ← pushTree e.2)) fun _ _ _ => True := by
  induction t with
  | nil => exact .pure fun _ _ => trivial
  | cons e t ih =>
    rw [List.mapM_cons]
    have hhead : Plants (do pure (e.1, ← pushTree e.2)) fun _ _ _ => True :=
      (plants_pushTree e.2).bind (fun hs h => h.grown hs) fun _ => .pure fun _ _ _ => trivial
    exact hhead.bind (fun _ h => h) fun _ => ih.bind (fun _ h => h) fun _ =>
      .pure fun _ _ _ _ => trivial

@[simp] theorem items_ofSchema (target : Schema) : (Workspace.ofSchema target).items = [] := rfl

theorem sound_ofSchema (target : Schema) : (Workspace.ofSchema target).Sound := by
  have hempty : Store.empty.Sound := fun p hp => absurd hp (Nat.not_lt_zero p)
  have hplants : Plants (do
      let elements ← target.elements.mapM fun e => do pure (e.1, ← pushTree e.2)
      let attributes ← target.attributes.mapM fun e => do pure (e.1, ← pushTree e.2)
      let types ← target.types.mapM fun e => do pure (e.1, ← pushTree e.2)
      let groups ← target.groups.mapM fun e => do pure (e.1, ← pushTree e.2)
      let attributeGroups ← target.attributeGroups.mapM fun e => do pure (e.1, ← pushTree e.2)
      pure (⟨target.space, target.elementForm, target.attributeForm, elements, attributes, types, groups,
        attributeGroups⟩ : SchemaOf Place)) fun _ _ _ => True :=
    (plants_components _).bind (fun _ h => h) fun _ =>
    (plants_components _).bind (fun _ h => h) fun _ =>
    (plants_components _).bind (fun _ h => h) fun _ =>
    (plants_components _).bind (fun _ h => h) fun _ =>
    (plants_components _).bind (fun _ h => h) fun _ => .pure fun _ _ _ _ _ _ _ => trivial
  obtain ⟨hplanted, -⟩ := hplants .empty 0 (Nat.zero_le _)
  exact ⟨hempty.planted hplanted, by simp, by simp⟩

end New

/-! ## Registering a seed -/

namespace Seed

/-- The name of the new element. -/
def name : Seed → Option String
  | element n _ => (n.shape.component?.getD ⟨none, false⟩).name
  | type name _ _ => name

def begun (c : Context) (seed : Seed) (w : Workspace) : Workspace :=
  { w with
    store := (w.store.push (seed.blank c)).2
    target := if seed.topLevel then w.target.put .elements seed.name w.store.size else w.target }

def HasName : Seed → Prop
  | element n _ => n.shape.component?.isSome
  | type .. => True

section Register

variable {c : Context} {seed : Seed} {w w' : Workspace} {root : Place} {f : Fault}

@[simp] theorem children_blank {α : Type} : (seed.blank c : Shape α).children = [] := by
  cases seed <;> rfl

@[simp] theorem map_blank {α β : Type} (g : α → β) : (seed.blank c).map g = seed.blank c := by
  cases seed <;> rfl

theorem runIn_register (h : seed.HasName) :
    (seed.register c).runIn w =
      (performAll c [] w.store.size seed.edits >>= fun _ => pure w.store.size).runIn
        (seed.begun c w) := by
  cases seed with
  | element n topLevel =>
    match hown : n.shape.component? with
    | none => simp [HasName, hown] at h
    | some own =>
      simp only [register, extractElement, hown]
      rw [Work.runIn_bind_of_ok (runIn_addElement _ _ _ w)]
      simp only [begun, blank, name, hown, Option.getD_some]
      rfl
  | type name n topLevel =>
    simp only [register, extractType]
    rw [Work.runIn_bind_of_ok (runIn_addElement _ _ _ w)]
    rw [edits, performAll_cons, bind_assoc]
    rfl

end Register

end Seed

/-! ## What the places stand for -/

/-- The places of the elements that have been asked for stand for what the inliner makes of the seeds, and
nothing but a seed that the inliner makes nothing of keeps a place from standing for a tree. -/
structure Represents (c : Context) (s : Store) (todo : Agenda) (seeds : List Seed)
    (roots : List Place) : Prop where
  roots : List.Forall₂ (fun seed root => root < s.size ∧ (AllComplete s todo →
    ∀ n, Completes s todo root n → (seed.inline c).Gives n)) seeds roots
  complete : (∀ seed ∈ seeds, ∃ n, (seed.inline c).Gives n) → AllComplete s todo

section Represents

variable {c : Context} {s t : Store} {a b : Agenda} {seeds : List Seed} {roots : List Place}

theorem Represents.refines (h : Represents c s a seeds roots) (hst : Refines s a t b) :
    Represents c t b seeds roots := by
  refine ⟨h.roots.imp fun seed root ⟨hlt, hroot⟩ => ?_, fun hseeds => hst.complete (h.complete hseeds)⟩
  exact ⟨hlt.trans_le hst.size_le, fun hall n hn =>
    hroot (hst.all hall) n (hst.backward hall root hlt n hn)⟩

theorem Represents.gives (h : Represents c s a seeds roots) (hall : AllComplete s a) :
    ∀ seed ∈ seeds, ∃ n, (seed.inline c).Gives n := by
  intro seed hseed
  obtain ⟨i, hi, rfl⟩ := List.getElem_of_mem hseed
  have hroots := List.forall₂_iff_get.1 h.roots
  obtain ⟨hlt, hroot⟩ := hroots.2 i hi (hroots.1 ▸ hi)
  obtain ⟨n, hn⟩ := hall _ hlt
  exact ⟨n, hroot hall n hn⟩

end Represents

section Run

variable {c : Context} {seed : Seed} {seeds : List Seed} {roots : List Place} {w w' : Workspace}
  {root : Place}

theorem completes_begun {n : Node} :
    Completes (seed.begun c w).store
        ((seed.begun c w).todoAt c w.store.size (inlineEdits c [] seed.edits)) w.store.size n ↔
      (seed.inline c).Gives n := by
  have hget : (seed.begun c w).store.get w.store.size = seed.blank c := Store.get_push_size _ _
  have hlt : w.store.size < (seed.begun c w).store.size := by simp [Seed.begun]
  rw [Seed.inline, gives_bind]
  simp only [gives_pure]
  constructor
  · intro hn
    cases hn with
    | intro _ f r _ _ done =>
      rw [Workspace.todoAt_self, hget, Seed.map_blank] at done
      exact ⟨r, done, rfl⟩
  · rintro ⟨r, done, rfl⟩
    refine .intro _ (fun _ => default) r hlt (by simp [hget]) ?_
    rwa [Workspace.todoAt_self, hget, Seed.map_blank]

theorem represents_begun (seed : Seed) (hw : w.Sound) (h : Represents c w.store (w.todo c) seeds roots) :
    Represents c (seed.begun c w).store
      ((seed.begun c w).todoAt c w.store.size (inlineEdits c [] seed.edits)) (seeds ++ [seed])
      (roots ++ [w.store.size]) := by
  have hgrown := Store.grown_push w.store (seed.blank c)
  have hlt : w.store.size < (seed.begun c w).store.size := by simp [Seed.begun]
  have hold (p : Place) (hp : p < w.store.size) (n : Node) :
      Completes (seed.begun c w).store
        ((seed.begun c w).todoAt c w.store.size (inlineEdits c [] seed.edits)) p n ↔
      Completes w.store (w.todo c) p n := by
    refine completes_grown_iff hw.store hgrown (fun q hq => ?_) hp
    exact Workspace.todoAt_of_ne (Nat.ne_of_lt hq)
  have hallOld (hall : AllComplete (seed.begun c w).store
      ((seed.begun c w).todoAt c w.store.size (inlineEdits c [] seed.edits))) :
      AllComplete w.store (w.todo c) := by
    intro p hp
    obtain ⟨n, hn⟩ := hall p (hp.trans hlt)
    exact ⟨n, (hold p hp n).1 hn⟩
  constructor
  · have hroots := h.roots.imp fun seed' root ⟨hroot, hgives⟩ =>
      (⟨hroot.trans hlt, fun hall n hn => hgives (hallOld hall) n ((hold root hroot n).1 hn)⟩ :
        root < (seed.begun c w).store.size ∧ (AllComplete (seed.begun c w).store _ →
          ∀ n, Completes (seed.begun c w).store _ root n → (seed'.inline c).Gives n))
    exact List.rel_append hroots (.cons ⟨hlt, fun _ n hn => completes_begun.1 hn⟩ .nil)
  · intro hseeds p hp
    by_cases hlt' : p < w.store.size
    · have hall := h.complete fun seed' hseed' => hseeds seed' (List.mem_append_left _ hseed')
      obtain ⟨n, hn⟩ := hall p hlt'
      exact ⟨n, (hold p hlt' n).2 hn⟩
    · obtain ⟨n, hn⟩ := hseeds seed (by simp)
      have hpush : (seed.begun c w).store.size = w.store.size + 1 := Store.size_push _ _
      rw [hpush] at hp
      obtain rfl : p = w.store.size := Nat.le_antisymm (Nat.lt_succ_iff.1 hp) (Nat.not_lt.1 hlt')
      exact ⟨n, completes_begun.2 hn⟩

end Run

/-! ## Runs -/

/-- A workspace whose places stand for what has been asked for. -/
structure Tracks (c : Context) (w : Workspace) (seeds : List Seed) (roots : List Place) : Prop where
  sound : w.Sound
  represents : Represents c w.store (w.todo c) seeds roots

section Tracks

variable {c : Context} {seed : Seed} {seeds : List Seed} {roots : List Place} {w w' : Workspace}
  {root : Place} {f : Fault}

theorem followLast_seedEdits (seed : Seed) : FollowLast seed.edits := by
  cases seed with
  | element n _ => exact followLast_followEdits .element n
  | type _ n _ => simp [Seed.edits, FollowLast]

theorem Tracks.refines (h : Tracks c w seeds roots) (hw' : w'.Sound)
    (hrefines : Refines w.store (w.todo c) w'.store (w'.todo c)) : Tracks c w' seeds roots :=
  ⟨hw', h.represents.refines hrefines⟩

theorem Workspace.Sound.completes_iff (hw : w.Sound) (hitems : w.items = []) {p : Place}
    (hp : p < w.store.size) {n : Node} :
    Completes w.store (w.todo c) p n ↔ n = w.store.tree p := by
  refine (hw.store p hp).completes_iff fun q _ _ => ?_
  exact Workspace.todo_of_free (by simp [Workspace.Free, hitems])

theorem Tracks.allComplete (h : Tracks c w seeds roots) (hitems : w.items = []) :
    AllComplete w.store (w.todo c) :=
  fun p hp => ⟨w.store.tree p, (h.sound.completes_iff hitems hp).2 rfl⟩

/-- Where nothing waits, the elements that have been asked for are the inlined ones. -/
theorem Tracks.trees (h : Tracks c w seeds roots) (hitems : w.items = []) :
    List.Forall₂ (fun seed root => (seed.inline c).Gives (w.store.tree root)) seeds roots :=
  h.represents.roots.imp fun _ _ ⟨hlt, hroot⟩ =>
    hroot (h.allComplete hitems) _ ((h.sound.completes_iff hitems hlt).2 rfl)

theorem Tracks.register (h : Tracks c w seeds roots) (hname : seed.HasName)
    (hrun : (seed.register c).runIn w = (.ok root, w')) :
    Tracks c w' (seeds ++ [seed]) (roots ++ [root]) := by
  rw [Seed.runIn_register hname, Work.runIn_bind_eq_ok] at hrun
  obtain ⟨_, w₁, hrun, hroot⟩ := hrun
  rw [Work.runIn_pure] at hroot
  cases hroot
  have hbegun := represents_begun seed h.sound h.represents
  have hlt : w.store.size < (seed.begun c w).store.size := by simp [Seed.begun]
  have hsound : (seed.begun c w).Sound := by
    have hleaf : ∀ q ∈ (seed.blank c : Shape Place).children, q < w.store.size := by simp
    have hpush := h.sound.push hleaf
    exact ⟨hpush.store, hpush.inside, hpush.nodup⟩
  have hfree : (seed.begun c w).Free w.store.size := h.sound.free_of_size_le (Nat.le_refl _)
  obtain ⟨hsound', hrefines⟩ :=
    refines_performAll hsound hlt hfree (followLast_seedEdits seed) hrun
  exact ⟨hsound', hbegun.refines hrefines⟩

theorem Tracks.drain (h : Tracks c w seeds roots) (hrun : (drain c).runIn w = (.ok (), w')) :
    Tracks c w' seeds roots ∧ w'.items = [] := by
  rw [Extraction.drain, Work.runIn_bind_of_ok (Work.runIn_get w)] at hrun
  obtain ⟨hsound, hitems, hrefines⟩ := refines_drainWithin h.sound hrun
  exact ⟨h.refines hsound hrefines, hitems⟩

/-- Apart from the limit, a drain fails only where a seed cannot be inlined. -/
theorem Tracks.drain_error (h : Tracks c w seeds roots)
    (hrun : (Extraction.drain c).runIn w = (.error f, w'))
    (hlimit : f ≠ .problem (.workLimit c.limit)) :
    ∃ seed ∈ seeds, ∀ n, ¬ (seed.inline c).Gives n := by
  rw [Extraction.drain, Work.runIn_bind_of_ok (Work.runIn_get w)] at hrun
  have hnot := not_allComplete_of_drainWithin_error h.sound hrun hlimit
  by_contra hall
  push Not at hall
  exact hnot (h.represents.complete hall)

theorem Tracks.call {call : Call} {ps : List Place} (h : Tracks c w seeds roots)
    (hname : ∀ seed ∈ call.seeds, seed.HasName) (hrun : (call.run c).runIn w = (.ok ps, w')) :
    Tracks c w' (seeds ++ call.seeds) (roots ++ ps) := by
  cases call with
  | extract seed =>
    rw [Call.run, Work.runIn_bind_eq_ok] at hrun
    obtain ⟨root, w₁, hrun, hpure⟩ := hrun
    rw [Work.runIn_pure] at hpure
    cases hpure
    exact h.register (hname seed (by simp [Call.seeds])) hrun
  | drain =>
    rw [Call.run, Work.runIn_bind_eq_ok] at hrun
    obtain ⟨_, w₁, hrun, hpure⟩ := hrun
    rw [Work.runIn_pure] at hpure
    cases hpure
    simpa [Call.seeds] using (h.drain hrun).1

theorem Tracks.calls {calls : List Call} {ps : List Place} (h : Tracks c w seeds roots)
    (hname : ∀ seed ∈ calls.flatMap Call.seeds, seed.HasName)
    (hrun : (Call.runAll c calls).runIn w = (.ok ps, w')) :
    Tracks c w' (seeds ++ calls.flatMap Call.seeds) (roots ++ ps) := by
  induction calls generalizing w seeds roots ps with
  | nil =>
    rw [Call.runAll, Work.runIn_pure] at hrun
    cases hrun
    simpa using h
  | cons call calls ih =>
    rw [Call.runAll, Work.runIn_bind_eq_ok] at hrun
    obtain ⟨first, w₁, hfirst, hrun⟩ := hrun
    rw [Work.runIn_bind_eq_ok] at hrun
    obtain ⟨others, w₂, hothers, hrun⟩ := hrun
    rw [Work.runIn_pure] at hrun
    cases hrun
    have hcall := h.call (fun seed hseed => hname seed (by simp [hseed])) hfirst
    have hcalls := ih hcall (fun seed hseed => hname seed (by simp_all)) hothers
    simpa using hcalls

theorem tracks_ofSchema (c : Context) (target : Schema) :
    Tracks c (Workspace.ofSchema target) [] [] := by
  have hsound := sound_ofSchema target
  refine ⟨hsound, .nil, fun _ p hp => ?_⟩
  exact ⟨_, (hsound.completes_iff (items_ofSchema target) hp).2 rfl⟩

end Tracks

end PayloadSchema.Extraction
