import PayloadSchema.Proofs.Extraction.PlacedEdits
import PayloadSchema.Proofs.Rules.Following

/-!
# Extraction and inlining

Handling the items of a queue one after the other, the oldest one first, leaves the trees that all places
stand for as they are.  An item that cannot be handled is one whose place stands for no tree.
-/

namespace PayloadSchema.Extraction

open Schema Copying

/-! ## Edits in order -/

section Edits

variable {c : Context} {path : List ComponentKey} {w w' : Workspace} {p : Place} {e : Edit}
  {es : List Edit} {f : Fault}

theorem advances_perform (es : List Edit) (hw : w.Sound) (hp : p < w.store.size) (hfree : w.Free p)
    (he : ∀ n, e ≠ .follow n) (h : (perform c path p e).runIn w = (.ok (), w')) :
    Advances c p w w' (inlineEdits c path (e :: es)) (inlineEdits c path es) := by
  cases e with
  | attach slot child => exact advances_attach hw hp hfree h
  | attachSequence first second => exact advances_attachSequence hw hp hfree h
  | discard child => exact advances_discard hw hp hfree h
  | follow n => exact absurd rfl (he n)
  | change change => exact advances_change hw hp hfree h
  | wildcard wild => exact advances_wildcard hw hp hfree h
  | warn text =>
    rw [perform, Work.runIn_warn] at h
    cases h
    refine ⟨⟨hw.store, hw.inside, hw.nodup⟩, hfree, Refines.of_gives_iff fun q g r => ?_⟩
    by_cases hq : q = p
    · rw [hq, Workspace.todoAt_self, Workspace.todoAt_self, inlineEdits_warn]
    · rw [Workspace.todoAt_of_ne hq, Workspace.todoAt_of_ne hq]
      rfl
  | stop f =>
    rw [perform, Work.runIn_throw] at h
    cases h

theorem refines_follow {n : Node} (hw : w.Sound) (hp : p < w.store.size) (hfree : w.Free p)
    (h : (perform c path p (.follow n)).runIn w = (.ok (), w')) :
    w'.Sound ∧
      Refines w.store (w.todoAt c p (inlineEdits c path [.follow n])) w'.store (w'.todo c) := by
  rw [perform, runIn_schedule] at h
  cases hinside : enter path (n.shape.key? c.source.space) with
  | error f =>
    rw [hinside] at h
    cases h
  | ok inside =>
    rw [hinside] at h
    cases h
    have hitems : ({ w with queue := w.queue.push ⟨p, n, inside⟩ } : Workspace).items =
        w.items ++ [⟨p, n, inside⟩] := by
      simp [Workspace.items]
    refine ⟨⟨hw.store, ?_, ?_⟩, ?_⟩
    · intro i hi
      rw [hitems, List.mem_append, List.mem_singleton] at hi
      rcases hi with hi | rfl
      · exact hw.inside i hi
      · exact hp
    · rw [hitems, List.map_append, List.nodup_append]
      refine ⟨hw.nodup, by simp, ?_⟩
      intro a ha b hb
      obtain ⟨i, hi, rfl⟩ := List.mem_map.1 ha
      simp only [List.map_cons, List.map_nil, List.mem_singleton] at hb
      rw [hb]
      exact hfree i hi
    · refine Refines.of_gives_iff fun q g r => ?_
      rw [Workspace.todo, hitems]
      by_cases hq : q = p
      · subst hq
        have hself := agenda_append_self (c := c) (i := ⟨q, n, inside⟩) hfree
        rw [Workspace.todoAt_self, gives_follow, hself]
        simp [hinside]
      · rw [Workspace.todoAt_of_ne hq, agenda_append_of_ne hq]
        rfl

/-- An edit that cannot be made is one that the inliner cannot make. -/
theorem not_gives_of_perform_error (h : (perform c path p e).runIn w = (.error f, w'))
    (x r : Shape Node) : ¬ (inlineEdits c path (e :: es) x).Gives r := by
  cases e with
  | attach slot child =>
    rw [perform, Work.runIn_bind_eq_error] at h
    obtain h | ⟨q, w₁, -, h⟩ := h
    · rw [gives_attach]
      rintro ⟨n, hn, -⟩
      exact not_gives_of_create_error h n hn
    · cases h
  | attachSequence first second =>
    rw [gives_attachSequence]
    rintro ⟨a, ha, b, hb, -⟩
    rw [perform, Work.runIn_bind_eq_error] at h
    obtain h | ⟨q, w₁, -, h⟩ := h
    · exact not_gives_of_create_error h a ha
    rw [Work.runIn_bind_eq_error] at h
    obtain h | ⟨q', w₂, -, h⟩ := h
    · exact not_gives_of_create_error h b hb
    · cases h
  | discard child =>
    rw [perform, Work.runIn_bind_eq_error] at h
    obtain h | ⟨q, w₁, -, h⟩ := h
    · rw [gives_discard]
      rintro ⟨⟨n, hn⟩, -⟩
      exact not_gives_of_create_error h n hn
    · cases h
  | follow n =>
    rw [perform, runIn_schedule] at h
    rw [gives_follow]
    rintro ⟨inside, hinside, -⟩
    rw [hinside] at h
    cases h
  | change change => cases h
  | wildcard wild => cases h
  | warn text => cases h
  | stop g => simp

theorem performAll_cons :
    performAll c path p (e :: es) = perform c path p e >>= fun _ => performAll c path p es :=
  rfl

/-- Edits that are made lead from what the inliner makes with them to what waits in the end. -/
theorem refines_performAll (hw : w.Sound) (hp : p < w.store.size) (hfree : w.Free p)
    (hlast : FollowLast es) (h : (performAll c path p es).runIn w = (.ok (), w')) :
    w'.Sound ∧ Refines w.store (w.todoAt c p (inlineEdits c path es)) w'.store (w'.todo c) := by
  induction es generalizing w with
  | nil =>
    cases h
    refine ⟨hw, Refines.of_gives_iff fun q g r => ?_⟩
    by_cases hq : q = p
    · rw [hq, Workspace.todoAt_self, Workspace.todo_of_free hfree, inlineEdits_nil]
    · rw [Workspace.todoAt_of_ne hq]
  | cons e es ih =>
    rw [performAll_cons, Work.runIn_bind_eq_ok] at h
    obtain ⟨_, w₁, hperform, h⟩ := h
    by_cases he : ∃ n, e = .follow n
    · obtain ⟨n, rfl⟩ := he
      obtain rfl : es = [] := hlast
      cases h
      exact refines_follow hw hp hfree hperform
    · have he' : ∀ n, e ≠ .follow n := fun n hn => he ⟨n, hn⟩
      have hstep := advances_perform es hw hp hfree he' hperform
      have hrest : FollowLast es := by
        cases e with
        | follow n => exact absurd rfl (he' n)
        | _ => exact hlast
      obtain ⟨hsound, hrefines⟩ := ih hstep.sound (hstep.inside hp) hstep.free hrest h
      exact ⟨hsound, hstep.refines.trans hrefines⟩

theorem not_allComplete_of_performAll_error (hw : w.Sound) (hp : p < w.store.size)
    (hfree : w.Free p) (hlast : FollowLast es)
    (h : (performAll c path p es).runIn w = (.error f, w')) :
    ¬ AllComplete w.store (w.todoAt c p (inlineEdits c path es)) := by
  induction es generalizing w with
  | nil => cases h
  | cons e es ih =>
    intro hall
    rw [performAll_cons, Work.runIn_bind_eq_error] at h
    obtain h | ⟨_, w₁, hperform, h⟩ := h
    · obtain ⟨n, hn⟩ := hall p hp
      cases hn with
      | intro _ g r _ _ done =>
        rw [Workspace.todoAt_self] at done
        exact not_gives_of_perform_error h _ r done
    by_cases he : ∃ n, e = .follow n
    · obtain ⟨n, rfl⟩ := he
      obtain rfl : es = [] := hlast
      cases h
    · have he' : ∀ n, e ≠ .follow n := fun n hn => he ⟨n, hn⟩
      have hstep := advances_perform es hw hp hfree he' hperform
      have hrest : FollowLast es := by
        cases e with
        | follow n => exact absurd rfl (he' n)
        | _ => exact hlast
      exact ih hstep.sound (hstep.inside hp) hstep.free hrest h (hstep.refines.complete hall)

end Edits

/-! ## Draining -/

section Drain

variable {c : Context} {w w' : Workspace} {item : WorkItem} {rest : List WorkItem}
  {q : Queue WorkItem} {f : Fault}

theorem runIn_handle (c : Context) (item : WorkItem) (w : Workspace) :
    (handle c item).runIn w =
      (performAll c item.path item.place
        (edits c (w.store.get item.place).kind item.origin)).runIn w := by
  rw [handle, Work.runIn_bind, Work.runIn_look]

def Workspace.taken (w : Workspace) (q : Queue WorkItem) : Workspace :=
  { w with queue := q, handled := w.handled + 1 }

theorem sound_taken (hw : w.Sound) (hitems : w.items = item :: rest) (hq : q.toList = rest) :
    (w.taken q).Sound ∧ (w.taken q).Free item.place := by
  obtain ⟨hstore, hinside, hnodup⟩ := hw
  rw [hitems] at hinside hnodup
  rw [List.map_cons, List.nodup_cons] at hnodup
  have htaken : (w.taken q).items = rest := hq
  refine ⟨⟨hstore, fun i hi => ?_, ?_⟩, fun i hi hplace => hnodup.1 ?_⟩
  · rw [htaken] at hi
    exact hinside i (List.mem_cons_of_mem item hi)
  · rw [htaken]
    exact hnodup.2
  · rw [htaken] at hi
    exact List.mem_map.2 ⟨i, hi, hplace⟩

theorem refines_taken (hitems : w.items = item :: rest) (hq : q.toList = rest) :
    Refines w.store (w.todo c) (w.taken q).store
      ((w.taken q).todoAt c item.place
        (inlineEdits c item.path (edits c (w.store.get item.place).kind item.origin))) := by
  refine Refines.of_gives_iff fun p g r => ?_
  have htaken : (w.taken q).items = rest := hq
  rw [Workspace.todo, hitems]
  by_cases hp : p = item.place
  · subst hp
    rw [agenda_cons_self, Workspace.todoAt_self, inlineNode, Shape.kind_map]
  · rw [agenda_cons_of_ne hp, Workspace.todoAt_of_ne hp, Workspace.todo, htaken]

theorem refines_handle (hw : w.Sound) (hitems : w.items = item :: rest) (hq : q.toList = rest)
    (h : (handle c item).runIn (w.taken q) = (.ok (), w')) :
    w'.Sound ∧ Refines w.store (w.todo c) w'.store (w'.todo c) := by
  have hinside : item.place < w.store.size := hw.inside item (by simp [hitems])
  obtain ⟨hsound, hfree⟩ := sound_taken hw hitems hq
  rw [runIn_handle] at h
  obtain ⟨hsound', hrefines⟩ :=
    refines_performAll hsound hinside hfree (followLast_edits c _ _) h
  exact ⟨hsound', (refines_taken hitems hq).trans hrefines⟩

theorem not_allComplete_of_handle_error (hw : w.Sound) (hitems : w.items = item :: rest)
    (hq : q.toList = rest) (h : (handle c item).runIn (w.taken q) = (.error f, w')) :
    ¬ AllComplete w.store (w.todo c) := by
  have hinside : item.place < w.store.size := hw.inside item (by simp [hitems])
  obtain ⟨hsound, hfree⟩ := sound_taken hw hitems hq
  rw [runIn_handle] at h
  intro hall
  exact not_allComplete_of_performAll_error hsound hinside hfree (followLast_edits c _ _) h
    ((refines_taken hitems hq).complete hall)

/-- There is nothing left to do, or there is an item that is handled if the budget allows for one more. -/
theorem runIn_drainWithin (w : Workspace) :
    (w.items = [] ∧ ∀ c budget, (drainWithin c budget).runIn w = (.ok (), w)) ∨
      ∃ item rest q, w.items = item :: rest ∧ q.toList = rest ∧
        next?.runIn w = (.ok (some item), { w with queue := q }) ∧
        ∀ c budget, (drainWithin c budget).runIn w =
          match budget with
          | 0 => (.error (.problem (.workLimit c.limit)), { w with queue := q })
          | budget + 1 => (handle c item >>= fun _ => drainWithin c budget).runIn (w.taken q) := by
  rcases runIn_next? w with ⟨hempty, hnext⟩ | ⟨item, rest, q, hitems, hq, hnext⟩
  · refine .inl ⟨hempty, fun c budget => ?_⟩
    cases budget <;> exact Work.runIn_bind_of_ok hnext
  · refine .inr ⟨item, rest, q, hitems, hq, hnext, fun c budget => ?_⟩
    cases budget with
    | zero => exact Work.runIn_bind_of_ok hnext
    | succ budget =>
      rw [drainWithin, Work.runIn_bind_of_ok hnext]
      exact Work.runIn_bind_of_ok (Work.runIn_modify _ _)

theorem refines_drainWithin {budget : Nat} (hw : w.Sound)
    (h : (drainWithin c budget).runIn w = (.ok (), w')) :
    w'.Sound ∧ w'.items = [] ∧ Refines w.store (w.todo c) w'.store (w'.todo c) := by
  induction budget generalizing w with
  | zero =>
    rcases runIn_drainWithin w with ⟨hempty, hrun⟩ | ⟨item, rest, q, -, -, -, hrun⟩
    · rw [hrun] at h
      cases h
      exact ⟨hw, hempty, Refines.refl _ _⟩
    · rw [hrun] at h
      cases h
  | succ budget ih =>
    rcases runIn_drainWithin w with ⟨hempty, hrun⟩ | ⟨item, rest, q, hitems, hq, -, hrun⟩
    · rw [hrun] at h
      cases h
      exact ⟨hw, hempty, Refines.refl _ _⟩
    · rw [hrun, Work.runIn_bind_eq_ok] at h
      obtain ⟨_, w₁, hhandle, h⟩ := h
      obtain ⟨hsound, hrefines⟩ := refines_handle hw hitems hq hhandle
      obtain ⟨hsound', hempty, hrefines'⟩ := ih hsound h
      exact ⟨hsound', hempty, hrefines.trans hrefines'⟩

/-- Apart from the limit, a drain fails only where some place stands for no tree. -/
theorem not_allComplete_of_drainWithin_error {budget : Nat} (hw : w.Sound)
    (h : (drainWithin c budget).runIn w = (.error f, w'))
    (hlimit : f ≠ .problem (.workLimit c.limit)) : ¬ AllComplete w.store (w.todo c) := by
  induction budget generalizing w with
  | zero =>
    rcases runIn_drainWithin w with ⟨-, hrun⟩ | ⟨item, rest, q, -, -, -, hrun⟩
    · rw [hrun] at h
      cases h
    · rw [hrun] at h
      cases h
      exact absurd rfl hlimit
  | succ budget ih =>
    rcases runIn_drainWithin w with ⟨-, hrun⟩ | ⟨item, rest, q, hitems, hq, -, hrun⟩
    · rw [hrun] at h
      cases h
    · rw [hrun, Work.runIn_bind_eq_error] at h
      obtain h | ⟨_, w₁, hhandle, h⟩ := h
      · exact not_allComplete_of_handle_error hw hitems hq h
      · obtain ⟨hsound, hrefines⟩ := refines_handle hw hitems hq hhandle
        exact fun hall => ih hsound h (hrefines.complete hall)

end Drain

end PayloadSchema.Extraction
