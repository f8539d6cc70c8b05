import PayloadSchema.Proofs.Inlining.Inliner
import PayloadSchema.Proofs.Store.Trees

/-!
# Runs of steps

What the steps of an extraction do to a workspace, one equation for each of them.
-/

namespace PayloadSchema.Extraction

open Schema

namespace Work

variable {α β : Type}

theorem runIn_bind (m : Work α) (next : α → Work β) (w : Workspace) :
    (m >>= next).runIn w =
      match m.runIn w with
      | (.ok a, w') => (next a).runIn w'
      | (.error f, w') => (.error f, w') := by
  have hrun : (m >>= next).runIn w =
      (ExceptT.bindCont next (m.runIn w).1 : StateM Workspace (Except Fault β)).run (m.runIn w).2 := rfl
  rw [hrun]
  match m.runIn w with
  | (.ok a, w') => rfl
  | (.error f, w') => rfl

theorem runIn_bind_of_ok {m : Work α} {next : α → Work β} {w w' : Workspace} {a : α}
    (h : m.runIn w = (.ok a, w')) : (m >>= next).runIn w = (next a).runIn w' := by
  rw [runIn_bind, h]

/-- A step that is followed by another one succeeds only if both do. -/
theorem runIn_bind_eq_ok {m : Work α} {next : α → Work β} {w w' : Workspace} {b : β} :
    (m >>= next).runIn w = (.ok b, w') ↔
      ∃ a w₁, m.runIn w = (.ok a, w₁) ∧ (next a).runIn w₁ = (.ok b, w') := by
  rw [runIn_bind]
  match m.runIn w with
  | (.ok a, w₁) => simp
  | (.error f, w₁) => simp

theorem runIn_bind_eq_error {m : Work α} {next : α → Work β} {w w' : Workspace} {f : Fault} :
    (m >>= next).runIn w = (.error f, w') ↔
      m.runIn w = (.error f, w') ∨
        ∃ a w₁, m.runIn w = (.ok a, w₁) ∧ (next a).runIn w₁ = (.error f, w') := by
  rw [runIn_bind]
  match m.runIn w with
  | (.ok a, w₁) => simp
  | (.error f, w₁) => simp

theorem runIn_discard_eq_ok {m : Work α} {w w' : Workspace} :
    (discard m).runIn w = (.ok (), w') ↔ ∃ a, m.runIn w = (.ok a, w') := by
  have hrun : (discard m).runIn w = (m >>= fun _ => pure ()).runIn w := rfl
  rw [hrun, runIn_bind_eq_ok]
  refine exists_congr fun a => ⟨fun ⟨w₁, hm, hpure⟩ => ?_, fun hm => ⟨w', hm, rfl⟩⟩
  cases hpure
  exact hm

@[simp] theorem runIn_pure (a : α) (w : Workspace) : (pure a : Work α).runIn w = (.ok a, w) := rfl

@[simp] theorem runIn_throw (f : Fault) (w : Workspace) :
    (throw f : Work α).runIn w = (.error f, w) := rfl

@[simp] theorem runIn_modify (g : Workspace → Workspace) (w : Workspace) :
    (modify g : Work Unit).runIn w = (.ok (), g w) := rfl

@[simp] theorem runIn_modifyGet (g : Workspace → α × Workspace) (w : Workspace) :
    (modifyGet g : Work α).runIn w = (.ok (g w).1, (g w).2) := rfl

@[simp] theorem runIn_get (w : Workspace) : (get : Work Workspace).runIn w = (.ok w, w) := rfl

@[simp] theorem runIn_ofExcept (e : Except Fault α) (w : Workspace) :
    (ofExcept e).runIn w = (e, w) := by
  cases e <;> rfl

@[simp] theorem runIn_push (shape : Shape Place) (w : Workspace) :
    (push shape).runIn w = (.ok w.store.size, { w with store := (w.store.push shape).2 }) := rfl

@[simp] theorem runIn_update (p : Place) (f : Shape Place → Shape Place) (w : Workspace) :
    (update p f).runIn w = (.ok (), { w with store := w.store.update p f }) := rfl

@[simp] theorem runIn_look (p : Place) (w : Workspace) :
    (look p).runIn w = (.ok (w.store.get p), w) := rfl

@[simp] theorem runIn_warn (text : String) (w : Workspace) :
    (warn text).runIn w = (.ok (), { w with log := w.log.push ⟨.warning, text⟩ }) := rfl

@[simp] theorem runIn_register (table : TableName) (name : Option String) (p : Place)
    (w : Workspace) :
    (register table name p).runIn w = (.ok (), { w with target := w.target.put table name p }) := rfl

/-! ### Faults -/

/-- A step that stops only with faults of a kind, wherever it is taken. -/
def FailsWith (fair : Fault → Prop) (m : Work α) : Prop :=
  ∀ w f w', m.runIn w = (.error f, w') → fair f

section FailsWith

variable {fair : Fault → Prop} {m : Work α} {next : α → Work β}

theorem FailsWith.bind (hm : FailsWith fair m) (hnext : ∀ a, FailsWith fair (next a)) :
    FailsWith fair (m >>= next) := by
  intro w f w' h
  rcases runIn_bind_eq_error.1 h with h | ⟨a, w₁, -, h⟩
  · exact hm w f w' h
  · exact hnext a w₁ f w' h

theorem failsWith_of_ok {a : Workspace → α} {g : Workspace → Workspace}
    (h : ∀ w, m.runIn w = (.ok (a w), g w)) : FailsWith fair m := by
  intro w f w' hrun
  cases (h w).symm.trans hrun

theorem failsWith_throw {f : Fault} (h : fair f) : FailsWith fair (throw f : Work α) := by
  rintro w f' w' ⟨⟩
  exact h

theorem FailsWith.mapM {f : β → Work α} {l : List β} (h : ∀ b ∈ l, FailsWith fair (f b)) :
    FailsWith fair (l.mapM f) := by
  induction l with
  | nil => exact failsWith_of_ok fun w => runIn_pure _ w
  | cons b l ih =>
    rw [List.mapM_cons]
    refine (h b List.mem_cons_self).bind fun a => ?_
    exact (ih fun b' hb' => h b' (List.mem_cons_of_mem b hb')).bind fun as =>
      failsWith_of_ok fun w => runIn_pure _ w

end FailsWith

end Work

/-! ## Taking the next item -/

theorem runIn_next? (w : Workspace) :
    (w.queue.toList = [] ∧ next?.runIn w = (.ok none, w)) ∨
      ∃ item rest q, w.queue.toList = item :: rest ∧ q.toList = rest ∧
        next?.runIn w = (.ok (some item), { w with queue := q }) := by
  have hpop := w.queue.pop?_eq
  rw [next?, Work.runIn_modifyGet]
  cases hq : w.queue.pop? with
  | none =>
    cases hl : w.queue.toList with
    | nil => exact .inl ⟨rfl, rfl⟩
    | cons item rest => simp [hq, hl] at hpop
  | some next =>
    cases hl : w.queue.toList with
    | nil => simp [hq, hl] at hpop
    | cons item rest =>
      simp only [hq, hl, Option.map_some, Option.some.injEq, Prod.mk.injEq] at hpop
      exact .inr ⟨item, rest, next.2, rfl, hpop.2, by rw [← hpop.1]⟩

/-! ## Scheduling and creating -/

variable {c : Context} {path : List ComponentKey} {w w' : Workspace} {p : Place}

theorem runIn_schedule (path : List ComponentKey) (key : Option ComponentKey) (p : Place) (n : Node)
    (w : Workspace) :
    (schedule path key p n).runIn w =
      match enter path key with
      | .ok inside => (.ok (), { w with queue := w.queue.push ⟨p, n, inside⟩ })
      | .error f => (.error f, w) := by
  cases key with
  | none => simp [schedule, enter]
  | some k =>
    rw [schedule]
    by_cases hk : k ∈ path <;> simp [enter, hk]

theorem runIn_create (c : Context) (path : List ComponentKey) (child : Child) (w : Workspace) :
    (create c path child).runIn w =
      match child.outline with
      | .error f => (.error f, w)
      | .ok shape =>
        let pushed := (Store.pushShape shape).run w.store
        match enter path (child.key? c.source.space) with
        | .error f => (.error f, { w with store := pushed.2 })
        | .ok inside =>
          (.ok pushed.1,
            { w with
              store := pushed.2
              queue := w.queue.push ⟨pushed.1, child.origin, inside⟩ }) := by
  rw [create, Work.runIn_bind, Work.runIn_ofExcept]
  match child.outline with
  | .error f => rfl
  | .ok shape =>
    have hrun : (Work.onStore (Store.pushShape shape)).runIn w =
        (.ok ((Store.pushShape shape).run w.store).1,
          { w with store := ((Store.pushShape shape).run w.store).2 }) := rfl
    change (Work.onStore (Store.pushShape shape) >>= fun p => _).runIn w = _
    rw [Work.runIn_bind, hrun]
    simp only [Work.runIn_bind, runIn_schedule]
    match enter path (child.key? c.source.space) with
    | .error f => rfl
    | .ok inside => rfl

theorem runIn_addElement (name : Option String) (topLevel : Bool) (form : Option String)
    (w : Workspace) :
    (addElement name topLevel form).runIn w =
      (.ok w.store.size,
        { w with
          store := (w.store.push (blankElement name topLevel form)).2
          target := if topLevel then w.target.put .elements name w.store.size else w.target }) := by
  cases topLevel <;> rfl

/-- The copy of a child that has been started stands at a new place, and waits there. -/
theorem runIn_create_eq_ok {child : Child} (h : (create c path child).runIn w = (.ok p, w')) :
    ∃ shape inside, child.outline = .ok shape ∧ enter path (child.key? c.source.space) = .ok inside ∧
      ((Store.pushShape shape).run w.store).1 = p ∧
      w' = { w with
        store := ((Store.pushShape shape).run w.store).2
        queue := w.queue.push ⟨p, child.origin, inside⟩ } := by
  rw [runIn_create] at h
  match hshape : child.outline with
  | .error f => simp [hshape] at h
  | .ok shape =>
    match hinside : enter path (child.key? c.source.space) with
    | .error f => simp [hshape, hinside] at h
    | .ok inside =>
      simp only [hshape, hinside, Prod.mk.injEq, Except.ok.injEq] at h
      obtain ⟨rfl, rfl⟩ := h
      exact ⟨shape, inside, rfl, rfl, rfl, rfl⟩

theorem create_eq_ok {child : Child} (h : (create c path child).runIn w = (.ok p, w')) :
    ∃ shape inside s own, child.outline = .ok shape ∧
      enter path (child.key? c.source.space) = .ok inside ∧
      Store.Planted w.store.size w.store s ∧ own.map s.tree = shape ∧
      (∀ q ∈ own.children, s.Holds w.store.size q (s.tree q)) ∧ p = s.size ∧
      w' = { w with
        store := (s.push own).2
        queue := w.queue.push ⟨s.size, child.origin, inside⟩ } := by
  obtain ⟨shape, inside, houtline, henter, rfl, rfl⟩ := runIn_create_eq_ok h
  obtain ⟨s, own, hplanted, hmap, hinner, hrun⟩ := Store.run_pushShape w.store shape
  rw [hrun]
  exact ⟨shape, inside, s, own, houtline, henter, hplanted, hmap, hinner, rfl, rfl⟩

theorem not_gives_of_create_error {child : Child} {f : Fault}
    (h : (create c path child).runIn w = (.error f, w')) (n : Node) :
    ¬ (inlineChild c path child).Gives n := by
  rw [runIn_create] at h
  rw [gives_child]
  rintro ⟨shape, hshape, inside, hinside, -⟩
  simp [hshape, hinside] at h

end PayloadSchema.Extraction
