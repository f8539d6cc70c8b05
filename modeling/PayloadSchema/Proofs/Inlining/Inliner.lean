import PayloadSchema.Extraction.Workspace

/-!
# Inlining in depth

An inliner that needs no queue and no places.  It makes the same edits as an extraction does, but completes
the copy of a child before it goes on, and so it returns a finished tree.  Whether it returns at all is a
question of its own: the definition says nothing of the order in which it goes down.
-/

namespace PayloadSchema.Extraction

open Schema

/-! ## Computations that may not end -/

/-- A copy that is being made.  It stops with a fault, or gives a result, or goes on for ever. -/
abbrev Copying := ExceptT Fault Option

namespace Copying

variable {α β : Type}

/-- Whether a copy is finished with a result. -/
def Gives (m : Copying α) (a : α) : Prop := m.run = some (.ok a)

/-- Whether a copy stops with a fault. -/
def Fails (m : Copying α) : Prop := ∃ f, m.run = some (.error f)

/-- Whether a copy is finished or stops. -/
def Ends (m : Copying α) : Prop := m.run ≠ none

@[simp] theorem gives_pure {a b : α} : Gives (pure a) b ↔ a = b := by
  simp [Gives]

@[simp] theorem gives_throw {f : Fault} {a : α} : ¬ Gives (throw f) a := by
  simp [Gives]

@[simp] theorem gives_lift {e : Except Fault α} {a : α} : Gives (liftM e) a ↔ e = .ok a := by
  change (some e : Option (Except Fault α)) = some (.ok a) ↔ e = .ok a
  simp

@[simp] theorem gives_bind {m : Copying α} {next : α → Copying β} {b : β} :
    Gives (m >>= next) b ↔ ∃ a, Gives m a ∧ Gives (next a) b := by
  unfold Gives
  rw [ExceptT.run_bind]
  match m.run with
  | none => simp
  | some (.error f) => simp
  | some (.ok a) => simp

theorem Gives.unique {m : Copying α} {a b : α} (ha : m.Gives a) (hb : m.Gives b) : a = b := by
  have h := Eq.trans (Eq.symm ha) hb
  simpa using h

theorem Ends.fails {m : Copying α} (ends : m.Ends) (h : ∀ a, ¬ m.Gives a) : m.Fails := by
  unfold Ends Gives Fails at *
  match hm : m.run with
  | none => exact absurd hm ends
  | some (.error f) => exact ⟨f, rfl⟩
  | some (.ok a) => exact absurd hm (h a)

theorem Fails.not_gives {m : Copying α} (h : m.Fails) (a : α) : ¬ m.Gives a := by
  obtain ⟨f, hf⟩ := h
  simp [Gives, hf]

end Copying

/-! ## The inliner -/

/-- Goes into the component of a key, which must not be on the path already. -/
def enter (path : List ComponentKey) : Option ComponentKey → Except Fault (List ComponentKey)
  | none => .ok path
  | some k =>
    if k ∈ path then .error (.problem (.circularType (path.map (·.name)) k.name))
    else .ok (path ++ [k])

mutual

/-- Makes edits on a tree.  The copy of a child is complete before the next edit is made. -/
def Context.inlineEdits (c : Context) (path : List ComponentKey) (es : List Edit) (shape : Shape Node) :
    Copying (Shape Node) :=
  match es with
  | [] => pure shape
  | .attach slot child :: es => do
    c |>.inlineEdits path es (slot.fill (← c |>.inlineChild path child) shape)
  | .attachSequence first second :: es => do
    let a ← c |>.inlineChild path first
    let b ← c |>.inlineChild path second
    c |>.inlineEdits path es (Slot.particle.fill ⟨.modelGroup .sequence .once [a, b]⟩ shape)
  | .discard child :: es => do
    let _ ← c |>.inlineChild path child
    c |>.inlineEdits path es shape
  | .follow n :: es => do
    let inside ← liftM (enter path (n.shape.key? c.source.space))
    let shape ← c |>.inlineEdits inside (edits c shape.kind n) shape
    c |>.inlineEdits path es shape
  | .change change :: es => c |>.inlineEdits path es (change.apply shape)
  | .wildcard w :: es => c |>.inlineEdits path es (shape.withAny (some ⟨.anyAttribute w⟩))
  | .warn _ :: es => c |>.inlineEdits path es shape
  | .stop f :: _ => throw f
partial_fixpoint

def Context.inlineChild (c : Context) (path : List ComponentKey) (child : Child) : Copying Node := do
  let shape ← liftM child.outline
  let inside ← liftM (enter path (child.key? c.source.space))
  let shape ← c |>.inlineEdits inside (edits c shape.kind child.origin) shape
  pure ⟨shape⟩
partial_fixpoint

end

-- As with the rules, the context is an argument like the others wherever the inliner is used.
export Context (inlineEdits inlineChild)

def inlineNode (c : Context) (path : List ComponentKey) (n : Node) (shape : Shape Node) :
    Copying (Shape Node) :=
  inlineEdits c path (edits c shape.kind n) shape

section Equations

variable {c : Context} {path : List ComponentKey} {es : List Edit} {shape r : Shape Node}

open Copying

@[simp] theorem inlineEdits_nil : inlineEdits c path [] shape = pure shape := by
  rw [inlineEdits]

@[simp] theorem inlineEdits_stop {f : Fault} :
    inlineEdits c path (.stop f :: es) shape = throw f := by
  rw [inlineEdits]

@[simp] theorem inlineEdits_change {change : Change} :
    inlineEdits c path (.change change :: es) shape =
      inlineEdits c path es (change.apply shape) := by
  rw [inlineEdits]

@[simp] theorem inlineEdits_wildcard {w : Wildcard} :
    inlineEdits c path (.wildcard w :: es) shape =
      inlineEdits c path es (shape.withAny (some ⟨.anyAttribute w⟩)) := by
  rw [inlineEdits]

@[simp] theorem inlineEdits_warn {text : String} :
    inlineEdits c path (.warn text :: es) shape = inlineEdits c path es shape := by
  rw [inlineEdits]

theorem gives_attach {slot : Slot} {child : Child} :
    (inlineEdits c path (.attach slot child :: es) shape).Gives r ↔
      ∃ n, (inlineChild c path child).Gives n ∧
        (inlineEdits c path es (slot.fill n shape)).Gives r := by
  rw [inlineEdits, gives_bind]

theorem gives_attachSequence {first second : Child} :
    (inlineEdits c path (.attachSequence first second :: es) shape).Gives r ↔
      ∃ a, (inlineChild c path first).Gives a ∧ ∃ b, (inlineChild c path second).Gives b ∧
        (inlineEdits c path es
          (Slot.particle.fill ⟨.modelGroup .sequence .once [a, b]⟩ shape)).Gives r := by
  rw [inlineEdits]
  simp only [gives_bind]

theorem gives_discard {child : Child} :
    (inlineEdits c path (.discard child :: es) shape).Gives r ↔
      (∃ n, (inlineChild c path child).Gives n) ∧ (inlineEdits c path es shape).Gives r := by
  rw [inlineEdits, gives_bind]
  simp

theorem gives_follow {n : Node} :
    (inlineEdits c path (.follow n :: es) shape).Gives r ↔
      ∃ inside, enter path (n.shape.key? c.source.space) = .ok inside ∧
        ∃ s, (inlineNode c inside n shape).Gives s ∧ (inlineEdits c path es s).Gives r := by
  rw [inlineEdits]
  simp only [gives_bind, gives_lift, inlineNode]

theorem gives_child {child : Child} {n : Node} :
    (inlineChild c path child).Gives n ↔
      ∃ s, child.outline = .ok s ∧
        ∃ inside, enter path (child.key? c.source.space) = .ok inside ∧
          ∃ r, (inlineNode c inside child.origin s).Gives r ∧ ⟨r⟩ = n := by
  rw [inlineChild]
  simp only [gives_bind, gives_lift, inlineNode, gives_pure]

/-- A construct is given a type by name, or gets a copy of one, and is as it was otherwise. -/
theorem typeEdits_cases {simpleOnly : Bool} {q : Option QName} {own : Option Node}
    (h : (inlineEdits c path (typeEdits c.source simpleOnly q own) shape).Gives r) :
    (∃ q', r = (Change.typeName q').apply shape) ∨ ∃ m, r = Slot.type.fill m shape := by
  have hattach {child : Child} (h : (inlineEdits c path [.attach .type child] shape).Gives r) :
      ∃ m, r = Slot.type.fill m shape := by
    obtain ⟨m, -, h⟩ := gives_attach.1 h
    rw [inlineEdits_nil, gives_pure] at h
    exact ⟨m, h.symm⟩
  have hnamed {q : Option QName} (h : (inlineEdits c path [.change (.typeName q)] shape).Gives r) :
      ∃ q', r = (Change.typeName q').apply shape := by
    rw [inlineEdits_change, inlineEdits_nil, gives_pure] at h
    exact ⟨q, h.symm⟩
  have hstop {p : Problem} (h : (inlineEdits c path [.fail p] shape).Gives r) : False := by
    rw [Edit.fail, inlineEdits_stop] at h
    exact gives_throw h
  unfold typeEdits at h
  split at h
  · split at h
    · exact .inl (hnamed h)
    · split at h
      · exact (hstop h).elim
      · split at h
        · exact (hstop h).elim
        · exact .inr (hattach h)
  · exact .inr (hattach h)
  · exact .inl (hnamed h)

section References

variable {table : TableName} {target : Kind} {formDefault : String} {ref : Option QName} {n : Node} {change : Change}

theorem exists_of_gives_reference
    (h : (inlineEdits c path (referenceEdits c.source table target formDefault ref) shape).Gives r) :
    ∃ n, c.source.find? table ref = some n := by
  cases hfind : c.source.find? table ref with
  | none =>
    simp only [referenceEdits, hfind, Edit.fail, inlineEdits_stop] at h
    exact absurd h gives_throw
  | some n => exact ⟨n, rfl⟩

/-- In place of a reference stands the copy of its declaration: under the name of that, and with a form that says that
the name is qualified where it is not by default. -/
theorem gives_reference (hfind : c.source.find? table ref = some n)
    (hfollow : followEdits target n = [.change change, .follow n])
    (h : (inlineEdits c path (referenceEdits c.source table target formDefault ref) shape).Gives r) :
    ∃ inside, enter path (n.shape.key? c.source.space) = .ok inside ∧
      .follow n ∈ referenceEdits c.source table target formDefault ref ∧
      (inlineNode c inside n <| change.apply <|
        if formDefault = qualified then (Change.name (n.shape.component?.bind (·.name))).apply shape
        else (Change.form qualified).apply ((Change.name (n.shape.component?.bind (·.name))).apply shape)).Gives r := by
  have hedits : referenceEdits c.source table target formDefault ref =
      .change (.name (n.shape.component?.bind (·.name))) ::
        (if formDefault = qualified then [] else [.change (.form qualified)]) ++ [.change change, .follow n] := by
    simp only [referenceEdits, hfind, hfollow]
  rw [hedits] at h ⊢
  by_cases hdefault : formDefault = qualified
  · rw [if_pos hdefault, List.cons_append, List.nil_append, inlineEdits_change, inlineEdits_change] at h
    obtain ⟨inside, henter, _, hnode, hr⟩ := gives_follow.1 h
    rw [inlineEdits_nil, gives_pure] at hr
    subst hr
    exact ⟨inside, henter, by simp, by rwa [if_pos hdefault]⟩
  · rw [if_neg hdefault, List.cons_append, List.singleton_append, inlineEdits_change, inlineEdits_change,
      inlineEdits_change] at h
    obtain ⟨inside, henter, _, hnode, hr⟩ := gives_follow.1 h
    rw [inlineEdits_nil, gives_pure] at hr
    subst hr
    exact ⟨inside, henter, by simp, by rwa [if_neg hdefault]⟩

end References

end Equations

/-! ## Seeds -/

/-- A component of the source for which a new element is asked. -/
inductive Seed where
  | element (origin : Node) (topLevel : Bool)
  | type (name : Option String) (origin : Node) (topLevel : Bool)

namespace Seed

/-- Whether a seed is one of the elements or types at the top of a schema. -/
def IsGlobal (s : Schema) : Seed → Prop
  | element n _ => n ∈ s.elements.values
  | type _ n _ => n ∈ s.types.values

def origin : Seed → Node
  | element n _ => n
  | type _ n _ => n

/-- Whether the new element is to stand at the top of the target. -/
def topLevel : Seed → Bool
  | element _ topLevel => topLevel
  | type _ _ topLevel => topLevel

def blank {α : Type} (c : Context) : Seed → Shape α
  | element n topLevel =>
    let own := n.shape.component?.getD ⟨none, false⟩
    blankElement own.name topLevel
      (if !topLevel && own.topLevel && c.elementForm ≠ qualified then some qualified else none)
  | type name _ topLevel => blankElement name topLevel none

/-- The edits that complete the new element. -/
def edits : Seed → List Edit
  | element n _ => followEdits .element n
  | type _ n _ => [.attach .type (.plain n)]

def inline (c : Context) (seed : Seed) : Copying Node := do
  let shape ← inlineEdits c [] seed.edits (seed.blank c)
  pure ⟨shape⟩

/-- Registers a seed with an extraction. -/
def register (c : Context) : Seed → Work Place
  | element n topLevel => extractElement c (some n) topLevel
  | type name n topLevel => extractType c name (some n) topLevel

end Seed

end PayloadSchema.Extraction
