import PayloadSchema.Proofs.Payload.Finding

/-!
# Refusals of a synthesis

A synthesis that gives no text gives a problem.  The message is refused at once, or the first of its steps that stops
comes upon a problem of its own, and that problem is reported once, as one that was met in the message.  In particular
no step looks for a field that a construct does not have, and no mark extends the name of an element without a name.
-/

namespace PayloadSchema.Payload

open Schema Extraction

/-! ## Steps in order -/

/-- The fault of the first of some steps that stops, when they are taken in order, and the workspace that they leave
behind. -/
def firstFault? : List (Work Unit) → Workspace → Option Fault × Workspace
  | [], w => (none, w)
  | step :: steps, w =>
    match step.runIn w with
    | (.ok _, w') => firstFault? steps w'
    | (.error f, w') => (some f, w')

theorem firstFault?_of_ok {step : Work Unit} {steps : List (Work Unit)} {w w' : Workspace}
    (h : step.runIn w = (.ok (), w')) : firstFault? (step :: steps) w = firstFault? steps w' := by
  rw [firstFault?, h]

theorem firstFault?_of_error {step : Work Unit} {steps : List (Work Unit)} {w w' : Workspace} {f : Fault}
    (h : step.runIn w = (.error f, w')) : firstFault? (step :: steps) w = (some f, w') := by
  rw [firstFault?, h]

def markNamed (p : Place) (space : String) : Work Unit := do
  if (← Work.look p).name?.isNone then throw .wrongNode
  mark p space

def markAllNamed (depth : Nat) (marked : List Place) : List QName → Work Unit
  | [] => pure ()
  | q :: qs => do
    match ← Work.ofExcept (find? (← get) q.name depth marked) with
    | none => throw (.problem (.missingPartElement q))
    | some p =>
      markNamed p q.space
      markAllNamed depth (p :: marked) qs

/-- The steps of a synthesis after its message has been accepted: the lookup of the parts, the extraction, the marks
and the writing. -/
def stages (settings : Settings) (m : Message) (source : Schema) : List (Work Unit) :=
  [addPayload (context settings source) m,
    drain (context settings source),
    markAllNamed settings.searchDepth [] (markedNames m),
    do discard (Work.ofExcept ((← get).schema.write settings))]

/-- A fault that is a problem by itself. -/
def IsBare (f : Fault) : Prop :=
  ∃ p, f = .problem p ∧ p.IsBare

section Marks

variable {w w' : Workspace} {p : Place} {depth : Nat} {marked : List Place} {names : List QName} {name : String}
  {f : Fault}

/-! ## Marks of elements with names -/

def Titled (w : Workspace) : Prop :=
  ∀ e ∈ w.target.elements, ShowsElement w e.2 ∧ (w.store.get e.2).name? = e.1

theorem Titled.onTop (h : Titled w) : ∀ q ∈ w.target.elements.values, ShowsElement w q := by
  intro q hq
  obtain ⟨e, he, rfl⟩ := List.mem_map.1 hq
  exact (h e he).1

theorem name?_of_find? (h : Titled w) (hfind : find? w name depth marked = .ok (some p)) :
    (w.store.get p).name? = some name := by
  rw [find?] at hfind
  split at hfind
  · rename_i q hq
    cases hfind
    obtain ⟨hget, -⟩ := Option.filter_eq_some_iff.1 hq
    exact (h _ (Table.mem_of_get? hget)).2
  · dsimp only at hfind
    split at hfind
    · rw [Except.ok.injEq, findBelow?_eq] at hfind
      have hfits := List.find?_some hfind
      rw [Bool.and_eq_true] at hfits
      exact isNamed_iff.1 hfits.1
    · cases hfind

theorem find?_eq_ok (h : Titled w) (name : String) (depth : Nat) (marked : List Place) :
    ∃ found, find? w name depth marked = .ok found := by
  have hall : w.target.elements.values.all fun p => (shapeAt w p).ownType?.isSome := by
    refine List.all_eq_true.2 fun q hq => ?_
    obtain ⟨c, d, own, hget⟩ := Shape.exists_of_kind_element (h.onTop q hq).kind
    rw [shapeAt, hget]
    rfl
  rw [find?]
  split
  · exact ⟨_, rfl⟩
  · dsimp only
    rw [if_pos hall]
    exact ⟨_, rfl⟩

theorem Titled.mark (h : Titled w) {space : String} (hp : ShowsElement w p)
    (hmark : (mark p space).runIn w = (.ok (), w')) : Titled w' := by
  have hkeeps := keeps_mark hp.shows hp.kind hmark
  obtain ⟨hspares, -⟩ := spares_mark hp hmark
  intro e he
  rw [hkeeps.target] at he
  obtain ⟨hshows, hname⟩ := h e he
  refine ⟨hshows.keeps hkeeps, ?_⟩
  rw [Shape.name?, hspares.component _ hshows.shows.holds.lt_size]
  exact hname

theorem runIn_markAllNamed_cons {depth : Nat} {marked : List Place} {q : QName} {names : List QName} :
    (markAllNamed depth marked (q :: names)).runIn w =
      match find? w q.name depth marked with
      | .error f => (.error f, w)
      | .ok none => (.error (.problem (.missingPartElement q)), w)
      | .ok (some p) =>
        (do
          markNamed p q.space
          markAllNamed depth (p :: marked) names).runIn w := by
  rw [markAllNamed, Work.runIn_bind_of_ok (Work.runIn_get w), Work.runIn_bind, Work.runIn_ofExcept]
  cases find? w q.name depth marked with
  | error f => rfl
  | ok found => cases found <;> rfl

/-- Marks are refused only where no element of a name is left, and never for the lack of a name. -/
theorem markAllNamed_spec (depth : Nat) (marked : List Place) (names : List QName) (h : Titled w) :
    (markAllNamed depth marked names).runIn w = (markAll depth marked names).runIn w ∧
      ∀ f w', (markAll depth marked names).runIn w = (.error f, w') →
        ∃ q ∈ names, f = .problem (.missingPartElement q) := by
  induction names generalizing w marked with
  | nil => exact ⟨rfl, by rintro _ _ ⟨⟩⟩
  | cons q names ih =>
    rw [runIn_markAllNamed_cons, runIn_markAll_cons]
    obtain ⟨found, hfind⟩ := find?_eq_ok h q.name depth marked
    rw [hfind]
    cases found with
    | none =>
      refine ⟨rfl, ?_⟩
      rintro _ _ ⟨⟩
      exact ⟨q, List.mem_cons_self, rfl⟩
    | some p =>
      have hp := showsElement_of_find? h.onTop hfind
      obtain ⟨w₁, hmark, -⟩ := exists_mark q.space hp.shows hp.kind
      have hnamed : (markNamed p q.space).runIn w = (.ok (), w₁) := by
        rw [markNamed, Work.runIn_bind_of_ok (Work.runIn_look p w), name?_of_find? h hfind]
        exact hmark
      obtain ⟨hsame, hfaults⟩ := ih (p :: marked) (h.mark hp hmark)
      dsimp only
      rw [Work.runIn_bind_of_ok hnamed, Work.runIn_bind_of_ok hmark]
      refine ⟨hsame, fun f w' hf => ?_⟩
      obtain ⟨q', hq', rfl⟩ := hfaults f w' hf
      exact ⟨q', List.mem_cons_of_mem q hq', rfl⟩

end Marks

/-! ## Synthesis -/

section Synthesis

variable {c : Context} {m : Message} {settings : Settings} {source : Schema} {f : Fault} {w : Workspace}
  {log : Array Log.Entry}

theorem Undeclared.isBare (h : Undeclared f) : IsBare f := by
  cases h <;> exact ⟨_, rfl, by simp [Problem.IsBare]⟩

theorem isBare_drain {w' : Workspace} (hs : c.source.Proper) (hw : w.Traced c.source)
    (h : (drain c).runIn w = (.error f, w')) : IsBare f := by
  rcases drain_fault hs hw h with rfl | hintrinsic
  · exact ⟨_, rfl, by simp [Problem.IsBare]⟩
  · obtain ⟨p, rfl, -⟩ := hintrinsic.genuine
    exact ⟨p, rfl, hintrinsic.bare p rfl⟩

theorem Laid.isTitled {around : Bool → String → List Place → Place → Prop} {stands : Bool → Part → Place → Prop}
    {space elementForm attributeForm name : String} {calls header body : List Place} {root : Place}
    (h : Laid around stands m (.empty space elementForm attributeForm) w calls header body root name) :
    Titled w := by
  rw [Titled, h.target_eq]
  simpa [SchemaOf.put, SchemaOf.empty, Table.put] using ⟨h.top, h.titled⟩

/-- To write the payload of a message is to take the steps in order, and each of them stops only at a problem of its
own, if the prefix leaves no brace open. -/
theorem runIn_writePayload_eq_stages (hs : source.Proper) (hlabel : Xml.isUnclosed settings.schemaPrefix = false)
    (m : Message) :
    (∃ text w, firstFault? (stages settings m source) (start source) = (none, w) ∧
      w.schema.write settings = .ok text ∧
      (writePayload settings m source).runIn (start source) = (.ok text, w)) ∨
    ∃ f w, firstFault? (stages settings m source) (start source) = (some f, w) ∧ IsBare f ∧
      (writePayload settings m source).runIn (start source) = (.error f, w) := by
  rw [runIn_writePayload]
  match hadd : (addPayload (context settings source) m).runIn (start source) with
  | (.error f, w₁) =>
    have hbuild : (build settings m source).runIn (start source) = (.error f, w₁) :=
      Work.runIn_bind_eq_error.2 (.inl hadd)
    have hbare := (failsWith_addPayload (c := context settings source) hs _ f w₁ hadd).isBare
    exact .inr ⟨f, w₁, firstFault?_of_error hadd, hbare, by rw [hbuild]; rfl⟩
  | (.ok _, w₁) =>
    obtain ⟨asked, calls, header, body, root, name, hassembled⟩ :=
      assembled_addPayload (c := context settings source) hs (gathers_ofForms _ _ _ _) hadd
    match hdrain : (drain (context settings source)).runIn w₁ with
    | (.error f, w₂) =>
      have hbuild : (build settings m source).runIn (start source) = (.error f, w₂) :=
        (Work.runIn_bind_of_ok hadd).trans (Work.runIn_bind_eq_error.2 (.inl hdrain))
      have hbare := isBare_drain (c := context settings source) hs hassembled.gathers.traced hdrain
      refine .inr ⟨f, w₂, ?_, hbare, by rw [hbuild]; rfl⟩
      rw [stages, firstFault?_of_ok hadd, firstFault?_of_error hdrain]
    | (.ok _, w₂) =>
      have hlaid := laid_drain (c := context settings source) hs hassembled hdrain
      obtain ⟨hsame, hfaults⟩ := markAllNamed_spec settings.searchDepth [] (markedNames m) hlaid.isTitled
      have hrest : (build settings m source).runIn (start source) =
          (do
            markAll settings.searchDepth [] (markedNames m)
            pure (← get).schema : Work Schema).runIn w₂ :=
        (Work.runIn_bind_of_ok hadd).trans (Work.runIn_bind_of_ok hdrain)
      match hmark : (markAll settings.searchDepth [] (markedNames m)).runIn w₂ with
      | (.error f, w₃) =>
        obtain ⟨q, -, rfl⟩ := hfaults f w₃ hmark
        rw [Work.runIn_bind, hmark] at hrest
        refine .inr ⟨_, w₃, ?_, ⟨.missingPartElement q, rfl, by simp [Problem.IsBare]⟩, by rw [hrest]; rfl⟩
        rw [stages, firstFault?_of_ok hadd, firstFault?_of_ok hdrain, firstFault?_of_error (hsame.trans hmark)]
      | (.ok _, w₃) =>
        rw [Work.runIn_bind_of_ok hmark] at hrest
        have hbuild : (build settings m source).runIn (start source) = (.ok w₃.schema, w₃) := hrest
        obtain ⟨text, htext⟩ := exists_text hs hlabel hbuild
        have hwrite : (do discard (Work.ofExcept ((← get).schema.write settings)) : Work Unit).runIn w₃ =
            (.ok (), w₃) := by
          rw [Work.runIn_bind_of_ok (Work.runIn_get w₃), htext]
          rfl
        refine .inl ⟨text, w₃, ?_, htext, by rw [hbuild]; exact congrArg (·, w₃) htext⟩
        rw [stages, firstFault?_of_ok hadd, firstFault?_of_ok hdrain, firstFault?_of_ok (hsame.trans hmark),
          firstFault?_of_ok hwrite, firstFault?]

theorem problem_of_synthesize (hread : ∀ s ∈ m.schemas, IsRead s)
    (hlabel : Xml.isUnclosed settings.schemaPrefix = false)
    (h : ((synthesize settings m).run.run log).1 = .error f) : ∃ p, f = .problem p := by
  rw [run_synthesize] at h
  match hsource : m.source with
  | .error p =>
    rw [hsource] at h
    cases h
    exact ⟨p, rfl⟩
  | .ok source =>
    simp only [hsource] at h
    split at h
    · cases h
      exact ⟨_, rfl⟩
    · rcases runIn_writePayload_eq_stages (proper_source hread hsource) hlabel m with
        ⟨text, w, -, -, hrun⟩ | ⟨_, w, -, ⟨p, rfl, -⟩, hrun⟩
      · rw [hrun] at h
        cases h
      · rw [hrun] at h
        cases h
        exact ⟨_, rfl⟩

/-- Under a prefix that leaves no brace open, a synthesis gives a text or a problem, and nothing else.  A message is
refused at once if it has several schemas or is encoded.  Otherwise the first step that stops comes upon a problem of
its own, and what is reported is this problem, with its category and its property, behind one mention of the message;
where no step stops, what is given is the schema that the steps have made, written as a text. -/
theorem synthesize_refuses_with_problems (hread : ∀ s ∈ m.schemas, IsRead s) (settings : Settings)
    (hlabel : Xml.isUnclosed settings.schemaPrefix = false) (log : Array Log.Entry) :
    (∃ p, (synthesize settings m).run.run log = (.error (.problem p), log) ∧
      (p = .multipleSchemas ∧ 2 ≤ m.schemas.length ∨
        p = .encodedUse ∧ m.schemas.length ≤ 1 ∧ m.use = .encoded)) ∨
    ∃ source, m.source = .ok source ∧ m.use = .literal ∧
      ((∃ text w, firstFault? (stages settings m source) (start source) = (none, w) ∧
          w.schema.write settings = .ok text ∧
          (synthesize settings m).run.run log = (.ok text, log ++ w.log)) ∨
        ∃ cause w, firstFault? (stages settings m source) (start source) = (some (.problem cause), w) ∧
          cause.IsBare ∧
          (synthesize settings m).run.run log =
            (.error (.problem (.inMessage m.direction m.operation cause)), log ++ w.log) ∧
          (Problem.inMessage m.direction m.operation cause).violation =
            ⟨"Error parsing " ++ m.direction.text ++ " for operation " ++ m.operation.toText ++ ": " ++
              cause.message, cause.errorClass.tag, cause.property⟩) := by
  rw [run_synthesize]
  cases hsource : m.source with
  | error p =>
    refine .inl ⟨p, rfl, .inl ?_⟩
    rw [Message.source] at hsource
    split at hsource
    · cases hsource
    · cases hsource
    · rename_i hmany hone
      cases hsource
      refine ⟨rfl, ?_⟩
      cases hschemas : m.schemas with
      | nil => exact absurd hschemas hmany
      | cons s rest =>
        cases rest with
        | nil => exact absurd hschemas (hone s)
        | cons _ _ => simp
  | ok source =>
    have hfew : m.schemas.length ≤ 1 := by
      rw [Message.source] at hsource
      split at hsource
      · rename_i hnone
        simp [hnone]
      · rename_i s hone
        simp [hone]
      · cases hsource
    cases huse : m.use with
    | encoded => exact .inl ⟨.encodedUse, rfl, .inr ⟨rfl, hfew, rfl⟩⟩
    | literal =>
      refine .inr ⟨source, rfl, rfl, ?_⟩
      simp only [reduceCtorEq, if_false]
      rcases runIn_writePayload_eq_stages (proper_source hread hsource) hlabel m with
        ⟨text, w, hstages, hwrite, hrun⟩ | ⟨_, w, hstages, ⟨cause, rfl, hbare⟩, hrun⟩
      · exact .inl ⟨text, w, hstages, hwrite, by rw [hrun]; rfl⟩
      · exact .inr ⟨cause, w, hstages, hbare, by rw [hrun]; rfl, rfl⟩

/-- A message with a part that refers to an element that is not declared. -/
def danglingMessage : Message :=
  { sampleMessage with header := [⟨⟨"urn:p", "h"⟩, some ⟨"urn:s", "b"⟩, none⟩] }

/-- The message with the dangling part is refused for this part, and the refusal tells the message once. -/
theorem synthesize_refuses_with_problems_sample :
    ∃ log, (synthesize .standard danglingMessage).run.run #[] =
      (.error (.problem (.inMessage .output ⟨"urn:s", "call"⟩
        (.undeclaredElement ⟨"urn:s", "b"⟩ ⟨"urn:p", "h"⟩))), log) := by
  have hread : ∀ s ∈ danglingMessage.schemas, IsRead s := isRead_sampleMessage
  have hadd : ((addPayload (context .standard sampleSchema) danglingMessage).runIn (start sampleSchema)).1 =
      .error (.problem (.undeclaredElement ⟨"urn:s", "b"⟩ ⟨"urn:p", "h"⟩)) := rfl
  rcases synthesize_refuses_with_problems hread .standard (by decide) #[] with
    ⟨p, -, ⟨-, hmany⟩ | ⟨-, -, huse⟩⟩ | ⟨source, hsource, -, hsteps⟩
  · cases hmany with
    | step h => cases h
  · cases huse
  · cases hsource
    have hfirst : (firstFault? (stages .standard danglingMessage sampleSchema) (start sampleSchema)).1 =
        some (.problem (.undeclaredElement ⟨"urn:s", "b"⟩ ⟨"urn:p", "h"⟩)) := by
      rw [stages, firstFault?]
      match hrun : (addPayload (context .standard sampleSchema) danglingMessage).runIn (start sampleSchema) with
      | (.ok _, w) =>
        rw [hrun] at hadd
        cases hadd
      | (.error f, w) =>
        rw [hrun] at hadd
        cases hadd
        rfl
    rcases hsteps with ⟨text, w, hnone, -⟩ | ⟨cause, w, hcause, -, hrun, -⟩
    · rw [hnone] at hfirst
      cases hfirst
    · rw [hcause] at hfirst
      cases hfirst
      exact ⟨_, hrun⟩

end Synthesis

end PayloadSchema.Payload
