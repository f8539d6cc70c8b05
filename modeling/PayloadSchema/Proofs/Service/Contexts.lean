import PayloadSchema.Proofs.Log.Reports
import PayloadSchema.Service.Generate
import PayloadSchema.Service.Summary

/-!
# Contexts in use

A context is used for requests in any order, it may be released between them, and whoever uses it may go on after a
request that has stopped.  At any moment it has either read nothing, or it knows what its document gives.  So what it
says of the document depends on the document alone, and the refusal of a document is never forgotten.  Only a fault
that is no problem is met once and then hidden.
-/

namespace PayloadSchema.Service

open Wsdl

/-! ## Uses -/

inductive Use where
  | definition
  | defaultService
  | defaultPort (service : Option QName)
  | summary (service : Option QName) (port : Option String)
  | generate (service : Option QName) (port : Option String)
  | release

inductive Answer where
  | definition (d : Option Definition)
  | service (q : Option QName)
  | port (p : Option String)
  | summary (s : Summary)
  | schemas (results : List OperationSchemas)
  | done

def Use.request (settings : Settings) : Use → Reading → Run Answer
  | .definition, r => pure (.definition r.definition)
  | .defaultService, r => pure (.service r.defaultService)
  | .defaultPort service, r => pure (.port (r.defaultPort service))
  | .summary service port, r => do pure (.summary (← Service.summary r service port))
  | .generate service port, r => do pure (.schemas (← Service.generate settings r service port))
  | .release, _ => pure .done

namespace Context

/-- Uses a context. Only a release has no need of the document. -/
def use (c : Context) : Use → StateM (Array Log.Entry) (Except Fault Answer × Context)
  | .release => pure (.ok .done, c.release)
  | u => c.ask (u.request c.settings)

/-- The uses of a context in order, each with what it gave, which may be a fault. Between them the log may change in
any way. -/
inductive Uses : Context → List (Use × Except Fault Answer) → Context → Prop
  | nil (c : Context) : Uses c [] c
  | concat {c c₁ c₂ : Context} {trace : List (Use × Except Fault Answer)} {u : Use} {a : Except Fault Answer}
      {log log' : Array Log.Entry} (before : Uses c trace c₁) (last : (c₁.use u).run log = ((a, c₂), log')) :
      Uses c (trace ++ [(u, a)]) c₂

end Context

/-! ## What a context knows -/

/-- What remains of a document: the description, or the violation that its refusal is, or nothing after a fault that
is no problem. -/
def Reading.ofResult : Except Fault Definition → Reading
  | .ok d => ⟨some d, []⟩
  | .error (.problem p) => ⟨none, [p.violation]⟩
  | .error _ => ⟨none, []⟩

/-- What a document gives when it is read. -/
def outcome (document : List UInt8) : Except Fault Definition :=
  (Definition.ofBytes document).result.1

/-- A document that is read or refused with a problem. -/
def IsReported (document : List UInt8) : Prop :=
  ∀ f, outcome document = .error f → ∃ p, f = .problem p

/-- A context of a document that has read nothing, or that knows what the document gives. -/
structure Context.Knows (document : List UInt8) (settings : Settings) (c : Context) : Prop where
  document_eq : c.document = document
  settings_eq : c.settings = settings
  reading_eq : c.reading = none ∨ c.reading = some (.ofResult (outcome document))

section Knows

variable {document : List UInt8} {settings : Settings} {c c' : Context} {log log' : Array Log.Entry} {α : Type}

def Context.afterReading (c : Context) : Context :=
  { c with reading := some (.ofResult (outcome c.document)) }

/-- Reading ends with what remains of the document.  Only a fault that is no problem stops the request. -/
theorem run_load (c : Context) (log : Array Log.Entry) :
    ∃ log', c.load.run log =
      ((match outcome c.document with
        | .ok d => .ok (.ofResult (.ok d))
        | .error (.problem p) => .ok (.ofResult (.error (.problem p)))
        | .error f => .error f, .ofResult (outcome c.document)), log') := by
  rw [Context.load, StateT.run_bind, Definition.steady_ofBytes c.document log, outcome]
  rcases (Definition.ofBytes c.document).result with ⟨f | d, reported⟩
  · cases f <;> exact ⟨_, rfl⟩
  · exact ⟨_, rfl⟩

/-- A request is answered from what remains of the document, unless the document is read for it and stops with a fault
that is no problem. -/
theorem run_ask (hc : c.Knows document settings) (request : Reading → Run α) (log : Array Log.Entry) :
    (c.reading = none → IsReported document) ∧ (∃ log₁, (c.ask request).run log =
      ((((request (.ofResult (outcome document))).run.run log₁).1, c.afterReading),
        ((request (.ofResult (outcome document))).run.run log₁).2)) ∨
    c.reading = none ∧ ∃ f log', outcome document = .error f ∧ (∀ p, f ≠ .problem p) ∧
      (c.ask request).run log = ((.error f, c.afterReading), log') := by
  obtain ⟨rfl, -, hreading⟩ := hc
  rcases hreading with hnone | hsome
  · obtain ⟨log₁, hload⟩ := run_load c log
    unfold Context.ask
    simp only [hnone]
    rw [StateT.run_bind, hload, Context.afterReading]
    cases houtcome : outcome c.document with
    | ok d =>
      have hreport : IsReported c.document := fun f hf => by cases houtcome.symm.trans hf
      exact .inl ⟨fun _ => hreport, log₁, rfl⟩
    | error f =>
      cases f with
      | problem p =>
        have hreport : IsReported c.document := fun f hf => ⟨p, by cases houtcome.symm.trans hf; rfl⟩
        exact .inl ⟨fun _ => hreport, log₁, rfl⟩
      | badValue | wrongNode | unknownEncoding => exact .inr ⟨trivial, _, log₁, rfl, by simp, rfl⟩
  · have hsame : c.afterReading = c := by rw [Context.afterReading, ← hsome]
    refine .inl ⟨fun hnone => (by cases hnone.symm.trans hsome), log, ?_⟩
    rw [Context.ask, hsome, hsame]
    rfl

theorem Context.knows_ofDocument (document : List UInt8) (settings : Settings) :
    (ofDocument document settings).Knows document settings :=
  ⟨rfl, rfl, .inl rfl⟩

theorem Context.Knows.afterReading (hc : c.Knows document settings) : c.afterReading.Knows document settings := by
  obtain ⟨rfl, rfl, -⟩ := hc
  exact ⟨rfl, rfl, .inr rfl⟩

theorem Context.Knows.release (hc : c.Knows document settings) : c.release.Knows document settings :=
  ⟨hc.document_eq, hc.settings_eq, .inl rfl⟩

theorem Context.Knows.ask (hc : c.Knows document settings) {request : Reading → Run α} {a : Except Fault α}
    (h : (c.ask request).run log = ((a, c'), log')) : c' = c.afterReading := by
  rcases run_ask hc request log with ⟨-, log₁, hask⟩ | ⟨-, f, log₁, -, -, hask⟩
  · exact (congrArg (·.1.2) (h.symm.trans hask) :)
  · exact (congrArg (·.1.2) (h.symm.trans hask) :)

/-- Every use leaves a context that knows what the document gives, or nothing of it. -/
theorem Context.Knows.use (hc : c.Knows document settings) {u : Use} {a : Except Fault Answer}
    (h : (c.use u).run log = ((a, c'), log')) : c'.Knows document settings := by
  cases u with
  | release =>
    cases h
    exact hc.release
  | definition | defaultService | defaultPort | summary | generate =>
    rw [hc.ask h]
    exact hc.afterReading

theorem Context.Uses.knows {trace : List (Use × Except Fault Answer)} (h : Context.Uses c trace c')
    (hc : c.Knows document settings) : c'.Knows document settings := by
  induction h with
  | nil => exact hc
  | concat before last ih => exact ih.use last

end Knows

/-! ## What a context says -/

section Violations

variable {document : List UInt8} {settings : Settings} {c c' : Context} {log log' : Array Log.Entry}
  {trace : List (Use × Except Fault Answer)}

/-- After any uses a context has no violations, but for the one that the refusal of its document is. -/
theorem violations_of_uses (h : Context.Uses (.ofDocument document settings) trace c) :
    c.violations = [] ∧ (c.reading = none ∨ ∀ p, outcome document ≠ .error (.problem p)) ∨
      ∃ p, outcome document = .error (.problem p) ∧ c.reading = some ⟨none, [p.violation]⟩ ∧
        c.violations = [p.violation] := by
  obtain ⟨-, -, hreading⟩ := h.knows (Context.knows_ofDocument document settings)
  rw [Context.violations]
  rcases hreading with hnone | hsome
  · exact .inl ⟨by rw [hnone], .inl hnone⟩
  · rw [hsome]
    match houtcome : outcome document with
    | .ok d => exact .inl ⟨rfl, .inr (by simp)⟩
    | .error (.problem p) => exact .inr ⟨p, rfl, rfl, rfl⟩
    | .error (.badValue v) => exact .inl ⟨rfl, .inr (by simp)⟩
    | .error .wrongNode => exact .inl ⟨rfl, .inr (by simp)⟩
    | .error .unknownEncoding => exact .inl ⟨rfl, .inr (by simp)⟩

/-- A request of a document that is read or refused with a problem is answered from what remains of it. -/
theorem run_ask_of_isReported (hreport : IsReported document) (hc : c.Knows document settings) {α : Type}
    (request : Reading → Run α) (log : Array Log.Entry) :
    ∃ log₁, (c.ask request).run log =
      ((((request (.ofResult (outcome document))).run.run log₁).1, c.afterReading),
        ((request (.ofResult (outcome document))).run.run log₁).2) := by
  rcases run_ask hc request log with ⟨-, hask⟩ | ⟨-, f, log', hf, hbare, -⟩
  · exact hask
  · obtain ⟨p, rfl⟩ := hreport f hf
    exact absurd rfl (hbare p)

/-- Of a document that is read or refused with a problem a context gives the description, and then it has no violation,
or it gives none and has exactly the violation that the problem is. -/
theorem definition_or_violation (hreport : IsReported document)
    (h : Context.Uses (.ofDocument document settings) trace c) (log : Array Log.Entry) :
    ∃ c' log', ((∃ d, outcome document = .ok d ∧
        (c.use .definition).run log = ((.ok (.definition (some d)), c'), log') ∧ c'.violations = []) ∨
      ∃ p, outcome document = .error (.problem p) ∧
        (c.use .definition).run log = ((.ok (.definition none), c'), log') ∧ c'.violations = [p.violation]) := by
  have hc := h.knows (Context.knows_ofDocument document settings)
  obtain ⟨log₁, hask⟩ := run_ask_of_isReported hreport hc (Use.definition.request c.settings) log
  refine ⟨c.afterReading, log₁, ?_⟩
  have hviolations : c.afterReading.violations = (Reading.ofResult (outcome document)).violations := by
    rw [← hc.document_eq]
    rfl
  rw [hviolations]
  match houtcome : outcome document with
  | .ok d =>
    rw [houtcome] at hask
    exact .inl ⟨d, rfl, hask, rfl⟩
  | .error f =>
    obtain ⟨p, rfl⟩ := hreport f houtcome
    rw [houtcome] at hask
    exact .inr ⟨p, rfl, hask, rfl⟩

def otherDocument : List UInt8 :=
  "<a/>".toUTF8.toList

def problem? {α : Type} : Except Fault α → Option Problem
  | .error (.problem p) => some p
  | _ => none

theorem exists_problem {α : Type} {r : Except Fault α} (h : (problem? r).isSome) : ∃ p, r = .error (.problem p) := by
  rw [problem?.eq_def] at h
  split at h
  · exact ⟨_, rfl⟩
  · cases h

theorem outcome_otherDocument : ∃ p, outcome otherDocument = .error (.problem p) :=
  exists_problem (by decide +kernel)

/-- A context of the document of which a description has been asked, and which has been released since. -/
theorem uses_otherDocument : ∃ c, Context.Uses (.ofDocument otherDocument .standard)
    [(.definition, .ok (.definition none)), (.release, .ok .done)] c ∧ c.reading = none := by
  obtain ⟨p, hp⟩ := outcome_otherDocument
  obtain ⟨log, hask⟩ := run_ask_of_isReported (fun f hf => ⟨p, by cases hp.symm.trans hf; rfl⟩)
    (Context.knows_ofDocument otherDocument .standard) (Use.definition.request .standard) #[]
  rw [hp] at hask
  let c₁ := (Context.ofDocument otherDocument .standard).afterReading
  have hfirst : ((Context.ofDocument otherDocument .standard).use .definition).run #[] =
      ((.ok (.definition none), c₁), log) := hask
  have hlast : (c₁.use .release).run log = ((.ok .done, c₁.release), log) := rfl
  exact ⟨c₁.release, .concat (.concat (.nil _) hfirst) hlast, rfl⟩

/-- The document that is refused is refused again after the release, with its one violation. -/
theorem definition_or_violation_sample : ∃ (c c' : Context) (log' : Array Log.Entry) (p : Problem),
    Context.Uses (.ofDocument otherDocument .standard)
      [(.definition, .ok (.definition none)), (.release, .ok .done)] c ∧ c.violations = [] ∧
    (c.use .definition).run #[] = ((.ok (.definition none), c'), log') ∧ c'.violations = [p.violation] := by
  obtain ⟨c, huses, hnone⟩ := uses_otherDocument
  obtain ⟨p, hp⟩ := outcome_otherDocument
  have hreport : IsReported otherDocument := fun f hf => ⟨p, by cases hp.symm.trans hf; rfl⟩
  obtain ⟨c', log', hresult⟩ := definition_or_violation hreport huses #[]
  rcases hresult with ⟨d, hd, -⟩ | ⟨p', -, hask, hviolation⟩
  · cases hp.symm.trans hd
  · exact ⟨c, c', log', p', huses, by rw [Context.violations, hnone], hask, hviolation⟩

/-- A summary without errors is one of a document that has been read. -/
theorem outcome_of_summary (hreport : IsReported document)
    (h : Context.Uses (.ofDocument document settings) trace c) {service : Option QName} {port : Option String}
    {s : Summary} (hsummary : (c.use (.summary service port)).run log = ((.ok (.summary s), c'), log'))
    (hs : s.errors = []) : ∃ d, outcome document = .ok d := by
  have hc := h.knows (Context.knows_ofDocument document settings)
  obtain ⟨log₁, hask⟩ :=
    run_ask_of_isReported hreport hc ((Use.summary service port).request c.settings) log
  match houtcome : outcome document with
  | .ok d => exact ⟨d, rfl⟩
  | .error f =>
    obtain ⟨p, rfl⟩ := hreport f houtcome
    rw [houtcome] at hask
    cases hsummary.symm.trans hask
    cases hs

/-- A fault that is no problem stops the first request and is hidden from the second: its summary has no errors. -/
theorem summary_hides_fault {f : Fault} (houtcome : outcome document = .error f) (hbare : ∀ p, f ≠ .problem p)
    (settings : Settings) (service : Option QName) (port : Option String) (log : Array Log.Entry) :
    ∃ c log₁ s, ((Context.ofDocument document settings).use (.summary service port)).run log =
        ((.error f, c), log₁) ∧
      (c.use (.summary service port)).run log₁ = ((.ok (.summary s), c), log₁) ∧
      s.errors = [] ∧ c.violations = [] := by
  have hc := Context.knows_ofDocument document settings
  let request := (Use.summary service port).request settings
  rcases run_ask hc request log with ⟨hreport, -⟩ | ⟨-, g, log₁, hg, -, hfirst⟩
  · obtain ⟨p, rfl⟩ := hreport rfl f houtcome
    exact absurd rfl (hbare p)
  · cases houtcome.symm.trans hg
    -- what remains of the document has neither a description nor a violation
    have hnothing : Reading.ofResult (outcome document) = ⟨none, []⟩ := by
      rw [houtcome]
      cases f with
      | problem p => exact absurd rfl (hbare p)
      | badValue | wrongNode | unknownEncoding => rfl
    have hafter : (Context.ofDocument document settings).afterReading = ⟨document, settings, some ⟨none, []⟩⟩ := by
      rw [← hnothing]
      rfl
    rw [hafter] at hfirst
    exact ⟨_, log₁, _, hfirst, rfl, rfl, rfl⟩

end Violations

end PayloadSchema.Service
