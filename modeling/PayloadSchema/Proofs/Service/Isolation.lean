import PayloadSchema.Proofs.Payload.Shape
import PayloadSchema.Proofs.Service.Generation

/-!
# Operations side by side

What is generated for an operation of a binding is a matter of the operation alone, as long as the port type and the
messages of all operations of the binding are there: they are looked up before anything is generated.  The first
operation for which they are not there ends the generation, and the other operations have no entries either.
-/

namespace PayloadSchema

open Run Wsdl

/-! ## Messages -/

theorem Payload.steady_synthesize (settings : Settings) (m : Message) : Steady (synthesize settings m) := by
  intro log
  have hresult : (synthesize settings m).result = (synthesize settings m).run.run #[] := rfl
  rw [hresult, run_synthesize, run_synthesize]
  match m.source with
  | .error p => simp
  | .ok source =>
    by_cases huse : m.use = .encoded
    · simp [huse]
    · simp [huse]

namespace Service

variable {settings : Settings} {d : Definition} {b : Binding} {declared : Table String AbstractOperation}
  {service : Option QName} {port : Option String}

theorem steady_messageSchema (settings : Settings) (message : Option Message) :
    Steady (messageSchema settings message) := by
  match message with
  | none => exact steady_pure _
  | some m =>
    refine Steady.tryCatch ((Payload.steady_synthesize settings m).bind fun text => steady_pure _) fun f => ?_
    cases f with
    | problem p => exact (steady_report _ _).bind fun _ => steady_pure _
    | _ => exact steady_throw _

theorem steady_operationSchemas (settings : Settings) (o : PortOperation) : Steady (operationSchemas settings o) :=
  (steady_messageSchema settings o.input).bind fun _ =>
    (steady_messageSchema settings o.output).bind fun _ => steady_pure _

/-! ## Operations -/

/-- What an operation of a binding comes to by itself. -/
def ownSchemas (settings : Settings) (d : Definition) (b : Binding) (declared : Table String AbstractOperation)
    (o : BoundOperation) : Except Fault OperationSchemas := do
  let operation ← (d.portOperation b declared o).mapError Fault.problem
  (operationSchemas settings operation).result.1

theorem forall₂_ownSchemas {bound : List BoundOperation} {operations : List PortOperation}
    {entries : List OperationSchemas}
    (hbound : List.Forall₂ (fun o r => d.portOperation b declared o = .ok r) bound operations)
    (hentries : List.Forall₂ (fun r entry => (operationSchemas settings r).result.1 = .ok entry) operations entries) :
    List.Forall₂ (fun o entry => ownSchemas settings d b declared o = .ok entry) bound entries := by
  induction hbound generalizing entries with
  | nil =>
    cases hentries
    exact .nil
  | cons ho _ ih =>
    obtain ⟨entry, rest, hentry, hrest, rfl⟩ := List.forall₂_cons_left_iff.1 hentries
    refine .cons ?_ (ih hrest)
    rw [ownSchemas, ho]
    exact hentry

theorem exists_of_mapM_eq_error {ε α β : Type} {f : α → Except ε β} {l : List α} {e : ε} (h : l.mapM f = .error e) :
    ∃ before a after, l = before ++ a :: after ∧ f a = .error e ∧ ∀ a' ∈ before, ∃ r, f a' = .ok r := by
  induction l with
  | nil => cases h
  | cons a l ih =>
    rw [List.mapM_cons] at h
    cases hfirst : f a with
    | error e' =>
      rw [hfirst] at h
      cases h
      exact ⟨[], a, l, rfl, hfirst, by simp⟩
    | ok r =>
      rw [hfirst] at h
      cases hrest : l.mapM f with
      | ok bs =>
        rw [hrest] at h
        cases h
      | error e' =>
        rw [hrest] at h
        cases h
        obtain ⟨before, a', after, rfl, hfails, hbefore⟩ := ih hrest
        refine ⟨a :: before, a', after, rfl, hfails, ?_⟩
        simp only [List.forall_mem_cons]
        exact ⟨⟨r, hfirst⟩, hbefore⟩

theorem portOperations_eq {q : QName} {p : String} {pt : Port} (hpt : d.port q p = .ok pt)
    (hb : d.bindings.get? pt.binding = some b) (hdeclared : d.portTypes.get? b.portType = some declared) :
    d.portOperations q p = b.operations.mapM (d.portOperation b declared) := by
  rw [Definition.portOperations, hpt]
  simp only [bind, Except.bind, hb, hdeclared]

/-- The schemas of a port are generated in one of two ways.  Either the port type has all operations of the binding,
with their messages and parts, and each of them has the entry that it has by itself.  Or there is no entry at all,
because of the first operation that cannot be looked up. -/
theorem generate_isolates (hlabel : Xml.isUnclosed settings.schemaPrefix = false)
    (hread : ∀ s ∈ d.schemas, Schema.IsRead s) {q : QName} {p : String}
    (hchoice : Chooses d service port q p) {pt : Port} (hpt : d.port q p = .ok pt)
    (hb : d.bindings.get? pt.binding = some b) (hdeclared : d.portTypes.get? b.portType = some declared)
    (log : Array Log.Entry) :
    (∃ entries log', (generate settings ⟨some d, []⟩ service port).run.run log = (.ok entries, log') ∧
      List.Forall₂ (fun o entry => ownSchemas settings d b declared o = .ok entry) b.operations entries) ∨
    ∃ before o after problem, b.operations = before ++ o :: after ∧
      (∀ o' ∈ before, ∃ entry, ownSchemas settings d b declared o' = .ok entry) ∧
      d.portOperation b declared o = .error problem ∧
      (generate settings ⟨some d, []⟩ service port).run.run log = (.error (.problem problem), log) := by
  have hgenerate : generate settings ⟨some d, []⟩ service port =
      Run.ofExcept ((d.portOperations q p).mapError .problem) >>= (·.mapM (operationSchemas settings)) := by
    rw [generate]
    simp only [hchoice.1, hchoice.2]
  rw [hgenerate, portOperations_eq hpt hb hdeclared]
  cases hoperations : b.operations.mapM (d.portOperation b declared) with
  | error problem =>
    obtain ⟨before, o, after, hsplit, hfails, hbefore⟩ := exists_of_mapM_eq_error hoperations
    refine .inr ⟨before, o, after, problem, hsplit, fun o' ho' => ?_, hfails, rfl⟩
    obtain ⟨operation, hoperation⟩ := hbefore o' ho'
    obtain ⟨entry, log', hrun, -⟩ :=
      exists_operationSchemas hlabel (Definition.offers_of_portOperation hoperation) hread #[]
    exact ⟨entry, by rw [ownSchemas, hoperation]; exact congrArg Prod.fst hrun⟩
  | ok operations =>
    have hbound := Definition.forall₂_of_mapM hoperations
    obtain ⟨entries, log', hrun, -⟩ := exists_mapM_operationSchemas hlabel
      (hbound.imp fun _ _ => Definition.offers_of_portOperation) hread log
    have hentries := forall₂_of_mapM (steady_operationSchemas settings) hrun
    exact .inl ⟨entries, log', hrun, forall₂_ownSchemas hbound hentries⟩

def sampleOperations : Table String AbstractOperation :=
  [("o", ⟨"o", some ⟨"urn:w", "M"⟩, none⟩), ("q", ⟨"q", some ⟨"urn:w", "M"⟩, none⟩)]

def literalOperation : BoundOperation :=
  ⟨"o", none, some ⟨.standard, []⟩, none⟩

def encodedOperation : BoundOperation :=
  ⟨"q", none, some ⟨⟨.encoded, none, none⟩, []⟩, none⟩

def sampleBinding : Binding :=
  ⟨⟨"urn:w", "B"⟩, ⟨"urn:w", "P"⟩, some "http://schemas.xmlsoap.org/wsdl/soap/", some .rpc,
    [literalOperation, encodedOperation]⟩

def samplePort : Port :=
  ⟨"p", sampleBinding.name, none⟩

def sampleDefinition : Definition where
  name := none
  space := "urn:w"
  documentation := none
  schemas := [Schema.sampleSchema]
  messages := [(⟨"urn:w", "M"⟩, ⟨⟨"urn:w", "M"⟩, [⟨"x", none, some ⟨"urn:s", "T"⟩⟩]⟩)]
  portTypes := [(⟨"urn:w", "P"⟩, sampleOperations)]
  bindings := [(⟨"urn:w", "B"⟩, sampleBinding)]
  services := [(⟨"urn:w", "S"⟩, ⟨⟨"urn:w", "S"⟩, [samplePort]⟩)]

/-- Both operations have their entries, and what is wrong with the second one is in its own. -/
theorem generate_isolates_sample : ∃ first second log',
    (generate .standard ⟨some sampleDefinition, []⟩ (some ⟨"urn:w", "S"⟩) (some "p")).run.run #[] =
      (.ok [first, second], log') ∧
    ownSchemas .standard sampleDefinition sampleBinding sampleOperations literalOperation = .ok first ∧
    ownSchemas .standard sampleDefinition sampleBinding sampleOperations encodedOperation = .ok second ∧
    second.errors.length = 1 := by
  have hlabel : Xml.isUnclosed Settings.standard.schemaPrefix = false := by decide
  have hread : ∀ s ∈ sampleDefinition.schemas, Schema.IsRead s := by
    simpa [sampleDefinition] using Schema.isRead_sampleSchema
  have hchoice : Chooses sampleDefinition (some ⟨"urn:w", "S"⟩) (some "p") ⟨"urn:w", "S"⟩ "p" := ⟨by decide, by decide⟩
  have hpt : sampleDefinition.port ⟨"urn:w", "S"⟩ "p" = .ok samplePort := rfl
  have hb : sampleDefinition.bindings.get? samplePort.binding = some sampleBinding := rfl
  have hdeclared : sampleDefinition.portTypes.get? sampleBinding.portType = some sampleOperations := rfl
  have hlookup : ∀ o ∈ sampleBinding.operations,
      (sampleDefinition.portOperation sampleBinding sampleOperations o).toOption.isSome := by decide +kernel
  have hcount : (ownSchemas .standard sampleDefinition sampleBinding sampleOperations encodedOperation).toOption.map
      (·.errors.length) = some 1 := by decide +kernel
  rcases generate_isolates hlabel hread hchoice hpt hb hdeclared #[] with
    ⟨entries, log', hrun, hentries⟩ | ⟨before, o, after, problem, hsplit, -, hfails, -⟩
  · obtain ⟨first, rest, hfirst, hrest, rfl⟩ := List.forall₂_cons_left_iff.1 hentries
    obtain ⟨second, rest, hsecond, hnone, rfl⟩ := List.forall₂_cons_left_iff.1 hrest
    cases hnone
    rw [hsecond] at hcount
    exact ⟨first, second, log', hrun, hfirst, hsecond, Option.some.inj hcount⟩
  · have hsome := hlookup o (by rw [hsplit]; simp)
    rw [hfails] at hsome
    cases hsome

end Service

end PayloadSchema
