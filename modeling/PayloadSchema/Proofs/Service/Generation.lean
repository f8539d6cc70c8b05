import PayloadSchema.Proofs.Payload.Refusals
import PayloadSchema.Proofs.Service.Contexts

/-!
# Summaries and operation schemas

What a summary says of a port is what the generation of its operation schemas goes by.  Both choose the service and the
port alike, and once the operations of the port are there, nothing that is met in their messages stops the generation.
-/

namespace PayloadSchema

open Wsdl Schema.Reader

/-! ## Descriptions that are read -/

theorem isRead_of_outcome {document : List UInt8} {d : Definition} (h : Service.outcome document = .ok d) :
    ∀ s ∈ d.schemas, Schema.IsRead s := by
  have hread : (Definition.ofBytes document).run.run #[] =
      (.ok d, (Definition.ofBytes document).result.2) := Prod.ext h rfl
  rw [Definition.ofBytes] at hread
  obtain ⟨root, log₁, -, hread⟩ := Run.run_bind_eq_ok.1 hread
  split at hread
  · rw [Definition.ofElement] at hread
    obtain ⟨schemas, log₂, hschemas, hread⟩ := Run.run_bind_eq_ok.1 hread
    obtain ⟨messages, log₃, -, hread⟩ := Run.run_bind_eq_ok.1 hread
    obtain ⟨portTypes, log₄, -, hread⟩ := Run.run_bind_eq_ok.1 hread
    obtain ⟨bindings, log₅, -, hread⟩ := Run.run_bind_eq_ok.1 hread
    obtain ⟨services, log₆, -, hread⟩ := Run.run_bind_eq_ok.1 hread
    cases hread
    intro s hs
    obtain ⟨e, -, log, log', hrun⟩ := Run.exists_of_mem_mapM hschemas s hs
    exact ⟨e, log, log', hrun⟩
  · cases hread

namespace Wsdl.Definition

section Operations

variable {d : Definition} {b : Binding} {declared : Table String AbstractOperation} {o : BoundOperation}
  {r : PortOperation} {q : QName} {name : String}

/-! ## Operations of a port -/

theorem schemas_of_boundMessage? {direction : Direction} {style : Style} {bound : Option BoundMessage}
    {message : Option QName} {m : Message} (h : d.boundMessage? q direction style bound message = .ok (some m)) :
    m.schemas = d.schemas := by
  unfold boundMessage? at h
  split at h
  · rename_i bound' message'
    match hmessage : d.boundMessage q direction style bound' message' with
    | .error p =>
      rw [hmessage] at h
      cases h
    | .ok m' =>
      rw [hmessage] at h
      cases h
      rw [boundMessage] at hmessage
      obtain ⟨_, -, hmessage⟩ := bind_eq_ok.1 hmessage
      obtain ⟨_, -, hmessage⟩ := bind_eq_ok.1 hmessage
      obtain ⟨_, -, hmessage⟩ := bind_eq_ok.1 hmessage
      cases hmessage
      rfl
  · cases h

/-- An operation of a port is one of its binding: it has its name and its style, and its messages come with the schemas
of the description. -/
structure Offers (d : Definition) (b : Binding) (o : BoundOperation) (r : PortOperation) : Prop where
  name : r.name = ⟨d.space, o.name⟩
  style : r.style = (o.style <|> b.style).getD .document
  schemas : ∀ m, r.input = some m ∨ r.output = some m → m.schemas = d.schemas

theorem offers_of_portOperation (h : d.portOperation b declared o = .ok r) : d.Offers b o r := by
  rw [portOperation] at h
  split at h
  · cases h
  · dsimp only at h
    obtain ⟨input, hinput, h⟩ := bind_eq_ok.1 h
    obtain ⟨output, houtput, h⟩ := bind_eq_ok.1 h
    cases h
    refine ⟨rfl, rfl, ?_⟩
    rintro m (hm | hm)
    · cases hm
      exact schemas_of_boundMessage? hinput
    · cases hm
      exact schemas_of_boundMessage? houtput

/-- Results that are given one after the other stand in the order of what they are given for. -/
theorem forall₂_of_mapM {ε α β : Type} {f : α → Except ε β} {l : List α} {bs : List β} (h : l.mapM f = .ok bs) :
    List.Forall₂ (fun a b => f a = .ok b) l bs := by
  induction l generalizing bs with
  | nil =>
    cases h
    exact .nil
  | cons a l ih =>
    rw [List.mapM_cons] at h
    obtain ⟨b, hfirst, h⟩ := bind_eq_ok.1 h
    obtain ⟨rest, hrest, h⟩ := bind_eq_ok.1 h
    cases h
    exact .cons hfirst (ih hrest)

theorem binding_of_port {p : Port} (h : d.port q name = .ok p) :
    p.name = name ∧ ∃ b, d.bindings.get? p.binding = some b ∧ b.isSoap = true := by
  rw [port] at h
  split at h
  · cases h
  · split at h
    · cases h
    · rename_i hfind
      cases h
      refine ⟨by simpa using List.find?_some hfind, ?_⟩
      have hsoap := (List.mem_filter.1 (List.mem_of_find?_eq_some hfind)).2
      obtain ⟨b, hb, hsoap⟩ := Option.any_eq_true _ _ |>.1 hsoap
      exact ⟨b, hb, hsoap⟩

theorem offers_of_portOperations {operations : List PortOperation}
    (h : d.portOperations q name = .ok operations) :
    ∃ p b, d.port q name = .ok p ∧ d.bindings.get? p.binding = some b ∧
      List.Forall₂ (d.Offers b) b.operations operations := by
  rw [portOperations] at h
  obtain ⟨p, hp, h⟩ := bind_eq_ok.1 h
  obtain ⟨-, b, hb, -⟩ := binding_of_port hp
  simp only [hb] at h
  split at h
  · cases h
  · exact ⟨p, b, hp, hb, (forall₂_of_mapM h).imp fun o r => offers_of_portOperation⟩

end Operations

end Wsdl.Definition

namespace Service

/-! ## Generation -/

section Generation

variable {settings : Settings} {document : List UInt8} {d : Definition} {r : Reading} {service : Option QName}
  {port : Option String}

/-- Whatever is met in a message is reported with it, if the prefix leaves no brace open. -/
theorem exists_messageSchema (hlabel : Xml.isUnclosed settings.schemaPrefix = false) (message : Option Message)
    (hread : ∀ m, message = some m → ∀ s ∈ m.schemas, Schema.IsRead s) (log : Array Log.Entry) :
    ∃ a log', (messageSchema settings message).run.run log = (.ok a, log') := by
  match message with
  | none => exact ⟨_, log, rfl⟩
  | some m =>
    rw [messageSchema, Run.run_tryCatch, Run.run_bind]
    match hrun : (Payload.synthesize settings m).run.run log with
    | (.ok text, log₁) => exact ⟨_, log₁, rfl⟩
    | (.error f, log₁) =>
      obtain ⟨p, rfl⟩ := Payload.problem_of_synthesize (hread m rfl) hlabel (congrArg Prod.fst hrun)
      exact ⟨_, _, rfl⟩

theorem exists_operationSchemas (hlabel : Xml.isUnclosed settings.schemaPrefix = false) {b : Binding}
    {o : BoundOperation} {bound : PortOperation} (ho : d.Offers b o bound)
    (hread : ∀ s ∈ d.schemas, Schema.IsRead s) (log : Array Log.Entry) :
    ∃ entry log', (operationSchemas settings bound).run.run log = (.ok entry, log') ∧
      entry.operation = ⟨d.space, o.name⟩ ∧ entry.style = (o.style <|> b.style).getD .document := by
  obtain ⟨⟨input, inputErrors⟩, log₁, hinput⟩ := exists_messageSchema hlabel bound.input
    (fun m hm s hs => hread s (ho.schemas m (.inl hm) ▸ hs)) log
  obtain ⟨⟨output, outputErrors⟩, log₂, houtput⟩ :=
    exists_messageSchema hlabel bound.output
      (fun m hm s hs => hread s (ho.schemas m (.inr hm) ▸ hs)) log₁
  refine ⟨⟨bound.name, bound.style, input, output, inputErrors ++ outputErrors⟩, log₂, ?_, ho.name, ho.style⟩
  rw [operationSchemas, Run.run_bind_of_ok hinput, Run.run_bind_of_ok houtput]
  rfl

/-- An entry that stands for an operation of a binding. -/
def IsEntryOf (d : Definition) (b : Binding) (o : BoundOperation) (entry : OperationSchemas) : Prop :=
  entry.operation = ⟨d.space, o.name⟩ ∧ entry.style = (o.style <|> b.style).getD .document

theorem exists_mapM_operationSchemas (hlabel : Xml.isUnclosed settings.schemaPrefix = false) {b : Binding}
    {bound : List BoundOperation} {operations : List PortOperation} (h : List.Forall₂ (d.Offers b) bound operations)
    (hread : ∀ s ∈ d.schemas, Schema.IsRead s) (log : Array Log.Entry) :
    ∃ entries log', (operations.mapM (operationSchemas settings)).run.run log = (.ok entries, log') ∧
      List.Forall₂ (IsEntryOf d b) bound entries := by
  induction h generalizing log with
  | nil => exact ⟨[], log, rfl, .nil⟩
  | cons ho _ ih =>
    obtain ⟨entry, log₁, hfirst, hentry⟩ := exists_operationSchemas hlabel ho hread log
    obtain ⟨entries, log₂, hrest, hentries⟩ := ih log₁
    refine ⟨entry :: entries, log₂, ?_, .cons hentry hentries⟩
    rw [List.mapM_cons, Run.run_bind_of_ok hfirst, Run.run_bind_of_ok hrest]
    rfl

/-- The service and the port that a request comes down to. -/
def Chooses (d : Definition) (service : Option QName) (port : Option String) (q : QName) (p : String) : Prop :=
  Reading.chosenService ⟨some d, []⟩ service = some q ∧ Reading.chosenPort ⟨some d, []⟩ (some q) port = some p

/-- The schemas of a port are generated if its operations are there, one entry for each operation of its binding, and
else the generation stops. -/
theorem run_generate (hlabel : Xml.isUnclosed settings.schemaPrefix = false) (hread : ∀ s ∈ d.schemas, Schema.IsRead s)
    (service : Option QName) (port : Option String) (log : Array Log.Entry) :
    (∃ q p operations, Chooses d service port q p ∧ d.portOperations q p = .ok operations ∧
      ∃ pt b entries log', d.port q p = .ok pt ∧ d.bindings.get? pt.binding = some b ∧
        (generate settings ⟨some d, []⟩ service port).run.run log = (.ok entries, log') ∧
        List.Forall₂ (IsEntryOf d b) b.operations entries) ∨
    (∀ q p operations, Chooses d service port q p → d.portOperations q p ≠ .ok operations) ∧
      ∃ f, (generate settings ⟨some d, []⟩ service port).run.run log = (.error f, log) := by
  rw [generate]
  dsimp only
  cases hservice : Reading.chosenService ⟨some d, []⟩ service with
  | none =>
    refine .inr ⟨fun q p operations hchoice => ?_, _, rfl⟩
    cases hservice.symm.trans hchoice.1
  | some q =>
    cases hport : Reading.chosenPort ⟨some d, []⟩ (some q) port with
    | none =>
      refine .inr ⟨fun q' p operations hchoice => ?_, _, by simp only [hport]; rfl⟩
      cases hservice.symm.trans hchoice.1
      cases hport.symm.trans hchoice.2
    | some p =>
      simp only [hport]
      cases hoperations : d.portOperations q p with
      | error problem =>
        refine .inr ⟨fun q' p' operations hchoice => ?_, _, rfl⟩
        cases hservice.symm.trans hchoice.1
        cases hport.symm.trans hchoice.2
        rw [hoperations]
        simp
      | ok operations =>
        obtain ⟨pt, b, hpt, hb, hoffers⟩ := Definition.offers_of_portOperations hoperations
        obtain ⟨entries, log', hrun, hentries⟩ :=
          exists_mapM_operationSchemas hlabel hoffers hread log
        exact .inl ⟨q, p, operations, ⟨hservice, hport⟩, hoperations, pt, b, entries, log', hpt, hb, hrun, hentries⟩

/-- A summary says which service and which port are chosen, and it has no errors as long as the operations of the
chosen port are there. -/
theorem run_summary (d : Definition) (service : Option QName) (port : Option String) (log : Array Log.Entry) :
    ∃ s log', (summary ⟨some d, []⟩ service port).run.run log = (.ok s, log') ∧
      s.defaultService = Reading.chosenService ⟨some d, []⟩ service ∧
      s.defaultPort = Reading.chosenPort ⟨some d, []⟩ s.defaultService port ∧
      (s.errors = [] ↔ ∀ q p, Chooses d service port q p → ∃ operations, d.portOperations q p = .ok operations) := by
  rw [summary]
  dsimp only
  match hservice : Reading.chosenService ⟨some d, []⟩ service with
  | none =>
    refine ⟨_, log, rfl, rfl, rfl, iff_of_true rfl fun q p hchoice => ?_⟩
    cases hservice.symm.trans hchoice.1
  | some q =>
    match hport : Reading.chosenPort ⟨some d, []⟩ (some q) port with
    | none =>
      refine ⟨_, log, rfl, rfl, hport.symm, iff_of_true rfl fun q' p hchoice => ?_⟩
      cases hservice.symm.trans hchoice.1
      cases hport.symm.trans hchoice.2
    | some p =>
      dsimp only
      rw [portDetails]
      match hoperations : d.portOperations q p with
      | .ok operations =>
        refine ⟨_, log, rfl, rfl, hport.symm, iff_of_true rfl fun q' p' hchoice => ?_⟩
        cases hservice.symm.trans hchoice.1
        cases hport.symm.trans hchoice.2
        exact ⟨operations, hoperations⟩
      | .error problem =>
        refine ⟨_, _, rfl, rfl, hport.symm, iff_of_false (by simp) fun hall => ?_⟩
        obtain ⟨operations, hok⟩ := hall q p ⟨hservice, hport⟩
        cases hoperations.symm.trans hok

theorem port_of_defaultPort {q : QName} {p : String} (h : Reading.defaultPort ⟨some d, []⟩ (some q) = some p) :
    ∃ pt, d.port q p = .ok pt ∧ pt.name = p := by
  rw [Reading.defaultPort] at h
  simp only [Option.bind_eq_bind, Option.bind_some] at h
  obtain ⟨s, hs, hport⟩ := Option.bind_eq_some_iff.1 h
  split at hport
  · rename_i pt honly
    cases hport
    refine ⟨pt, ?_, rfl⟩
    rw [Definition.port, hs]
    simp [honly]
  · cases hport

theorem summary_decides (hlabel : Xml.isUnclosed settings.schemaPrefix = false)
    (hread : ∀ s ∈ d.schemas, Schema.IsRead s) (service : Option QName) (port : Option String)
    (log log' : Array Log.Entry) :
    ∃ s logged, (summary ⟨some d, []⟩ service port).run.run log = (.ok s, logged) ∧
      ((∃ q p pt b entries logged', s.errors = [] ∧ s.defaultService = some q ∧ s.defaultPort = some p ∧
          d.port q p = .ok pt ∧ d.bindings.get? pt.binding = some b ∧
          (generate settings ⟨some d, []⟩ service port).run.run log' = (.ok entries, logged') ∧
          List.Forall₂ (IsEntryOf d b) b.operations entries) ∨
        ¬(s.errors = [] ∧ s.defaultService.isSome ∧ s.defaultPort.isSome) ∧
          ∃ f, (generate settings ⟨some d, []⟩ service port).run.run log' = (.error f, log')) ∧
      ∀ q p, port.filter (· ≠ "") = none → s.defaultService = some q → s.defaultPort = some p →
        ∃ pt, d.port q p = .ok pt ∧ pt.name = p := by
  obtain ⟨s, logged, hsummary, hservice, hport, herrors⟩ := run_summary d service port log
  have hchooses : ∀ q p, s.defaultService = some q → (Chooses d service port q p ↔ s.defaultPort = some p) := by
    intro q p hq
    rw [hport, hq, Chooses, ← hservice]
    exact ⟨And.right, fun hp => ⟨hq, hp⟩⟩
  refine ⟨s, logged, hsummary, ?_, fun q p hnone hq hp => ?_⟩
  · rcases run_generate hlabel hread service port log' with
      ⟨q, p, operations, hchoice, hoperations, pt, b, entries, logged', hpt, hb, hentries, hentry⟩ |
        ⟨hmissing, f, hfault⟩
    · have hq := hservice.trans hchoice.1
      have hp := (hchooses q p hq).1 hchoice
      refine .inl ⟨q, p, pt, b, entries, logged', herrors.2 fun q' p' hchoice' => ?_, hq, hp, hpt, hb, hentries, hentry⟩
      cases hchoice.1.symm.trans hchoice'.1
      cases hchoice.2.symm.trans hchoice'.2
      exact ⟨operations, hoperations⟩
    · refine .inr ⟨fun ⟨hnone, hq, hp⟩ => ?_, f, hfault⟩
      obtain ⟨q, hq⟩ := Option.isSome_iff_exists.1 hq
      obtain ⟨p, hp⟩ := Option.isSome_iff_exists.1 hp
      have hchoice := (hchooses q p hq).2 hp
      obtain ⟨operations, hoperations⟩ := herrors.1 hnone q p hchoice
      exact hmissing q p operations hchoice hoperations
  · rw [hport, hq, Reading.chosenPort, hnone] at hp
    exact port_of_defaultPort hp

/-- At any two moments of the uses of a document, under a prefix that leaves no brace open, what a summary says decides
what the generation of the schemas gives for the same service and port.  The schemas are generated exactly if the
summary has no errors and says both a service and a port; then there is one entry for each operation of the binding of
the port, in order.  A port that the summary says by default is a port of its service. -/
theorem generation_agrees_with_summary (hreport : IsReported document)
    (hlabel : Xml.isUnclosed settings.schemaPrefix = false)
    {trace trace' : List (Use × Except Fault Answer)} {c c' : Context}
    (h : Context.Uses (.ofDocument document settings) trace c)
    (h' : Context.Uses (.ofDocument document settings) trace' c') (service : Option QName) (port : Option String)
    (log log' : Array Log.Entry) :
    ∃ s, (∃ after logged, (c.use (.summary service port)).run log = ((.ok (.summary s), after), logged)) ∧
      ((∃ a after logged, (c'.use (.generate service port)).run log' = ((.ok a, after), logged)) ↔
        s.errors = [] ∧ s.defaultService.isSome ∧ s.defaultPort.isSome) ∧
      (∀ a after logged, (c'.use (.generate service port)).run log' = ((.ok a, after), logged) →
        ∃ entries d q p pt b, a = .schemas entries ∧ outcome document = .ok d ∧ s.defaultService = some q ∧
          s.defaultPort = some p ∧ d.port q p = .ok pt ∧ d.bindings.get? pt.binding = some b ∧
          List.Forall₂ (IsEntryOf d b) b.operations entries) ∧
      ∀ q p, port.filter (· ≠ "") = none → s.defaultService = some q → s.defaultPort = some p →
        ∃ d pt, outcome document = .ok d ∧ d.port q p = .ok pt ∧ pt.name = p := by
  have hknows := h.knows (Context.knows_ofDocument document settings)
  have hknows' := h'.knows (Context.knows_ofDocument document settings)
  obtain ⟨log₁, hsummary⟩ :=
    run_ask_of_isReported hreport hknows ((Use.summary service port).request c.settings) log
  obtain ⟨log₂, hgenerate⟩ :=
    run_ask_of_isReported hreport hknows' ((Use.generate service port).request c'.settings) log'
  match houtcome : outcome document with
  | .error f =>
    -- there is a violation in the summary, and nothing is generated
    obtain ⟨p, rfl⟩ := hreport f houtcome
    rw [houtcome] at hsummary hgenerate
    refine ⟨_, ⟨_, _, hsummary⟩, iff_of_false ?_ ?_, fun a after logged hrun => ?_, fun q p' _ hservice => ?_⟩
    · rintro ⟨a, after, logged, hrun⟩
      cases hrun.symm.trans hgenerate
    · rintro ⟨herrors, -⟩
      cases herrors
    · cases hrun.symm.trans hgenerate
    · cases hservice
  | .ok d =>
    rw [houtcome, Reading.ofResult] at hsummary hgenerate
    obtain ⟨s, log₃, hrun, hdecides, hdefault⟩ :=
      summary_decides (hknows'.settings_eq ▸ hlabel) (isRead_of_outcome houtcome) service port log₁ log₂
    have hsummarized : ((Use.summary service port).request c.settings ⟨some d, []⟩).run.run log₁ =
        (.ok (.summary s), log₃) := (Run.run_bind_of_ok hrun).trans rfl
    rw [hsummarized] at hsummary
    have hdefaults : ∀ q p, port.filter (· ≠ "") = none → s.defaultService = some q → s.defaultPort = some p →
        ∃ d' pt, Except.ok d = (.ok d' : Except Fault Definition) ∧ d'.port q p = .ok pt ∧ pt.name = p :=
      fun q p hnone hq hp => ⟨d, (hdefault q p hnone hq hp).imp fun _ hpt => ⟨rfl, hpt⟩⟩
    refine ⟨s, ⟨_, _, hsummary⟩, ?_⟩
    rcases hdecides with ⟨q, p, pt, b, entries, log₄, herrors, hq, hp, hpt, hb, hentries, hentry⟩ |
      ⟨hrefused, f, hfault⟩
    · have hgenerated : ((Use.generate service port).request c'.settings ⟨some d, []⟩).run.run log₂ =
          (.ok (.schemas entries), log₄) := (Run.run_bind_of_ok hentries).trans rfl
      rw [hgenerated] at hgenerate
      refine ⟨iff_of_true ⟨_, _, _, hgenerate⟩ ⟨herrors, by simp [hq], by simp [hp]⟩, fun a after logged hrun => ?_,
        hdefaults⟩
      cases hrun.symm.trans hgenerate
      exact ⟨entries, d, q, p, pt, b, rfl, rfl, hq, hp, hpt, hb, hentry⟩
    · have hstopped : ((Use.generate service port).request c'.settings ⟨some d, []⟩).run.run log₂ =
          (.error f, log₂) := Run.run_bind_of_error hfault
      rw [hstopped] at hgenerate
      refine ⟨iff_of_false (fun ⟨a, after, logged, hrun⟩ => ?_) hrefused, fun a after logged hrun => ?_, hdefaults⟩
      · cases hrun.symm.trans hgenerate
      · cases hrun.symm.trans hgenerate

def sampleDescription : List UInt8 :=
  ["<w:definitions xmlns:w='http://schemas.xmlsoap.org/wsdl/'", " xmlns:s='http://schemas.xmlsoap.org/wsdl/soap/'",
    " xmlns:x='http://www.w3.org/2001/XMLSchema'>",
    "<w:message name='I'><w:part name='a' type='x:int'/></w:message>",
    "<w:message name='O'><w:part name='b' type='x:date'/></w:message>",
    "<w:portType name='P'><w:operation name='o'>", "<w:input message='I'/><w:output message='O'/>",
    "</w:operation></w:portType>", "<w:binding name='B' type='P'><s:binding style='rpc'/>",
    "<w:operation name='o'><w:input/><w:output/></w:operation></w:binding>",
    "<w:service name='S'><w:port name='p' binding='B'/>", "</w:service></w:definitions>"].flatMap fun line =>
      line.toUTF8.toList

def sampleContext : Context :=
  .ofDocument sampleDescription .standard

theorem exists_sampleOperation : ∃ d o, outcome sampleDescription = .ok d ∧
    d.portOperations ⟨"", "S"⟩ "p" = .ok [o] ∧ o.input.isSome ∧ o.output.isSome := by
  have hsent : ((outcome sampleDescription).toOption.bind fun d => (d.portOperations ⟨"", "S"⟩ "p").toOption.map
      fun operations => operations.map fun o => (o.input.isSome, o.output.isSome)) = some [(true, true)] := by
    decide +kernel
  obtain ⟨d, hd, hsent⟩ := Option.bind_eq_some_iff.1 hsent
  obtain ⟨operations, hoperations, hsent⟩ := Option.map_eq_some_iff.1 hsent
  obtain ⟨o, rfl, ho⟩ := List.map_eq_singleton_iff.1 hsent
  exact ⟨d, o, Schema.Reader.eq_ok_of_toOption hd, Schema.Reader.eq_ok_of_toOption hoperations, Prod.mk.inj ho⟩

def Answer.summary? : Answer → Option Summary
  | .summary s => some s
  | _ => none

/-- The summary of the sample has no errors and says a service and a port, so its schemas are generated. -/
theorem generation_agrees_with_summary_sample :
    (∃ d o, outcome sampleDescription = .ok d ∧ d.portOperations ⟨"", "S"⟩ "p" = .ok [o] ∧ o.input.isSome ∧
      o.output.isSome) ∧
    ∃ a after logged, (sampleContext.use (.generate none none)).run #[] = ((.ok a, after), logged) := by
  have hcomplete : (((sampleContext.use (.summary none none)).run #[]).1.1.toOption.bind Answer.summary?).map
      (fun s => s.errors.isEmpty && s.defaultService.isSome && s.defaultPort.isSome) = some true := by
    decide +kernel
  have hreport : IsReported sampleDescription := by
    obtain ⟨d, o, houtcome, -⟩ := exists_sampleOperation
    intro f hf
    cases houtcome.symm.trans hf
  obtain ⟨s, ⟨after, logged, hsummary⟩, hagrees, -⟩ :=
    generation_agrees_with_summary hreport (by decide) (.nil sampleContext) (.nil sampleContext) none none #[] #[]
  rw [hsummary] at hcomplete
  have hcomplete := Option.some.inj hcomplete
  simp only [Bool.and_eq_true, List.isEmpty_iff] at hcomplete
  obtain ⟨⟨herrors, hservice⟩, hport⟩ := hcomplete
  exact ⟨exists_sampleOperation, hagrees.2 ⟨herrors, hservice, hport⟩⟩

end Generation

end Service

end PayloadSchema
