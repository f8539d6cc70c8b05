import PayloadSchema.Proofs.Extraction.Circles

/-!
# Extraction is inlining

Whatever is asked for, in whatever order, and wherever the queue is drained in between: the elements that an
extraction makes are those that the inliner makes, each of its own seed and of nothing else, and a drain
fails exactly where the inliner does.
-/

namespace PayloadSchema.Extraction

open Schema Copying

/-- The elements that an extraction has made when its queue is empty are the inlined ones, whatever else was
asked for and wherever it was drained.  A drain that does not come to the limit fails where some seed that
was asked for before cannot be inlined, and nowhere else.  To ask for a component never fails, and the inliner
always comes to an end. -/
theorem extraction_refines_inlining {source target : Schema} (hread : IsRead source) (limit : Nat)
    {calls : List Call} (hseeds : ∀ seed ∈ calls.flatMap Call.seeds, seed.IsFrom source)
    {roots : List Place} {w : Workspace}
    (hrun : (Call.runAll (.between source target limit) calls).runIn (.ofSchema target) =
      (.ok roots, w)) :
    (w.items = [] → List.Forall₂
      (fun seed root => (seed.inline (.between source target limit)).Gives (w.store.tree root))
      (calls.flatMap Call.seeds) roots) ∧
    (∀ result w', (drain (.between source target limit)).runIn w = (result, w') →
      result ≠ .error (.problem (.workLimit limit)) →
      ((∃ f, result = .error f) ↔
        ∃ seed ∈ calls.flatMap Call.seeds, (seed.inline (.between source target limit)).Fails)) ∧
    ∀ seed : Seed, seed.IsFrom source →
      (∃ root w', (seed.register (.between source target limit)).runIn w = (.ok root, w')) ∧
        (seed.inline (.between source target limit)).Ends := by
  have hs : (Context.between source target limit).source.Proper := hread.proper
  have hname (seed : Seed) (hseed : seed ∈ calls.flatMap Call.seeds) : seed.HasName :=
    (hseeds seed hseed).hasName (c := .between source target limit)
  have htracks := (tracks_ofSchema (.between source target limit) target).calls
    hname hrun
  rw [List.nil_append, List.nil_append] at htracks
  refine ⟨htracks.trees, fun result w' hdrain hlimit => ?_, fun seed hseed => ?_⟩
  · cases result with
    | ok _ =>
      obtain ⟨htracks', hempty⟩ := htracks.drain hdrain
      have hgives := htracks'.represents.gives (htracks'.allComplete hempty)
      refine ⟨by rintro ⟨f, ⟨⟩⟩, ?_⟩
      rintro ⟨seed, hseed, hfails⟩
      obtain ⟨n, hn⟩ := hgives seed hseed
      exact absurd hn (hfails.not_gives n)
    | error f =>
      refine ⟨fun _ => ?_, fun _ => ⟨f, rfl⟩⟩
      obtain ⟨seed, hseed, hnot⟩ := htracks.drain_error hdrain fun hf => hlimit (congrArg _ hf)
      exact ⟨seed, hseed, (Seed.yields hs (hseeds seed hseed)).1.fails hnot⟩
  · obtain ⟨w', hregister, -⟩ := register_spec hs hseed w
    exact ⟨⟨w.store.size, w', hregister⟩, (Seed.yields hs hseed).1⟩

/-! ## Samples -/

abbrev sampleContext : Context := .between sampleSchema (.empty "" defaultForm defaultForm) 10

def sampleSeed : Seed := .element sampleElement true

theorem sampleSeed_isGlobal : sampleSeed.IsGlobal sampleSchema := by
  simp [sampleSeed, Seed.IsGlobal, sampleSchema, SchemaOf.empty, Table.values]

theorem sampleSeed_isFrom : sampleSeed.IsFrom sampleSchema :=
  sampleSeed_isGlobal.isFrom isRead_sampleSchema.proper

def sampleRun : Except Fault (List Place) × Workspace :=
  (Call.runAll sampleContext [.extract sampleSeed, .drain]).runIn
    (.ofSchema (.empty "" defaultForm defaultForm))

theorem sampleRun_eq : sampleRun = (.ok [0], sampleRun.2) ∧ sampleRun.2.items = [] := by
  have hroots : sampleRun.1.toOption = some [0] := by decide +kernel
  have hitems : sampleRun.2.items.length = 0 := by decide +kernel
  exact ⟨Reader.run_eq_ok hroots, List.eq_nil_of_length_eq_zero hitems⟩

/-- A schema with references, a group, a type that extends another one, and an element that contains itself. -/
def orderDocument : Xml.Element :=
  sampleTag "schema" [("targetNamespace", "urn:s")]
    [sampleTag "element" [("name", "order"), ("type", "Order")] [],
      sampleTag "element" [("name", "note"), ("type", "xs:string")] [],
      sampleTag "element" [("name", "loop")]
        [sampleTag "complexType" [] [sampleTag "sequence" [] [sampleTag "element" [("ref", "loop")] []]]],
      sampleTag "complexType" [("name", "Order")]
        [sampleTag "sequence" [] [sampleTag "element" [("ref", "note")] [], sampleTag "group" [("ref", "lines")] [],
          sampleTag "element" [("name", "entry"), ("type", "Entry")] [],
          sampleTag "element" [("name", "history")] [sampleTag "complexType" []
            [sampleTag "sequence" [] [sampleTag "element" [("ref", "note")] []]]]]],
      sampleTag "complexType" [("name", "Record")]
        [sampleTag "sequence" [] [sampleTag "element" [("name", "id"), ("type", "Code")] []]],
      sampleTag "complexType" [("name", "Entry")]
        [sampleTag "complexContent" [] [sampleTag "extension" [("base", "Record")]
          [sampleTag "sequence" [] [sampleTag "element" [("name", "line"), ("type", "xs:string")] []]]]],
      sampleTag "simpleType" [("name", "Code")] [sampleTag "restriction" [("base", "xs:string")] []],
      sampleTag "group" [("name", "lines")]
        [sampleTag "sequence" []
          [sampleTag "element" [("name", "line"), ("type", "Code"), ("maxOccurs", "unbounded")] []]]]

def plainElement (name : String) (topLevel : Bool) (type : Option QName) (own : Option Node) : Node :=
  ⟨.element ⟨some name, topLevel⟩ ⟨type, none, .once, false, false, none, none, none⟩ own⟩

def orderElement : Node := plainElement "order" true (some ⟨"urn:s", "Order"⟩) none

def noteElement : Node := plainElement "note" true (some (xsd "string")) none

def entryElement : Node := plainElement "entry" false (some ⟨"urn:s", "Entry"⟩) none

def referringType (q : QName) : Node :=
  ⟨.complexType ⟨none, false⟩ ⟨false, false⟩ [] none none
    (some ⟨.modelGroup .sequence .once [⟨.elementRef (some q) .once⟩]⟩)⟩

def loopElement : Node := plainElement "loop" true none (some (referringType ⟨"urn:s", "loop"⟩))

def orderParticle : Node :=
  ⟨.modelGroup .sequence .once
    [⟨.elementRef (some ⟨"urn:s", "note"⟩) .once⟩, ⟨.groupRef (some ⟨"urn:s", "lines"⟩) .once⟩, entryElement,
      plainElement "history" false none (some (referringType ⟨"urn:s", "note"⟩))]⟩

def orderType : Node :=
  ⟨.complexType ⟨some "Order", true⟩ ⟨false, false⟩ [] none none (some orderParticle)⟩

def codeType : Node := ⟨.simpleType ⟨some "Code", true⟩ (some ⟨.simpleRestriction (some (xsd "string")) none []⟩)⟩

def orderSchema : Schema :=
  { SchemaOf.empty "urn:s" defaultForm defaultForm with
    elements := [(some "order", orderElement), (some "note", noteElement), (some "loop", loopElement)]
    types :=
      [(some "Order", orderType),
      (some "Record", ⟨.complexType ⟨some "Record", true⟩ ⟨false, false⟩ [] none none
        (some ⟨.modelGroup .sequence .once [plainElement "id" false (some ⟨"urn:s", "Code"⟩) none]⟩)⟩),
      (some "Entry", ⟨.complexType ⟨some "Entry", true⟩ ⟨false, false⟩ [] none
        (some ⟨.complexContent none (some ⟨.complexDerivation .extension (some ⟨"urn:s", "Record"⟩)
          (some ⟨.modelGroup .sequence .once [plainElement "line" false (some (xsd "string")) none]⟩) [] none⟩)⟩)
        none⟩),
      (some "Code", codeType)]
    groups :=
      [(some "lines", ⟨.group ⟨some "lines", true⟩ (some ⟨.modelGroup .sequence .once
        [⟨.element ⟨some "line", false⟩ ⟨some ⟨"urn:s", "Code"⟩, none, ⟨some 1, none⟩, false, false, none, none, none⟩
          none⟩]⟩)⟩)] }

theorem isRead_orderSchema : IsRead orderSchema := by
  have henters : List.Forall₂ Reader.Enters orderDocument.children (orderSchema.elements.map (TableName.elements, ·) ++
      orderSchema.types.map (TableName.types, ·) ++ orderSchema.groups.map (TableName.groups, ·)) :=
    .cons (fun _ _ => rfl) <| .cons (fun _ _ => rfl) <| .cons (fun _ _ => rfl) <| .cons (fun _ _ => rfl) <|
      .cons (fun _ _ => rfl) <| .cons (fun _ _ => rfl) <| .cons (fun _ _ => rfl) <| .cons (fun _ _ => rfl) .nil
  exact ⟨orderDocument, #[], #[], run_addConstructs henters _ _⟩

/-- The elements and the type that are asked for, the last element from inside of a type. -/
def orderSeeds : List Seed :=
  [.element orderElement true, .element noteElement true, .type (some "code") codeType true,
    .element entryElement false]

theorem orderSeeds_isFrom : ∀ seed ∈ orderSeeds, seed.IsFrom orderSchema := by
  have hentry (table : TableName) {e : Option String × Node} (he : e ∈ orderSchema.table table) :
      Contains orderSchema e.2 := .entry table he
  have htype : Contains orderSchema orderType :=
    hentry .types (e := (some "Order", orderType)) (by simp [orderSchema, SchemaOf.table])
  have hparticle : Contains orderSchema orderParticle :=
    htype.child (by simp [orderType, Node.children, Node.shape, Shape.children])
  simp only [orderSeeds, List.forall_mem_cons]
  refine ⟨⟨hentry .elements (e := (some "order", orderElement)) ?_, rfl⟩,
    ⟨hentry .elements (e := (some "note", noteElement)) ?_, rfl⟩,
    ⟨hentry .types (e := (some "Code", codeType)) ?_, rfl⟩, ⟨hparticle.child ?_, rfl⟩, by simp⟩
  · simp [orderSchema, SchemaOf.table]
  · simp [orderSchema, SchemaOf.table]
  · simp [orderSchema, SchemaOf.table]
  · simp [orderParticle, Node.children, Node.shape, Shape.children]

abbrev orderContext : Context := .between orderSchema (.empty "urn:s" defaultForm defaultForm) 60

def orderCalls : List Call :=
  [.extract (.element orderElement true), .extract (.element noteElement true), .drain,
    .extract (.type (some "code") codeType true), .extract (.element entryElement false), .drain]

theorem orderCalls_isFrom : ∀ seed ∈ orderCalls.flatMap Call.seeds, seed.IsFrom orderSchema :=
  orderSeeds_isFrom

def orderRun : Except Fault (List Place) × Workspace :=
  (Call.runAll orderContext orderCalls).runIn (.ofSchema (.empty "urn:s" defaultForm defaultForm))

theorem orderRun_eq : orderRun = (.ok [0, 1, 24, 26], orderRun.2) ∧ orderRun.2.items = [] := by
  have hroots : orderRun.1.toOption = some [0, 1, 24, 26] := by decide +kernel
  have hitems : orderRun.2.items.length = 0 := by decide +kernel
  exact ⟨Reader.run_eq_ok hroots, List.eq_nil_of_length_eq_zero hitems⟩

/-- All four elements that are asked for are inlined. -/
theorem extraction_refines_inlining_sample :
    orderRun.2.items = [] ∧ List.Forall₂
      (fun seed root => (seed.inline orderContext).Gives (orderRun.2.store.tree root)) orderSeeds [0, 1, 24, 26] := by
  obtain ⟨hrun, hempty⟩ := orderRun_eq
  exact ⟨hempty, (extraction_refines_inlining isRead_orderSchema 60 orderCalls_isFrom hrun).1 hempty⟩

end PayloadSchema.Extraction
