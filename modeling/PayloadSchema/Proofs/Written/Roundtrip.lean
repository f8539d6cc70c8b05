import PayloadSchema.Proofs.Extraction.PresentableTargets
import PayloadSchema.Proofs.Written.Prefixes
import PayloadSchema.Proofs.Xml.PrintedDocuments

/-!
# Written targets are read again

What an extraction leaves is written as a document, and what is read of the document is the same schema, but for names
that are missing and for particles beside a content model.  The text is then written again, unless a missing name and an
empty one fall together at the top.
-/

namespace PayloadSchema.Xml

/-! ## Characters of names -/

def nameRanges : List (Nat × Nat) :=
  baseRanges ++ ideographRanges ++ [(0xAA, 0xAA), (0xB5, 0xB5), (0xBA, 0xBA)] ++ combiningRanges ++ digitRanges ++
    extenderRanges

theorem inRanges_append {ranges ranges' : List (Nat × Nat)} {n : Nat} :
    inRanges (ranges ++ ranges') n = (inRanges ranges n || inRanges ranges' n) :=
  List.any_append

theorem NameRule.inRanges_of_isPart {rule : NameRule} {c : Char} (hascii : ¬ c.toNat < 0x80) (h : rule.isPart c) :
    inRanges nameRanges c.toNat := by
  rw [isPart, if_neg hascii, isStart, if_neg hascii] at h
  simp only [nameRanges, inRanges_append, Bool.or_eq_true, Bool.and_eq_true, beq_iff_eq] at h ⊢
  have hlatin : (c.toNat = 0xAA ∨ c.toNat = 0xB5) ∨ c.toNat = 0xBA →
      inRanges [(0xAA, 0xAA), (0xB5, 0xB5), (0xBA, 0xBA)] c.toNat := by
    rintro ((h | h) | h) <;> rw [h] <;> decide
  exact h.imp (Or.imp (Or.imp (Or.imp id fun hletter => hlatin hletter.2) id) id) id

/-- A number in one of some ranges is not between two bounds that none of them comes between. -/
theorem lt_or_lt_of_inRanges {ranges : List (Nat × Nat)} {n : Nat} (low high : Nat)
    (hapart : ranges.all fun r => high < r.1 || r.2 < low) (h : inRanges ranges n) : n < low ∨ high < n := by
  obtain ⟨r, hr, hin⟩ := List.any_eq_true.1 h
  have hr := List.all_eq_true.1 hapart r hr
  simp only [Bool.and_eq_true, Bool.or_eq_true, decide_eq_true_eq] at hin hr
  omega

theorem NameRule.solid_of_isPart {rule : NameRule} {c : Char} (h : rule.isPart c) :
    isChar c ∧ Text.isBlank c = false := by
  simp only [isChar, Text.isBlank, Bool.or_eq_true, Bool.or_eq_false_iff, Bool.and_eq_true, Bool.and_eq_false_iff,
    decide_eq_true_eq, decide_eq_false_iff_not, bne_iff_ne, beq_iff_eq, beq_eq_false_iff_ne]
  by_cases hascii : c.toNat < 0x80
  · have hrange : ((((0x41 ≤ c.toNat ∧ c.toNat ≤ 0x5A ∨ 0x61 ≤ c.toNat ∧ c.toNat ≤ 0x7A) ∨
        0x30 ≤ c.toNat ∧ c.toNat ≤ 0x39) ∨ c.toNat = 0x5F) ∨ c.toNat = 0x2D) ∨ c.toNat = 0x2E := by
      rw [isPart, if_pos hascii] at h
      unfold Char.isAlphanum Char.isAlpha Char.isUpper Char.isLower Char.isDigit at h
      simp only [Bool.or_eq_true, Bool.and_eq_true, decide_eq_true_eq, beq_iff_eq, UInt32.le_iff_toNat_le] at h
      exact h
    omega
  · have hname := inRanges_of_isPart hascii h
    -- The blanks and the two noncharacters beyond ASCII lie in five gaps between the ranges of names.
    have hlatin := lt_or_lt_of_inRanges 0x80 0xA0 (by decide +kernel) hname
    have hogham := lt_or_lt_of_inRanges 0x1680 0x1680 (by decide +kernel) hname
    have hspaces := lt_or_lt_of_inRanges 0x2000 0x205F (by decide +kernel) hname
    have hideographic := lt_or_lt_of_inRanges 0x3000 0x3000 (by decide +kernel) hname
    have hlast := lt_or_lt_of_inRanges 0xFFFE 0xFFFF (by decide +kernel) hname
    omega

theorem NameRule.isBare_of_isName {rule : NameRule} {name : String} (h : rule.isName name.toList) (rest : String) :
    IsBare (name ++ rest) := by
  rw [IsBare, String.toList_append]
  cases hname : name.toList with
  | nil =>
    rw [hname] at h
    cases h
  | cons c cs =>
    rw [hname, isName, Bool.and_eq_true] at h
    rintro ⟨⟩
    cases h.1

theorem IsPrefix.isBare {rule : NameRule} {label : String} (h : IsPrefix rule label) : IsBare label := by
  simpa using NameRule.isBare_of_isName h.name ""

end PayloadSchema.Xml

namespace PayloadSchema.Schema

/-! ## Documents -/

/-- A text that a document can hold. -/
abbrev IsXmlText (s : String) : Prop := Carried (fun c => Xml.isChar c) s

theorem usable_of_isPrefix {rule : Xml.NameRule} {label : String} (h : Xml.IsPrefix rule label) :
    Writer.Usable (fun c => Xml.isChar c) label where
  carried c hc := (Xml.NameRule.solid_of_isPart (Xml.NameRule.isPart_of_isName h.name c hc)).1
  colon := h.colon
  noBlank c hc := (Xml.NameRule.solid_of_isPart (Xml.NameRule.isPart_of_isName h.name c hc)).2
  printable := Xml.allowsPrintable_isChar

theorem Settled.reads {s : Schema} (h : s.Settled fun c => Xml.isChar c) (settings : Settings)
    (hlabel : Xml.IsPrefix ⟨false⟩ settings.schemaPrefix) :
    ∃ text, s.write settings = .ok text ∧
      (∀ log, (ofBytes text.toUTF8.toList).run.run log = (.ok s.asRead, log)) ∧
      (¬ (none ∈ s.elements.map (·.1) ∧ some "" ∈ s.elements.map (·.1)) →
        s.asRead.elements = s.elements.map (fun e => (some (e.1.getD ""), e.2.asRead)) ∧
        s.asRead.write settings = .ok text) := by
  obtain ⟨t, htree, hroot, hreads⟩ := h.rereads (usable_of_isPrefix hlabel)
  obtain ⟨e, he, hmirrors⟩ := Xml.ofBytes_print hroot hlabel (if settings.prettyPrint then some 0 else none)
  obtain ⟨htag, hread⟩ := hreads e hmirrors
  refine ⟨_, write_of_bare hlabel.isBare htree, fun log => ?_, fun hnames => ⟨h.elements_asRead hnames, ?_⟩⟩
  · rw [ofBytes, he]
    show (if e.tag = xsd "schema" then ofElement e else _).run.run log = _
    rw [if_pos htag, hread]
  · exact write_of_bare hlabel.isBare ((h.toTree_asRead hnames).trans htree)

end PayloadSchema.Schema

namespace PayloadSchema.Extraction

open Schema Payload

/-- What an extraction from a source that has been read leaves in an empty target, once its queue is empty and after
any marks, is written, and read again as the same schema.  Where no missing name stands beside an empty one at the top,
every element keeps its place, and the same text is written again. -/
theorem extraction_rereads {document : Xml.Element} {source : Schema} {log log' : Array Log.Entry}
    (hread : (ofElement document).run.run log = (.ok source, log')) (htexts : document.Carries fun c => Xml.isChar c)
    (hbounded : ∀ n ∈ source.nodes, ∀ o ∈ n.shape.occurs?, o.min.isSome) {space elementForm attributeForm : String}
    (hspace : IsXmlText space) (helement : IsXmlText elementForm) (hattribute : IsXmlText attributeForm) (limit : Nat)
    {calls : List Call} (hfrom : ∀ seed ∈ calls.flatMap Call.seeds, seed.IsFrom source)
    (hnames : ∀ seed ∈ calls.flatMap Call.seeds, ∀ name ∈ seed.name, IsXmlText name) {roots : List Place}
    {w : Workspace}
    (hrun : (Call.runAll (.between source (.empty space elementForm attributeForm) limit) calls).runIn
      (.ofForms space elementForm attributeForm) = (.ok roots, w)) (hitems : w.items = [])
    {rounds : List (Nat × List QName)} (hspaces : ∀ r ∈ rounds, ∀ q ∈ r.2, IsXmlText q.space) {w' : Workspace}
    (hmarks : (rounds.forM fun r => markAll r.1 [] r.2).runIn w = (.ok (), w')) (settings : Settings)
    (hlabel : Xml.IsPrefix ⟨false⟩ settings.schemaPrefix) :
    ∃ text, w'.schema.write settings = .ok text ∧
      (∀ log, (Schema.ofBytes text.toUTF8.toList).run.run log = (.ok w'.schema.asRead, log)) ∧
      (¬ (none ∈ w'.schema.elements.map (·.1) ∧ some "" ∈ w'.schema.elements.map (·.1)) →
        w'.schema.asRead.elements = w'.schema.elements.map (fun e => (some (e.1.getD ""), e.2.asRead)) ∧
        w'.schema.asRead.write settings = .ok text) :=
  (settled_schema Xml.allowsPrintable_isChar (wellRead_ofElement htexts hread) hbounded hspace helement hattribute hfrom
    hnames hspaces hrun hitems hmarks).reads settings hlabel

def markedSample : Except Fault Unit × Workspace :=
  ([(3, [⟨"urn:m", "a"⟩])].forM fun r => markAll r.1 [] r.2).runIn sampleRun.2

theorem bounded_sampleSchema : ∀ n ∈ sampleSchema.nodes, ∀ o ∈ n.shape.occurs?, o.min.isSome := by
  have hnodes : sampleSchema.nodes = [sampleElement, sampleType,
      ⟨.simpleRestriction (some (xsd "string")) none []⟩] := by
    simp [Schema.nodes, SchemaOf.roots, sampleSchema, SchemaOf.empty, Table.values, walk, Node.children, Node.shape,
      sampleElement, sampleType, Shape.children]
  rw [hnodes]
  simp [sampleElement, sampleType, Node.shape, Shape.occurs?, Occurs.once]

/-- The sample is written and read again. -/
theorem extraction_rereads_sample :
    markedSample.1.isOk ∧ ∃ text, markedSample.2.schema.write .standard = .ok text ∧
      (∀ log, (Schema.ofBytes text.toUTF8.toList).run.run log = (.ok markedSample.2.schema.asRead, log)) ∧
      markedSample.2.schema.asRead.write .standard = .ok text := by
  obtain ⟨hrun, hempty⟩ := sampleRun_eq
  have hok : markedSample.1.isOk := by decide +kernel
  have hmarked : markedSample = (.ok (), markedSample.2) := by
    generalize markedSample = run at hok
    obtain ⟨_ | _, w⟩ := run
    · cases hok
    · rfl
  have htexts : sampleDocument.Carries fun c => Xml.isChar c := by
    have hall : sampleDocument.preorder.all fun x => x.attributes.all fun a => isPrintableText a.2 := by decide +kernel
    intro x hx a ha
    exact Xml.allowsPrintable_isChar.carried (List.all_eq_true.1 (List.all_eq_true.1 hall x hx) a ha)
  have hkeys : ¬ (none ∈ markedSample.2.schema.elements.map (·.1) ∧
      some "" ∈ markedSample.2.schema.elements.map (·.1)) := by
    decide +kernel
  have hread : (ofElement sampleDocument).run.run #[] = (.ok sampleSchema, #[]) := rfl
  have hform : IsXmlText defaultForm := Xml.allowsPrintable_isChar.carried (by decide)
  have hempty' : IsXmlText "" := Xml.allowsPrintable_isChar.carried (by decide)
  have hname : IsXmlText "a" := Xml.allowsPrintable_isChar.carried (by decide)
  have hmark : IsXmlText "urn:m" := Xml.allowsPrintable_isChar.carried (by decide)
  obtain ⟨text, hwrite, hreads, hsame⟩ := extraction_rereads hread htexts bounded_sampleSchema hempty' hform hform 10
    (by simpa [Call.seeds] using sampleSeed_isFrom)
    (by simpa [Call.seeds, sampleSeed, Seed.name, sampleElement, Node.shape, Shape.component?] using hname) hrun hempty
    (by simpa using hmark) hmarked .standard ⟨by decide, by decide, by decide⟩
  exact ⟨hok, text, hwrite, hreads, (hsame hkeys).2⟩

/-! ## Names that fall together -/

/-- A document with an element without a name beside one whose name is empty. -/
def namelessDocument : Xml.Element :=
  sampleTag "schema" []
    [sampleTag "element" [("type", "xs:string")] [], sampleTag "element" [("name", ""), ("type", "xs:string")] []]

def namelessElement (name : Option String) : Node :=
  ⟨.element ⟨name, true⟩ ⟨some (xsd "string"), none, .once, false, false, none, none, none⟩ none⟩

/-- What is read of the document. -/
def namelessSchema : Schema :=
  { SchemaOf.empty "" defaultForm defaultForm with
    elements := [(none, namelessElement none), (some "", namelessElement (some ""))] }

/-- What comes of the two elements when both are asked for and the queue is drained. -/
def namelessRun : Except Fault (List Place) × Workspace :=
  (Call.runAll (.between namelessSchema (.empty "" defaultForm defaultForm) 10)
    [.extract (.element (namelessElement none) true), .extract (.element (namelessElement (some "")) true), .drain]).runIn
    (.ofForms "" defaultForm defaultForm)

def namelessTree (names : List String) : Xml.Tree :=
  Writer.tag "xs" "schema"
    [("xmlns:xs", xsdSpace), ("elementFormDefault", defaultForm), ("attributeFormDefault", defaultForm)]
    (names.map fun name => Writer.tag "xs" "element" [("name", name), ("type", "xs:string")] [])

theorem settled_namelessSchema : namelessSchema.Settled fun c => Xml.isChar c := by
  have hprintable := Xml.allowsPrintable_isChar
  have hform : IsXmlText defaultForm := hprintable.carried (by decide)
  have hempty : IsXmlText "" := hprintable.carried (by decide)
  have hstring : Spellable (fun c => Xml.isChar c) (xsd "string") :=
    spellable_xsd hprintable (by decide) (by decide)
  have hbuilt {name : Option String} (hname : ∀ t ∈ name, IsXmlText t) :
      (namelessElement name).Built (Shape.Settled fun c => Xml.isChar c) := by
    refine built_iff.2 ⟨⟨⟨rfl, by simp [Shape.kind, Kind.isType], by simp [Shape.typeNames, QName.isBuiltin, xsd]⟩,
      ⟨⟨⟨?_, by simpa [Shape.typeNames] using hstring, by simp [Shape.members], ?_, by simp [Shape.facet?]⟩, ?_⟩, rfl, rfl,
        rfl⟩⟩, by simp [Shape.parts]⟩
    · simpa [Shape.texts, ElementDecl.texts] using hname
    · rintro _ ⟨rfl⟩
      exact Occurs.short_once
    · rintro _ ⟨rfl⟩
      rfl
  refine ⟨?_, ?_, ?_, by decide, rfl, rfl, rfl, rfl, hempty, hform, hform⟩ <;>
    simp only [namelessSchema, List.forall_mem_cons]
  · exact ⟨rfl, rfl, by simp⟩
  · exact ⟨rfl, rfl, by simp⟩
  · exact ⟨hbuilt (by simp), hbuilt (by simpa using hempty), by simp⟩

/-- The name and the declaration of an element that has no type of its own. -/
def bareElement? : Node → Option (Component × ElementDecl)
  | ⟨.element c d none⟩ => some (c, d)
  | _ => none

theorem eq_of_bareElement? {n : Node} {c : Component} {d : ElementDecl} (h : bareElement? n = some (c, d)) :
    n = ⟨.element c d none⟩ := by
  unfold bareElement? at h
  split at h <;> cases h
  rfl

theorem elementDecl_namelessElement (name : Option String) : Writer.elementDecl "xs" (namelessElement name) =
    .ok (Writer.tag "xs" "element" [("name", name.getD ""), ("type", "xs:string")] []) := by
  rw [namelessElement, Writer.elementDecl, Writer.elementType]
  rfl

theorem toTree_nameless (names : List (Option String)) :
    toTree "xs" { SchemaOf.empty "" defaultForm defaultForm with
      elements := names.map fun name => (name, namelessElement name) } = .ok (namelessTree (names.map (·.getD ""))) := by
  have hdecls : (names.map namelessElement).mapM (Writer.elementDecl "xs") = .ok (names.map fun name =>
      Writer.tag "xs" "element" [("name", name.getD ""), ("type", "xs:string")] []) := by
    induction names with
    | nil => rfl
    | cons name names ih =>
      rw [List.map_cons, List.mapM_cons, elementDecl_namelessElement, ih]
      rfl
  have hvalues : (names.map fun name => (name, namelessElement name)).map Prod.snd = names.map namelessElement := by
    rw [List.map_map]
    rfl
  rw [toTree, Table.values, hvalues, hdecls, namelessTree, List.map_map]
  conv_rhs => rw [← List.append_nil (List.map _ names)]
  rfl

theorem schema_namelessRun : namelessRun.2.schema = namelessSchema := by
  have htarget : namelessRun.2.target =
      { SchemaOf.empty "" defaultForm defaultForm with elements := [(none, 0), (some "", 1)] } := by decide +kernel
  have hfirst : namelessRun.2.store.tree 0 = namelessElement none := eq_of_bareElement? (by decide +kernel)
  have hsecond : namelessRun.2.store.tree 1 = namelessElement (some "") := eq_of_bareElement? (by decide +kernel)
  rw [Workspace.schema, htarget, namelessSchema, ← hfirst, ← hsecond]
  rfl

/-- A missing name and an empty one are written alike.  So only one of the two elements is read again, and the text that
is written then is a different one. -/
theorem rereading_merges_nameless :
    (ofElement namelessDocument).run.run #[] = (.ok namelessSchema, #[]) ∧
    namelessRun.1.toOption = some [0, 1] ∧ namelessRun.2.items.length = 0 ∧
    namelessRun.2.schema.elements.map (·.1) = [none, some ""] ∧
    ∃ text s, namelessRun.2.schema.write .standard = .ok text ∧
      (Schema.ofBytes text.toUTF8.toList).run.run #[] = (.ok s, #[]) ∧ s.elements.map (·.1) = [some ""] ∧
      s.write .standard ≠ .ok text := by
  have hread : (ofElement namelessDocument).run.run #[] = (.ok namelessSchema, #[]) :=
    run_addConstructs (.cons (fun _ _ => rfl) <| .cons (fun _ _ => rfl) .nil : List.Forall₂ Reader.Enters
      namelessDocument.children (namelessSchema.elements.map (TableName.elements, ·))) _ _
  have hroots : namelessRun.1.toOption = some [0, 1] := by decide +kernel
  have hitems : namelessRun.2.items.length = 0 := by decide +kernel
  have htree : namelessSchema.toTree "xs" = .ok (namelessTree ["", ""]) := toTree_nameless [none, some ""]
  have htree' : namelessSchema.asRead.toTree "xs" = .ok (namelessTree [""]) := toTree_nameless [some ""]
  have hwrite : namelessSchema.write .standard = .ok ((namelessTree ["", ""]).print none) :=
    write_of_bare (by decide) htree
  have hwrite' : namelessSchema.asRead.write .standard = .ok ((namelessTree [""]).print none) :=
    write_of_bare (by decide) htree'
  have hdiffer : (namelessTree [""]).print none ≠ (namelessTree ["", ""]).print none := by decide +kernel
  obtain ⟨text, htext, hreads, -⟩ :=
    settled_namelessSchema.reads .standard ⟨by decide, by decide, by decide⟩
  obtain rfl : (namelessTree ["", ""]).print none = text := Except.ok.inj (hwrite.symm.trans htext)
  rw [schema_namelessRun]
  refine ⟨hread, hroots, hitems, rfl, _, namelessSchema.asRead, hwrite, hreads #[], by decide +kernel, fun hsame => ?_⟩
  exact hdiffer (Except.ok.inj (hwrite'.symm.trans hsame))

end PayloadSchema.Extraction
