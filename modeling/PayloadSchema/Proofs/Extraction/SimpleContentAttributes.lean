import PayloadSchema.Proofs.Extraction.AcceptedDocuments
import PayloadSchema.Proofs.Inlining.SimpleContent
import PayloadSchema.Proofs.Log.Reports

/-!
# Extraction keeps attributes of simple content

The copy of a type with simple content has no base to inherit from.  The copy of an extension declares what the
extension inherits, and the copy of a restriction what the restriction declares.
-/

namespace PayloadSchema.Extraction

open Schema Copying

/-! ## Names of copies -/

/-- A target in which local names of attributes are in the namespace in which they are in the source. -/
structure Context.Matches (c : Context) (t : Schema) : Prop where
  space : t.space = c.source.space
  attributeForm : t.attributeForm = c.source.attributeForm
  stated : c.attributeForm = t.attributeForm

section Names

variable {c : Context} {path : List ComponentKey} {t : Schema} {n m : Node} {co : Component} {d : AttributeDecl}
  {own : Option Node} {r : Shape Node} {ref : Option QName}

theorem exists_of_attribute (h : n.IsAttribute) :
    (∃ co d own, n = ⟨.attribute co d own⟩) ∨ ∃ ref usage, n = ⟨.attributeRef ref usage⟩ := by
  have hadmits := h.admits
  have hsingle := h.single
  obtain ⟨shape⟩ := n
  cases shape with
  | «attribute» co d own => exact .inl ⟨co, d, own, rfl⟩
  | attributeRef ref usage => exact .inr ⟨ref, usage, rfl⟩
  | attributeGroupRef => exact absurd rfl hsingle
  | modelGroup order _ _ => cases order <;> cases hadmits
  | complexDerivation how _ _ _ _ => cases how <;> cases hadmits
  | _ => cases hadmits

theorem declaredName?_typeEdits {simpleOnly : Bool} {q : Option QName} {type : Option Node}
    (h : (inlineEdits c path (typeEdits c.source simpleOnly q type) (.attribute co d own)).Gives r) :
    r.declaredName? t = (Shape.attribute co d own).declaredName? t := by
  obtain ⟨q', rfl⟩ | ⟨m, rfl⟩ := typeEdits_cases h <;> rfl

theorem declaredName?_referenceEdits (hs : c.source.Proper) (hc : c.Matches t) (hform : d.form = none)
    (h : (inlineEdits c path (referenceEdits c.source .attributes .attribute c.attributeForm ref)
      (.attribute co d own)).Gives r) : r.declaredName? t = ref := by
  obtain ⟨m, hfind⟩ := exists_of_gives_reference h
  cases ref with
  | none => cases hfind
  | some q =>
    obtain ⟨hspace, hentry⟩ := hs.find hfind
    obtain ⟨co', d', own', rfl⟩ := hentry.attribute
    obtain rfl : co' = ⟨some q.name, true⟩ := Option.some.inj hentry.component
    have hname {d : AttributeDecl} (hqualified : d.form.getD t.attributeForm = qualified) :
        (Shape.attribute ⟨some q.name, co.topLevel⟩ d own).declaredName? t = some q := by
      rw [Shape.declaredName?, if_pos hqualified, hc.space, ← hspace]
      rfl
    obtain ⟨inside, -, -, hnode⟩ := gives_reference hfind rfl h
    by_cases hdefault : c.attributeForm = qualified
    · rw [if_pos hdefault] at hnode
      rw [declaredName?_typeEdits hnode]
      exact hname (by simp [hform, ← hc.stated, hdefault])
    · rw [if_neg hdefault] at hnode
      rw [declaredName?_typeEdits hnode]
      exact hname rfl

theorem declaredName?_copy (hs : c.source.Proper) (hc : c.Matches t) (hn : n.IsAttribute) (h : IsCopy c n m) :
    m.shape.declaredName? t = n.shape.declaredName? c.source := by
  obtain ⟨path, child, horigin, hcopy⟩ := h
  obtain ⟨start, hstart, inside, -, r, hr, rfl⟩ := gives_child.1 hcopy
  obtain ⟨shape, hshape, hbounds⟩ := Reader.bind_eq_ok.1 hstart
  rw [horigin] at hshape hr
  rcases exists_of_attribute hn with ⟨co, d, own, rfl⟩ | ⟨ref, usage, rfl⟩
  · cases hshape
    obtain rfl : Shape.attribute ⟨co.name, false⟩ ⟨none, d.usage, d.form⟩ none = start := by
      split at hbounds <;> cases hbounds <;> rfl
    rw [Node.shape, declaredName?_typeEdits hr]
    simp [Node.shape, Shape.declaredName?, hc.space, hc.attributeForm]
  · cases hshape
    obtain rfl : Shape.attribute ⟨none, false⟩ ⟨none, usage, none⟩ none = start := by
      split at hbounds <;> cases hbounds <;> rfl
    exact declaredName?_referenceEdits hs hc rfl hr

theorem declaredNames_copies (hs : c.source.Proper) (hc : c.Matches t) {members copies : List Node}
    (hmembers : ∀ n ∈ members, n.IsAttribute) (h : List.Forall₂ (IsCopy c) members copies) :
    declaredNames t copies = declaredNames c.source members := by
  induction h with
  | nil => rfl
  | cons hcopy _ ih =>
    rw [List.forall_mem_cons] at hmembers
    have hfirst := declaredName?_copy hs hc hmembers.1 hcopy
    have hothers := ih hmembers.2
    simp only [declaredNames, List.map_cons, hfirst] at hothers ⊢
    rw [hothers]

end Names

/-! ## Types with simple content -/

/-- The extraction of a type with simple content gives an element with a copy of the type that is derived as the type
is.  The copy declares the attributes that the type takes, each once: those that an extension has in effect, where
every restriction on the chain of its bases leaves what it inherits as it is, and those that a restriction declares.
In a target with the namespace and the default form of attributes of the source they have the same names. -/
theorem extraction_keeps_attributes {source target : Schema} (hread : IsRead source)
    (hdistinct : DistinctAttributes source) (limit : Nat) {calls : List Call}
    (hglobal : ∀ seed ∈ calls.flatMap Call.seeds, seed.IsGlobal source) {roots : List Place} {w : Workspace}
    (hrun : (Call.runAll (.between source target limit) calls).runIn (.ofSchema target) = (.ok roots, w))
    (hitems : w.items = []) :
    List.Forall₂ (fun seed root => ∀ name t top d, seed = .type name t top → t.simpleDerivation? = some d →
      (d.how = .extension → KeepsInherited source d.base) →
      ∃ copy d' attributes, (w.store.tree root).shape.ownType? = some (some copy) ∧
        copy.simpleDerivation? = some d' ∧ d'.how = d.how ∧ d.Taken source attributes ∧
        (declaredNames source attributes).Nodup ∧
        (∃ order, order.Perm attributes ∧
          List.Forall₂ (IsCopy (.between source target limit)) order d'.declared) ∧
        (target.space = source.space → target.attributeForm = source.attributeForm →
          (declaredNames w.schema d'.declared).Perm (declaredNames source attributes) ∧
            (declaredNames w.schema d'.declared).Nodup))
      (calls.flatMap Call.seeds) roots := by
  have hs : (Context.between source target limit).source.Proper := hread.proper
  have hfrom (seed : Seed) (hseed : seed ∈ calls.flatMap Call.seeds) :
      seed.IsFrom (Context.between source target limit).source := (hglobal seed hseed).isFrom hs
  have hforms := (sameForms_ofSchema target).trans
    (sameForms_runAll hs hfrom (traced_ofSchema source target) hrun)
  have htracks := (tracks_ofSchema (.between source target limit) target).calls
    (fun seed hseed => (hfrom seed hseed).hasName) hrun
  rw [List.nil_append, List.nil_append] at htracks
  refine List.forall₂_iff_zip.2 ⟨htracks.represents.roots.length_eq, fun hmem name t top d hseed hd hkeeps => ?_⟩
  have hgives := (List.forall₂_iff_zip.1 (htracks.trees hitems)).2 hmem
  have ht : t ∈ source.types.values := by
    have hseed' := hglobal _ (List.of_mem_zip hmem).1
    rwa [hseed] at hseed'
  obtain ⟨e, he, rfl⟩ := List.mem_map.1 ht
  have hproper : e.2.Proper := (hs.entry .types e he).proper
  rw [hseed] at hgives
  obtain ⟨r, hr, htree⟩ := gives_bind.1 hgives
  obtain ⟨copy, hcopy, hr⟩ := gives_attach.1 hr
  rw [inlineEdits_nil, gives_pure] at hr
  rw [gives_pure] at htree
  obtain ⟨d', attributes, order, hd', hhow, htaken, hperm, hcopies⟩ := copies_simpleDerivation hs hd hkeeps hcopy
  refine ⟨copy, d', attributes, ?_, hd', hhow, htaken, htaken.nodup hdistinct ht hd, ⟨order, hperm, hcopies⟩,
    fun hspace hform => ?_⟩
  · rw [← htree, ← hr]
    rfl
  · have hmatches : (Context.between source target limit).Matches w.schema :=
      ⟨hforms.space.trans hspace, hforms.attributeForm.trans hform, hforms.attributeForm.symm⟩
    have hattributes : ∀ n ∈ order, n.IsAttribute := fun n hn =>
      htaken.attributes hs hproper hd n (hperm.subset hn)
    have hnames : (declaredNames w.schema d'.declared).Perm (declaredNames source attributes) := by
      rw [declaredNames_copies hs hmatches hattributes hcopies]
      exact hperm.map _
    exact ⟨hnames, hnames.nodup_iff.2 (htaken.nodup hdistinct ht hd)⟩

/-! ## Attributes that are lost and found twice -/

section Narrowed

def simpleContentType (name : Option String) (topLevel : Bool) (content : Node) : Node :=
  ⟨.complexType ⟨name, topLevel⟩ ⟨false, false⟩ [] none (some ⟨.simpleContent (some content)⟩) none⟩

def textAttribute (name : String) : Node :=
  ⟨.attribute ⟨some name, false⟩ ⟨some (xsd "string"), ⟨none, none, none⟩, none⟩ none⟩

def extendedContent (base : QName) (names : List String) : Node :=
  ⟨.simpleContentExtension (some base) (names.map textAttribute) none⟩

def restrictedContent (base : QName) (names : List String) : Node :=
  ⟨.simpleContentRestriction (some base) none [] (names.map textAttribute) none⟩

def textTag (name : String) : Xml.Element :=
  sampleTag "attribute" [("name", name), ("type", "xs:string")] []

def simpleContentTag (name how base : String) (inner : List Xml.Element) : Xml.Element :=
  sampleTag "complexType" [("name", name)] [sampleTag "simpleContent" [] [sampleTag how [("base", base)] inner]]

/-- A type with two attributes, a restriction of it that declares one of them again, an extension of that, and another
extension of the first type. -/
def narrowedDocument : Xml.Element :=
  sampleTag "schema" [("targetNamespace", "urn:s")]
    [simpleContentTag "A" "extension" "xs:string" [textTag "x", textTag "y"],
      simpleContentTag "B" "restriction" "A" [textTag "x"], simpleContentTag "C" "extension" "B" [],
      simpleContentTag "D" "extension" "A" [textTag "z"]]

/-- What is read from the document. -/
def narrowedSchema : Schema :=
  { SchemaOf.empty "urn:s" defaultForm defaultForm with
    types := [(some "A", simpleContentType (some "A") true (extendedContent (xsd "string") ["x", "y"])),
      (some "B", simpleContentType (some "B") true (restrictedContent ⟨"urn:s", "A"⟩ ["x"])),
      (some "C", simpleContentType (some "C") true (extendedContent ⟨"urn:s", "B"⟩ [])),
      (some "D", simpleContentType (some "D") true (extendedContent ⟨"urn:s", "A"⟩ ["z"]))] }

theorem isRead_narrowedSchema : IsRead narrowedSchema := by
  have henters : List.Forall₂ Reader.Enters narrowedDocument.children (narrowedSchema.types.map (TableName.types, ·)) :=
    .cons (fun _ _ => rfl) <| .cons (fun _ _ => rfl) <| .cons (fun _ _ => rfl) <| .cons (fun _ _ => rfl) .nil
  exact ⟨narrowedDocument, #[], #[], run_addConstructs henters _ _⟩

def textDerivation (how : Derivation) (base : QName) (names : List String) : SimpleDerivation :=
  ⟨how, some base, names.map textAttribute, []⟩

theorem flattens_textDerivation {s : Schema} {how : Derivation} {base : QName} {names : List String}
    {own : List Node} : Flattens s (textDerivation how base names).declared own ↔ own = names.map textAttribute := by
  rw [SimpleDerivation.declared, textDerivation, List.append_nil]
  refine flattens_iff fun x hx => ?_
  obtain ⟨name, -, rfl⟩ := List.mem_map.1 hx
  nofun

theorem effective_textDerivation {s : Schema} {how : Derivation} {base : QName} {names : List String}
    {attributes : List Node} : (textDerivation how base names).Effective s attributes ↔
      ∃ rest, Inherits s (some base) rest ∧ attributes = how.combine s (names.map textAttribute) rest := by
  constructor
  · rintro ⟨own, rest, hown, hrest, rfl⟩
    rw [flattens_textDerivation] at hown
    exact ⟨rest, hrest, by rw [hown]; rfl⟩
  · rintro ⟨rest, hrest, rfl⟩
    exact ⟨_, rest, flattens_textDerivation.2 rfl, hrest, rfl⟩

section Sample

variable {rest attributes : List Node}

theorem inherits_first : Inherits narrowedSchema (some ⟨"urn:s", "A"⟩) rest ↔ rest = ["x", "y"].map textAttribute := by
  have hd : (simpleContentType (some "A") true (extendedContent (xsd "string") ["x", "y"])).simpleDerivation? =
      some (textDerivation .extension (xsd "string") ["x", "y"]) := rfl
  rw [inherits_derived rfl rfl hd, effective_textDerivation]
  constructor
  · rintro ⟨rest, hrest, rfl⟩
    rw [inherits_builtin rfl] at hrest
    rw [hrest]
    rfl
  · rintro rfl
    exact ⟨[], (inherits_builtin rfl).2 rfl, rfl⟩

theorem effective_restriction : (textDerivation .restriction ⟨"urn:s", "A"⟩ ["x"]).Effective narrowedSchema attributes ↔
    attributes = ["x", "y"].map textAttribute := by
  rw [effective_textDerivation]
  constructor
  · rintro ⟨rest, hrest, rfl⟩
    rw [inherits_first] at hrest
    rw [hrest]
    rfl
  · rintro rfl
    exact ⟨_, inherits_first.2 rfl, rfl⟩

theorem effective_addition : (textDerivation .extension ⟨"urn:s", "A"⟩ ["z"]).Effective narrowedSchema attributes ↔
    attributes = ["z", "x", "y"].map textAttribute := by
  rw [effective_textDerivation]
  constructor
  · rintro ⟨rest, hrest, rfl⟩
    rw [inherits_first] at hrest
    rw [hrest]
    rfl
  · rintro rfl
    exact ⟨_, inherits_first.2 rfl, rfl⟩

theorem distinct_narrowedSchema : DistinctAttributes narrowedSchema := by
  have hderivation {t : Node} (ht : t ∈ narrowedSchema.types.values) {d : SimpleDerivation}
      (hd : t.simpleDerivation? = some d) : d = textDerivation .extension (xsd "string") ["x", "y"] ∨
        d = textDerivation .restriction ⟨"urn:s", "A"⟩ ["x"] ∨ d = textDerivation .extension ⟨"urn:s", "B"⟩ [] ∨
        d = textDerivation .extension ⟨"urn:s", "A"⟩ ["z"] := by
    simp only [narrowedSchema, Table.values, List.map_cons, List.map_nil, List.mem_cons, List.not_mem_nil,
      or_false] at ht
    rcases ht with rfl | rfl | rfl | rfl <;> cases hd <;> simp [textDerivation]
  refine ⟨fun t ht d hd own hown => ?_, fun t ht d hd hhow own rest hown hrest => ?_⟩
  · rcases hderivation ht hd with rfl | rfl | rfl | rfl <;> rw [flattens_textDerivation] at hown <;> subst hown <;>
      decide
  · rcases hderivation ht hd with rfl | rfl | rfl | rfl
    · rw [(inherits_builtin rfl).1 hrest]
      exact List.disjoint_nil_right _
    · cases hhow
    · rw [flattens_textDerivation] at hown
      rw [hown]
      exact List.disjoint_nil_left _
    · rw [flattens_textDerivation] at hown
      rw [inherits_first.1 hrest, hown]
      have hapart : ∀ name ∈ declaredNames narrowedSchema (["z"].map textAttribute),
          name ∉ declaredNames narrowedSchema (["x", "y"].map textAttribute) := by decide
      exact fun name => hapart name

theorem keeps_first : KeepsInherited narrowedSchema (some ⟨"urn:s", "A"⟩) := by
  have hd : (simpleContentType (some "A") true (extendedContent (xsd "string") ["x", "y"])).simpleDerivation? =
      some (textDerivation .extension (xsd "string") ["x", "y"]) := rfl
  intro e he hhow
  rcases through_derived rfl hd he with rfl | he
  · cases hhow
  · exact absurd he (not_through_builtin rfl)

abbrev narrowedContext (limit : Nat) : Context := .between narrowedSchema alignedTarget limit

def narrowedSeed (name : String) (content : Node) : Seed :=
  .type (some "e") (simpleContentType (some name) true content) true

def simpleContentElement (content : Node) : Node :=
  ⟨Slot.type.fill (simpleContentType none false content) (blankElement (some "e") true none)⟩

variable {limit : Nat} {path : List ComponentKey} {content content' : Node} {name : String} {key : Option ComponentKey}

theorem gives_textAttribute (hkey : ∀ k ∈ key, k ∉ path) :
    (inlineChild (narrowedContext limit) path ⟨textAttribute name, key, none⟩).Gives (textAttribute name) := by
  refine gives_child.2 ⟨.attribute ⟨some name, false⟩ ⟨none, ⟨none, none, none⟩, none⟩ none, rfl, ?_⟩
  have hedits : edits (narrowedContext limit) .attribute (textAttribute name) =
      [.change (.typeName (some (xsd "string")))] := rfl
  have hgives (inside : List ComponentKey) : (inlineNode (narrowedContext limit) inside (textAttribute name)
      (.attribute ⟨some name, false⟩ ⟨none, ⟨none, none, none⟩, none⟩ none)).Gives (textAttribute name).shape := by
    rw [inlineNode]
    show (inlineEdits _ _ (edits (narrowedContext limit) .attribute (textAttribute name)) _).Gives _
    rw [hedits, inlineEdits_change, inlineEdits_nil, gives_pure]
    rfl
  cases key with
  | none => exact ⟨path, rfl, _, hgives path, rfl⟩
  | some k => exact ⟨path ++ [k], if_neg (hkey k rfl), _, hgives _, rfl⟩

theorem narrowedSeed_gives
    (h : (inlineChild (narrowedContext limit) [⟨.type, ⟨"urn:s", name⟩⟩] (.plain content)).Gives content') :
    ((narrowedSeed name content).inline (narrowedContext limit)).Gives (simpleContentElement content') := by
  have hmodel : (inlineChild (narrowedContext limit) [⟨.type, ⟨"urn:s", name⟩⟩]
      (.plain ⟨.simpleContent (some content)⟩)).Gives ⟨.simpleContent (some content')⟩ := by
    refine gives_plain rfl rfl (gives_attach.2 ⟨_, h, ?_⟩)
    rw [inlineEdits_nil, gives_pure]
    rfl
  have htype : (inlineChild (narrowedContext limit) [] (.plain (simpleContentType (some name) true content))).Gives
      (simpleContentType none false content') := by
    have hmembers : attributeEdits narrowedSchema true none [] false [] = [] := by rw [attributeEdits]
    refine gives_plain rfl rfl ?_
    show (inlineEdits _ _ (complexTypeEdits narrowedSchema true [] none _ none) _).Gives _
    rw [complexTypeEdits, Option.isSome_none, hmembers, List.nil_append]
    refine gives_attach.2 ⟨_, hmodel, ?_⟩
    show (inlineEdits _ _ [] _).Gives _
    rw [inlineEdits_nil, gives_pure]
    rfl
  refine gives_bind.2 ⟨_, gives_attach.2 ⟨_, htype, ?_⟩, gives_pure.2 rfl⟩
  rw [inlineEdits_nil, gives_pure]
  rfl

def textLists (lists : List (QName × List String)) : List (QName × List Node) :=
  lists.map fun l => (l.1, l.2.map textAttribute)

theorem baseChain_first {met : List QName} (hmet : ⟨"urn:s", "A"⟩ ∉ met) :
    baseChain narrowedSchema true met (some ⟨"urn:s", "A"⟩) =
      ⟨textLists [(⟨"urn:s", "A"⟩, ["x", "y"]), (⟨"urn:s", "A"⟩, [])], .ok (some (xsd "string"))⟩ := by
  rw [baseChain, if_neg (by decide), dif_neg hmet]
  show (baseChain narrowedSchema true _ (some (xsd "string"))).cons _ = _
  rw [baseChain, if_pos (by decide)]
  rfl

theorem baseChain_second : baseChain narrowedSchema true [] (some ⟨"urn:s", "B"⟩) =
    ⟨textLists [(⟨"urn:s", "B"⟩, ["x"]), (⟨"urn:s", "B"⟩, []), (⟨"urn:s", "A"⟩, ["x", "y"]), (⟨"urn:s", "A"⟩, [])],
      .ok (some (xsd "string"))⟩ := by
  rw [baseChain, if_neg (by decide), dif_neg (by decide)]
  show (baseChain narrowedSchema true _ (some ⟨"urn:s", "A"⟩)).cons _ = _
  rw [baseChain_first (by decide)]
  rfl

theorem baseChain_bare : baseChain narrowedSchema false [] (some ⟨"urn:s", "A"⟩) =
    ⟨[], .ok (some (xsd "string"))⟩ := by
  rw [baseChain, if_neg (by decide), dif_neg (by decide)]
  show baseChain narrowedSchema false _ (some (xsd "string")) = _
  rw [baseChain, if_pos (by decide)]

def textEdit (key : Option ComponentKey) (name : String) : Edit :=
  .attach .attribute ⟨textAttribute name, key, none⟩

theorem attributeEdits_text (names : List String) (hasAny : Bool) :
    attributeEdits narrowedSchema true key [] hasAny (names.map textAttribute) = names.map (textEdit key) := by
  induction names with
  | nil => rw [List.map_nil, attributeEdits, List.map_nil]
  | cons name names ih =>
    rw [List.map_cons, attributeEdits, if_pos rfl, ih]
    rfl

theorem attributeListEdits_text (lists : List (QName × List String)) (hasAny : Bool) :
    attributeListEdits narrowedSchema hasAny
        ((textLists lists).map fun e => (some ⟨.type, e.1⟩, e.2)) =
      lists.flatMap fun l => l.2.map (textEdit (some ⟨.type, l.1⟩)) := by
  induction lists generalizing hasAny with
  | nil => rfl
  | cons l lists ih =>
    rw [textLists] at ih ⊢
    rw [List.map_cons, List.map_cons, attributeListEdits, List.flatMap_cons, attributeEdits_text]
    dsimp only
    rw [ih]

theorem simpleExtensionEdits_text {base : QName} {lists : List (QName × List String)} {root : Option QName}
    {names : List String}
    (hchain : baseChain narrowedSchema true [] (some base) = ⟨textLists lists, .ok root⟩) :
    simpleExtensionEdits narrowedSchema (some base) (names.map textAttribute) false =
      (lists.flatMap fun l => l.2.map (textEdit (some ⟨.type, l.1⟩))) ++ [.change (.base root)] ++
        names.map (textEdit none) := by
  rw [simpleExtensionEdits, hchain]
  dsimp only
  rw [attributeListEdits_text, attributeEdits_text]
  rfl

/-- The extension of the restriction has the attribute of the restriction and that of its base. -/
theorem gives_widening : (inlineChild (narrowedContext limit) [⟨.type, ⟨"urn:s", "C"⟩⟩]
    (.plain (extendedContent ⟨"urn:s", "B"⟩ []))).Gives (extendedContent (xsd "string") ["x", "x", "y"]) := by
  refine gives_plain rfl rfl ?_
  show (inlineEdits _ _ (simpleExtensionEdits narrowedSchema (some ⟨"urn:s", "B"⟩) ([].map textAttribute) false)
    _).Gives _
  rw [simpleExtensionEdits_text baseChain_second]
  refine gives_attach.2 ⟨_, gives_textAttribute (by simp), gives_attach.2 ⟨_, gives_textAttribute (by simp),
    gives_attach.2 ⟨_, gives_textAttribute (by simp), ?_⟩⟩⟩
  show (inlineEdits _ _ [.change (.base (some (xsd "string")))] _).Gives _
  rw [inlineEdits_change, inlineEdits_nil, gives_pure]
  rfl

theorem gives_addition : (inlineChild (narrowedContext limit) [⟨.type, ⟨"urn:s", "D"⟩⟩]
    (.plain (extendedContent ⟨"urn:s", "A"⟩ ["z"]))).Gives (extendedContent (xsd "string") ["x", "y", "z"]) := by
  refine gives_plain rfl rfl ?_
  show (inlineEdits _ _ (simpleExtensionEdits narrowedSchema (some ⟨"urn:s", "A"⟩) (["z"].map textAttribute) false)
    _).Gives _
  rw [simpleExtensionEdits_text (baseChain_first List.not_mem_nil)]
  refine gives_attach.2 ⟨_, gives_textAttribute (by simp), gives_attach.2 ⟨_, gives_textAttribute (by simp), ?_⟩⟩
  show (inlineEdits _ _ (.change (.base (some (xsd "string"))) :: [textEdit none "z"]) _).Gives _
  rw [inlineEdits_change]
  refine gives_attach.2 ⟨_, gives_textAttribute (by simp), ?_⟩
  rw [inlineEdits_nil, gives_pure]
  rfl

theorem gives_narrowing : (inlineChild (narrowedContext limit) [⟨.type, ⟨"urn:s", "B"⟩⟩]
    (.plain (restrictedContent ⟨"urn:s", "A"⟩ ["x"]))).Gives (restrictedContent (xsd "string") ["x"]) := by
  refine gives_plain rfl rfl ?_
  show (inlineEdits _ _ (simpleRestrictionEdits narrowedSchema (some ⟨"urn:s", "A"⟩) none (["x"].map textAttribute)
    false) _).Gives _
  rw [simpleRestrictionEdits, attributeEdits_text, baseChain_bare]
  refine gives_attach.2 ⟨_, gives_textAttribute (by simp), ?_⟩
  show (inlineEdits _ _ [.change (.base (some (xsd "string")))] _).Gives _
  rw [inlineEdits_change, inlineEdits_nil, gives_pure]
  rfl

theorem narrowedSeed_isGlobal {t : Node} (ht : t ∈ narrowedSchema.types.values) :
    (Seed.type (some "e") t true).IsGlobal narrowedSchema :=
  ht

/-- What an extraction of a type gives, once it is known what the type is copied to. -/
theorem exists_narrowedRun {name : String} {content content' : Node} {d : SimpleDerivation}
    (ht : simpleContentType (some name) true content ∈ narrowedSchema.types.values)
    (hd : (simpleContentType none false content').simpleDerivation? = some d)
    (h : ∀ limit, (inlineChild (narrowedContext limit) [⟨.type, ⟨"urn:s", name⟩⟩] (.plain content)).Gives content') :
    ∃ limit root w, (Call.runAll (narrowedContext limit) [.extract (narrowedSeed name content), .drain]).runIn
        (.ofSchema alignedTarget) = (.ok [root], w) ∧ w.items = [] ∧
      ∃ copy, (w.store.tree root).shape.ownType? = some (some copy) ∧ copy.simpleDerivation? = some d := by
  obtain ⟨limit, root, w, hrun, hitems, htree⟩ := exists_extraction isRead_narrowedSchema.proper alignedTarget
    ((narrowedSeed_isGlobal ht).isFrom isRead_narrowedSchema.proper) fun limit => narrowedSeed_gives (h limit)
  refine ⟨limit, root, w, hrun, hitems, simpleContentType none false content', ?_, hd⟩
  rw [htree]
  rfl

/-- A restriction loses what it inherits, and an extension of a restriction has an attribute twice that the restriction
declares again. -/
theorem extraction_loses_attributes :
    IsRead narrowedSchema ∧ DistinctAttributes narrowedSchema ∧
    (∃ t d attributes, t ∈ narrowedSchema.types.values ∧ t.simpleDerivation? = some d ∧
      d.Effective narrowedSchema attributes ∧
      ∃ limit root w, (Call.runAll (narrowedContext limit) [.extract (.type (some "e") t true), .drain]).runIn
          (.ofSchema alignedTarget) = (.ok [root], w) ∧ w.items = [] ∧
        ∃ copy d', (w.store.tree root).shape.ownType? = some (some copy) ∧ copy.simpleDerivation? = some d' ∧
          d'.declared.length < attributes.length) ∧
    ∃ t, t ∈ narrowedSchema.types.values ∧
      ∃ limit root w, (Call.runAll (narrowedContext limit) [.extract (.type (some "e") t true), .drain]).runIn
          (.ofSchema alignedTarget) = (.ok [root], w) ∧ w.items = [] ∧
        ∃ copy d', (w.store.tree root).shape.ownType? = some (some copy) ∧ copy.simpleDerivation? = some d' ∧
          ¬ (declaredNames w.schema d'.declared).Nodup := by
  have hrestriction : simpleContentType (some "B") true (restrictedContent ⟨"urn:s", "A"⟩ ["x"]) ∈
      narrowedSchema.types.values := by
    simp [narrowedSchema, Table.values]
  have hwidening : simpleContentType (some "C") true (extendedContent ⟨"urn:s", "B"⟩ []) ∈
      narrowedSchema.types.values := by
    simp [narrowedSchema, Table.values]
  refine ⟨isRead_narrowedSchema, distinct_narrowedSchema, ?_, ?_⟩
  · obtain ⟨limit, root, w, hrun, hitems, copy, hcopy, hd⟩ :=
      exists_narrowedRun (d := textDerivation .restriction (xsd "string") ["x"]) hrestriction rfl
        fun _ => gives_narrowing
    refine ⟨_, textDerivation .restriction ⟨"urn:s", "A"⟩ ["x"], _, hrestriction, rfl, effective_restriction.2 rfl,
      limit, root, w, hrun, hitems, copy, _, hcopy, hd, ?_⟩
    decide
  · obtain ⟨limit, root, w, hrun, hitems, copy, hcopy, hd⟩ :=
      exists_narrowedRun (d := textDerivation .extension (xsd "string") ["x", "x", "y"]) hwidening rfl
        fun _ => gives_widening
    refine ⟨_, hwidening, limit, root, w, hrun, hitems, copy, _, hcopy, hd, fun hnodup => ?_⟩
    rw [textDerivation, SimpleDerivation.declared, List.append_nil, declaredNames, List.map_cons, List.map_cons,
      List.map_cons, List.map_cons, List.nodup_cons] at hnodup
    exact hnodup.1 List.mem_cons_self

/-- The extension of the first type comes with its three attributes. -/
theorem extraction_keeps_attributes_sample :
    ∃ limit root w, (Call.runAll (narrowedContext limit) [.extract (narrowedSeed "D"
        (extendedContent ⟨"urn:s", "A"⟩ ["z"])), .drain]).runIn (.ofSchema alignedTarget) = (.ok [root], w) ∧
      w.items = [] ∧ ∃ copy d', (w.store.tree root).shape.ownType? = some (some copy) ∧
        copy.simpleDerivation? = some d' ∧ d'.how = .extension ∧
        (declaredNames w.schema d'.declared).Perm [some ⟨"", "z"⟩, some ⟨"", "x"⟩, some ⟨"", "y"⟩] := by
  have haddition : simpleContentType (some "D") true (extendedContent ⟨"urn:s", "A"⟩ ["z"]) ∈
      narrowedSchema.types.values := by
    simp [narrowedSchema, Table.values]
  obtain ⟨limit, root, w, hrun, hitems, -⟩ :=
    exists_narrowedRun (d := textDerivation .extension (xsd "string") ["x", "y", "z"]) haddition rfl
      fun _ => gives_addition
  have hkeeps := extraction_keeps_attributes isRead_narrowedSchema distinct_narrowedSchema limit
    (by simpa [Call.seeds, narrowedSeed] using narrowedSeed_isGlobal haddition) hrun hitems
  simp only [List.flatMap_cons, List.flatMap_nil, Call.seeds, List.append_nil, List.forall₂_cons] at hkeeps
  have hd : (simpleContentType (some "D") true (extendedContent ⟨"urn:s", "A"⟩ ["z"])).simpleDerivation? =
      some (textDerivation .extension ⟨"urn:s", "A"⟩ ["z"]) := rfl
  obtain ⟨copy, d', attributes, hcopy, hd', hhow, htaken, -, -, hnames⟩ :=
    hkeeps.1 _ _ _ _ rfl hd fun _ => keeps_first
  obtain rfl := effective_addition.1 htaken
  exact ⟨limit, root, w, hrun, hitems, copy, d', hcopy, hd', hhow, (hnames rfl rfl).1⟩

end Sample

end Narrowed

end PayloadSchema.Extraction
