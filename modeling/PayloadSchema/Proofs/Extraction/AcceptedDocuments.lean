import PayloadSchema.Proofs.Extraction.NoReferences
import PayloadSchema.Proofs.Extraction.Termination
import PayloadSchema.Proofs.Inlining.Content

/-!
# Extraction keeps what is accepted

The elements that an extraction makes take the documents that their seeds take.
-/

namespace PayloadSchema.Extraction

open Schema Copying

/-! ## Starts of copies -/

structure Context.Aligned (c : Context) (t : Schema) : Prop where
  space : t.space = c.source.space
  elementForm : t.elementForm = c.source.elementForm
  stated : c.elementForm = t.elementForm

/-- Whether the copy of a construct can be completed from another one: that has the same name, or has got none yet,
and nothing inside of it takes elements. -/
def Outlined (s t : Schema) : Shape Node → Shape Node → Prop
  | .element co d own, shape => ∃ co' d' own', shape = .element co' d' own' ∧
    (Shape.element co' d' own').wireName? t = (Shape.element co d own).wireName? s
  | .elementRef .., shape => ∃ co d own, shape = .element co d own ∧ d.form = none
  | .modelGroup order .., shape => ∃ o, shape = .modelGroup order o []
  | .complexType .., shape => ∃ co d members any, shape = .complexType co d members any none none
  | .complexContent .., shape => ∃ mixed content, shape = .complexContent mixed content
  | .complexDerivation how .., shape => ∃ base members any,
    shape = .complexDerivation how base none members any
  | _, _ => True

section Outlines

variable {c : Context} {t : Schema} {n : Node} {shape : Shape Node} {child : Child} {o : Occurs}

theorem outlined_withOccurs {s : Schema} {origin : Shape Node} (h : Outlined s t origin shape) :
    Outlined s t origin (shape.withOccurs o) := by
  cases origin with
  | element =>
    obtain ⟨co, d, own, rfl, hname⟩ := h
    exact ⟨co, _, own, rfl, hname⟩
  | elementRef =>
    obtain ⟨co, d, own, rfl, hform⟩ := h
    exact ⟨co, _, own, rfl, hform⟩
  | modelGroup =>
    obtain ⟨_, rfl⟩ := h
    exact ⟨o, rfl⟩
  | complexType =>
    obtain ⟨co, d, members, any, rfl⟩ := h
    exact ⟨co, d, members, any, rfl⟩
  | complexContent =>
    obtain ⟨mixed, content, rfl⟩ := h
    exact ⟨mixed, content, rfl⟩
  | complexDerivation =>
    obtain ⟨base, members, any, rfl⟩ := h
    exact ⟨base, members, any, rfl⟩
  | _ => trivial

theorem outlined_outline (hc : c.Aligned t)
    (hinner : n.shape.kind = .element → n.shape.isTopLevel = false) (h : outline n = .ok shape) :
    Outlined c.source t n.shape shape := by
  obtain ⟨origin⟩ := n
  cases origin with
  | element co d own =>
    cases h
    have htop : co.topLevel = false := hinner rfl
    refine ⟨_, _, _, rfl, ?_⟩
    simp [Shape.wireName?, htop, hc.space, hc.elementForm]
  | elementRef =>
    cases h
    exact ⟨_, _, _, rfl, rfl⟩
  | modelGroup order =>
    cases order with
    | unspecified => cases h
    | _ =>
      cases h
      exact ⟨_, rfl⟩
  | complexType =>
    obtain ⟨any, -, h⟩ := Reader.bind_eq_ok.1 h
    cases h
    exact ⟨_, _, _, _, rfl⟩
  | complexContent =>
    cases h
    exact ⟨_, _, rfl⟩
  | complexDerivation =>
    obtain ⟨any, -, h⟩ := Reader.bind_eq_ok.1 h
    cases h
    exact ⟨_, _, _, rfl⟩
  | _ => trivial

theorem bounds_outline (h : outline n = .ok shape) : shape.bounds = n.shape.bounds ∧
    ∀ o, (shape.withOccurs o).bounds = (n.shape.withOccurs o).bounds := by
  obtain ⟨origin⟩ := n
  cases origin with
  | modelGroup order => cases order <;> cases h <;> exact ⟨rfl, fun _ => rfl⟩
  | simpleRestriction | simpleContentExtension | complexDerivation | complexType =>
    obtain ⟨_, -, h⟩ := Reader.bind_eq_ok.1 h
    cases h
    exact ⟨rfl, fun _ => rfl⟩
  | simpleContentRestriction =>
    obtain ⟨_, -, h⟩ := Reader.bind_eq_ok.1 h
    obtain ⟨_, -, h⟩ := Reader.bind_eq_ok.1 h
    cases h
    exact ⟨rfl, fun _ => rfl⟩
  | _ => cases h <;> exact ⟨rfl, fun _ => rfl⟩

theorem Child.outline_spec (hc : c.Aligned t)
    (hinner : child.origin.shape.kind = .element → child.origin.shape.isTopLevel = false)
    (h : child.outline = .ok shape) :
    Outlined c.source t child.origin.shape shape ∧ shape.bounds = child.occurs := by
  obtain ⟨shape', houtline, h⟩ := Reader.bind_eq_ok.1 h
  obtain ⟨hbounds, hwith⟩ := bounds_outline houtline
  have hstarts := outlined_outline hc hinner houtline
  rw [Child.occurs]
  cases hchild : child.bounds with
  | none =>
    rw [hchild] at h
    cases h
    exact ⟨hstarts, hbounds⟩
  | some o =>
    rw [hchild] at h
    cases h
    exact ⟨outlined_withOccurs hstarts, hwith o⟩

end Outlines

/-! ## Copies -/

section Copies

variable {c : Context} {path : List ComponentKey} {t : Schema} {n : Node} {shape r : Shape Node}

private theorem words?_copy {k copy : Kind} (h : k.copy? = some copy) : copy.words? = k.words? := by
  cases k <;> cases h <;> rfl

/-- A global element has the same name where it stands and where it is referred to. -/
theorem gives_referenceEdits (hs : c.source.Proper) (hc : c.Aligned t) {ref : Option QName} {co : Component}
    {d : ElementDecl} {own : Option Node} (hform : d.form = none)
    (h : (inlineEdits c path (referenceEdits c.source .elements .element c.elementForm ref)
      (.element co d own)).Gives r) :
    ∃ q m inside start, ref = some q ∧ c.source.find? .elements (some q) = some m ∧
      .follow m ∈ referenceEdits c.source .elements .element c.elementForm ref ∧
      enter path (m.shape.key? c.source.space) = .ok inside ∧ start.kind = .element ∧
      Outlined c.source t m.shape start ∧ (inlineNode c inside m start).Gives r := by
  obtain ⟨m, hfind⟩ := exists_of_gives_reference h
  cases ref with
  | none => cases hfind
  | some q =>
    have hentry := (hs.find hfind).2
    obtain ⟨co', d', own', rfl⟩ := hentry.element
    have hco : co' = ⟨some q.name, true⟩ := Option.some.inj hentry.component
    subst hco
    have hname {co : Component} {d : ElementDecl} (hco : co.name = some q.name)
        (hqualified : d.form.getD t.elementForm = qualified) :
        Outlined c.source t (.element ⟨some q.name, true⟩ d' own') (.element co d own) :=
      ⟨co, d, own, rfl, by simp [Shape.wireName?, hco, hqualified, hc.space]⟩
    obtain ⟨inside, henter, hmem, hnode⟩ := gives_reference hfind rfl h
    by_cases hdefault : c.elementForm = qualified
    · rw [if_pos hdefault] at hnode
      exact ⟨q, _, inside, _, rfl, hfind, hmem, henter, rfl, hname rfl (by simp [hform, ← hc.stated, hdefault]), hnode⟩
    · rw [if_neg hdefault] at hnode
      exact ⟨q, _, inside, _, rfl, hfind, hmem, henter, rfl, hname rfl rfl, hnode⟩

/-- The copy of a child is kept where the copy of its origin takes the same elements. -/
theorem kept_inlineChild (hs : c.source.Proper) (hc : c.Aligned t) {child : Child} {kind : Kind} {m : Node}
    (hproper : child.origin.Proper) (hcopy : child.origin.shape.kind.copy? = some kind)
    (hinner : child.origin.shape.kind = .element → child.origin.shape.isTopLevel = false)
    (hagree : ∀ inside start r, enter path (child.key? c.source.space) = .ok inside →
      child.origin.shape.kind.copy? = some start.kind → Outlined c.source t child.origin.shape start →
      (inlineNode c inside child.origin start).Gives r → Agree c.source t child.origin ⟨r⟩)
    (hm : (inlineChild c path child).Gives m) : child.Kept c.source t m := by
  obtain ⟨start, houtline, inside, henter, r, hr, rfl⟩ := gives_child.1 hm
  obtain ⟨hstarts, hbounds⟩ := child.outline_spec hc hinner houtline
  obtain ⟨_, houtline', hcomplete⟩ := complete_outline hproper hcopy
  cases houtline.symm.trans houtline'
  have hcopy' : child.origin.shape.kind.copy? = some start.kind := by rw [hcopy, hcomplete.kind]
  have hsteady := steady_inlineNode hs hproper hcopy' hr
  exact ⟨hagree inside start r henter hcopy' hstarts hr, hsteady.bounds.trans hbounds⟩

/-- The finished copy of a node takes the same elements as the node, in a source without substitution groups and
without types that inherit content through more than one extension. -/
theorem agree_inlineNode (hs : c.source.Proper) (hc : c.Aligned t) (hheads : NoSubstitution c.source)
    (honce : ExtendsOnce c.source) (hn : n.Proper) (hcontains : Contains c.source n)
    (hcopy : n.shape.kind.copy? = some shape.kind) (hstarts : Outlined c.source t n.shape shape)
    (h : (inlineNode c path n shape).Gives r) : Agree c.source t n ⟨r⟩ := by
  induction hd : depth c.source path n using WellFoundedLT.induction generalizing path n shape r with
  | ind d ih =>
    subst hd
    have hrule := lawful_edits (c := c) hs hn hcopy
    have hkept : AllKept c path t (edits c shape.kind n) := by
      intro e he child hchild m hm
      obtain ⟨kind, hapt⟩ := hrule.apt he hchild
      refine kept_inlineChild hs hc hapt.descends.proper hapt.copy hapt.inner ?_ hm
      intro inside start r henter hcopy' hstarts hr
      exact ih _ (depth_lt hapt.descends henter) hapt.descends.proper (hapt.descends.contained hcontains)
        hcopy' hstarts hr rfl
    have hsteady := steady_inlineNode hs hn hcopy h
    rw [inlineNode] at h
    cases hwords : n.shape.kind.words? with
    | some words =>
      have hwords' : (Node.mk r).shape.kind.words? = some words := by
        rw [← hwords, ← words?_copy hcopy, ← hsteady.kind, Node.shape]
      intro builtin word
      rw [takes_of_words? hwords, takes_of_words? hwords']
    | none =>
      obtain ⟨origin⟩ := n
      cases origin with
      | element co d own =>
        obtain ⟨co', d', own', rfl, hname⟩ := hstarts
        have hhead : d.substitutionGroup = none := hheads _ hcontains co d own rfl
        have hedits : edits c (Shape.element co' d' own').kind ⟨.element co d own⟩ =
            typeEdits c.source false d.typeName own := by
          simp only [edits, Node.shape, elementEdits, hhead]
        rw [hedits] at hkept h
        exact agree_element hname hkept h
      | elementRef ref o =>
        obtain ⟨co, d, own, rfl, hform⟩ := hstarts
        obtain ⟨q, m, inside, start, rfl, hfind, hmem, henter, hkind, hstart, h⟩ :=
          gives_referenceEdits hs hc hform h
        have hasked := hrule.asked _ hmem
        have hdesc := hasked.descends _ (List.mem_singleton.2 rfl)
        have hcopy' : m.shape.kind.copy? = some start.kind := by
          rw [hkind]
          exact hasked.sensible
        have hagree := ih _ (depth_lt hdesc henter) hdesc.proper (hdesc.contained hcontains) hcopy' hstart h rfl
        exact fun builtin word => (takes_elementRef hfind).trans (hagree builtin word)
      | modelGroup order o items =>
        obtain ⟨o', rfl⟩ := hstarts
        cases order with
        | unspecified => cases hwords
        | _ =>
          obtain ⟨items', hitems, rfl⟩ := gives_itemEdits hs hkept h
          exact agree_modelGroup hitems
      | complexType =>
        obtain ⟨co, d, members, any, rfl⟩ := hstarts
        exact agree_complexType hs hkept h
      | complexContent =>
        obtain ⟨mixed, content, rfl⟩ := hstarts
        exact agree_complexContent hkept h
      | complexDerivation how base =>
        obtain ⟨base', members, any, rfl⟩ := hstarts
        cases how with
        | restriction => exact agree_restriction hs hkept h
        | extension =>
          refine agree_extension hs (fun q n hbase hq hfind => ?_) hkept h
          subst hbase
          exact honce _ q n hcontains (by simp [Node.extended?, hq]) hfind
      | groupRef => cases hcopy
      | _ => cases hwords

end Copies

/-! ## Seeds -/

/-- The element of the source that is asked for, or an element that has the type that is asked for. -/
def Seed.declared : Seed → Node
  | .element n _ => n
  | .type name n topLevel => ⟨Slot.type.fill n (blankElement name topLevel none)⟩

section Seeds

variable {c : Context} {t : Schema} {seed : Seed} {m : Node}

theorem Seed.agree_inline (hs : c.source.Proper) (hc : c.Aligned t) (hheads : NoSubstitution c.source)
    (honce : ExtendsOnce c.source) (hseed : seed.IsGlobal c.source) (h : (seed.inline c).Gives m) :
    Agree c.source t seed.declared m := by
  have hentry := hseed.entry hs
  obtain ⟨r, hr, hm⟩ := gives_bind.1 h
  rw [gives_pure] at hm
  subst hm
  cases seed with
  | element n topLevel =>
    have hcontains : Contains c.source n := by
      obtain ⟨e, he, rfl⟩ := List.mem_map.1 hseed
      exact .entry .elements he
    obtain ⟨name, hentry⟩ := hentry
    obtain ⟨co, d, own, rfl⟩ := hentry.element
    have hco : co = ⟨name, true⟩ := Option.some.inj hentry.component
    subst hco
    have hedits : Seed.edits (.element ⟨.element ⟨name, true⟩ d own⟩ topLevel) =
        [.change (.element d), .follow ⟨.element ⟨name, true⟩ d own⟩] := rfl
    rw [hedits, inlineEdits_change] at hr
    obtain ⟨inside, -, _, hnode, hr⟩ := gives_follow.1 hr
    rw [inlineEdits_nil, gives_pure] at hr
    subst hr
    -- the name is that of a global element: at the top of the target, or with a form that says so
    have hstarts : Outlined c.source t (.element ⟨name, true⟩ d own)
        ((Change.element d).apply (Seed.blank c (.element ⟨.element ⟨name, true⟩ d own⟩ topLevel))) := by
      refine ⟨_, _, _, rfl, ?_⟩
      cases topLevel with
      | true => simp [Shape.wireName?, Node.shape, Shape.component?, hc.space]
      | false =>
        by_cases hdefault : c.elementForm = qualified
        · simp [Shape.wireName?, Node.shape, Shape.component?, hc.space, hdefault, ← hc.stated]
        · simp [Shape.wireName?, Node.shape, Shape.component?, hc.space, hdefault]
    refine agree_inlineNode hs hc hheads honce hentry.proper hcontains ?_ hstarts hnode
    rfl
  | type name n topLevel =>
    have hcontains : Contains c.source n := by
      obtain ⟨e, he, rfl⟩ := List.mem_map.1 hseed
      exact .entry .types he
    obtain ⟨_, hentry⟩ := hentry
    obtain ⟨hcopy, hadmits⟩ := copy?_of_isType (hseed.isFrom hs).2
    obtain ⟨m, hm, hr⟩ := gives_attach.1 hr
    rw [inlineEdits_nil, gives_pure] at hr
    subst hr
    have hinner (hkind : n.shape.kind = .element) : n.shape.isTopLevel = false := by
      rw [hkind] at hadmits
      cases hadmits
    have hkept := kept_inlineChild hs hc hentry.proper hcopy hinner
      (fun inside start r _ hcopy' hstarts hnode =>
        agree_inlineNode hs hc hheads honce hentry.proper hcontains hcopy' hstarts hnode) hm
    intro builtin word
    show Takes builtin c.source ⟨.element ⟨name, topLevel⟩ _ (some n)⟩ word ↔
      Takes builtin t ⟨.element ⟨name, topLevel⟩ _ (some m)⟩ word
    have hagree : Agree c.source t n m := hkept.agree
    simp only [takes_element, typed_own, Shape.wireName?, hc.space, hc.elementForm, hagree builtin]

end Seeds

/-! ## Targets -/

structure SameForms {α β : Type} (s : SchemaOf α) (t : SchemaOf β) : Prop where
  space : t.space = s.space
  elementForm : t.elementForm = s.elementForm
  attributeForm : t.attributeForm = s.attributeForm

section Targets

variable {α β γ : Type} {c : Context} {w w' : Workspace}

theorem SameForms.trans {s : SchemaOf α} {t : SchemaOf β} {u : SchemaOf γ} (hst : SameForms s t)
    (htu : SameForms t u) : SameForms s u :=
  ⟨htu.space.trans hst.space, htu.elementForm.trans hst.elementForm,
    htu.attributeForm.trans hst.attributeForm⟩

theorem sameForms_put (s : SchemaOf α) (table : TableName) (name : Option String) (a : α) :
    SameForms s (s.put table name a) := by
  cases table <;> exact ⟨rfl, rfl, rfl⟩

theorem sameForms_filed (target : SchemaOf Place) (a : Seed × Place) : SameForms target (filed target a) := by
  rw [filed]
  split
  · exact sameForms_put _ _ _ _
  · exact ⟨rfl, rfl, rfl⟩

theorem sameForms_foldl (target : SchemaOf Place) (new : List (Seed × Place)) :
    SameForms target (new.foldl filed target) := by
  induction new generalizing target with
  | nil => exact ⟨rfl, rfl, rfl⟩
  | cons a new ih => exact (sameForms_filed target a).trans (ih _)

/-- Calls leave the namespace of the target and the forms of its names as they are. -/
theorem sameForms_runAll (hs : c.source.Proper) {calls : List Call}
    (hfrom : ∀ seed ∈ calls.flatMap Call.seeds, seed.IsFrom c.source) (hw : w.Traced c.source)
    {ps : List Place} (hrun : (Call.runAll c calls).runIn w = (.ok ps, w')) :
    SameForms w.target w'.target := by
  rw [target_runAll hs hfrom hw hrun]
  exact sameForms_foldl _ _

theorem traced_ofSchema (s target : Schema) : (Workspace.ofSchema target).Traced s := by
  intro i hi
  rw [items_ofSchema] at hi
  cases hi

theorem sameForms_ofSchema (target : Schema) : SameForms target (Workspace.ofSchema target).target :=
  ⟨rfl, rfl, rfl⟩

end Targets

/-- Each element that an extraction makes takes exactly the documents that were asked for with its seed, under the
same names, whatever the types that are built in hold.  The source has no substitution groups, no type of it
inherits content through more than one extension, and the target has the namespace and the default form of
elements of the source. -/
theorem extraction_keeps_documents {source target : Schema} (hread : IsRead source)
    (hheads : NoSubstitution source) (honce : ExtendsOnce source) (hspace : target.space = source.space)
    (hform : target.elementForm = source.elementForm) (limit : Nat) {calls : List Call}
    (hglobal : ∀ seed ∈ calls.flatMap Call.seeds, seed.IsGlobal source) {roots : List Place}
    {w : Workspace}
    (hrun : (Call.runAll (.between source target limit) calls).runIn (.ofSchema target) = (.ok roots, w))
    (hitems : w.items = []) :
    List.Forall₂ (fun seed root => ∀ builtin document, Takes builtin source seed.declared [document] ↔
      Takes builtin w.schema (w.store.tree root) [document]) (calls.flatMap Call.seeds) roots := by
  have hs : (Context.between source target limit).source.Proper := hread.proper
  have hfrom (seed : Seed) (hseed : seed ∈ calls.flatMap Call.seeds) :
      seed.IsFrom (Context.between source target limit).source := (hglobal seed hseed).isFrom hs
  have hforms := (sameForms_ofSchema target).trans
    (sameForms_runAll hs hfrom (traced_ofSchema source target) hrun)
  have haligned : (Context.between source target limit).Aligned w.schema :=
    ⟨hforms.space.trans hspace, hforms.elementForm.trans hform, hforms.elementForm.symm⟩
  have htracks := (tracks_ofSchema (.between source target limit) target).calls
    (fun seed hseed => (hfrom seed hseed).hasName) hrun
  rw [List.nil_append, List.nil_append] at htracks
  refine List.forall₂_iff_zip.2 ⟨htracks.represents.roots.length_eq, fun hmem builtin document => ?_⟩
  have hgives := (List.forall₂_iff_zip.1 (htracks.trees hitems)).2 hmem
  exact Seed.agree_inline hs haligned hheads honce (hglobal _ (List.of_mem_zip hmem).1) hgives builtin _

/-- A target with the namespace of the samples. -/
def alignedTarget : Schema := .empty "urn:s" defaultForm defaultForm

def keptCalls : List Call :=
  [.extract (.element orderElement true), .drain, .extract (.type (some "code") codeType true), .drain]

theorem keptCalls_isGlobal : ∀ seed ∈ keptCalls.flatMap Call.seeds, seed.IsGlobal orderSchema := by
  simp [keptCalls, Call.seeds, Seed.IsGlobal, orderSchema, Table.values]

/-- What comes of an element and a type of the sample, with references, a group and an extension below the element. -/
def keptRun : Except Fault (List Place) × Workspace :=
  (Call.runAll (.between orderSchema alignedTarget 60) keptCalls).runIn (.ofSchema alignedTarget)

theorem keptRun_eq : keptRun = (.ok [0, 23], keptRun.2) ∧ keptRun.2.items = [] := by
  have hroots : keptRun.1.toOption = some [0, 23] := by decide +kernel
  have hitems : keptRun.2.items.length = 0 := by decide +kernel
  exact ⟨Reader.run_eq_ok hroots, List.eq_nil_of_length_eq_zero hitems⟩

theorem extraction_keeps_documents_sample :
    NoSubstitution orderSchema ∧ ExtendsOnce orderSchema ∧ keptRun.2.items = [] ∧
    ∀ builtin document, (Takes builtin orderSchema orderElement [document] ↔
      Takes builtin keptRun.2.schema (keptRun.2.store.tree 0) [document]) ∧
      (Takes builtin orderSchema (Seed.type (some "code") codeType true).declared [document] ↔
        Takes builtin keptRun.2.schema (keptRun.2.store.tree 23) [document]) := by
  have hheads : NoSubstitution orderSchema := by decide +kernel
  have honce : ExtendsOnce orderSchema := by decide +kernel
  obtain ⟨hrun, hempty⟩ := keptRun_eq
  have hspace : alignedTarget.space = orderSchema.space := rfl
  have hkeeps := extraction_keeps_documents isRead_orderSchema hheads honce hspace rfl 60 keptCalls_isGlobal hrun hempty
  simp only [keptCalls, List.flatMap_cons, List.flatMap_nil, Call.seeds, List.append_nil, List.nil_append,
    List.singleton_append, List.forall₂_cons] at hkeeps
  exact ⟨hheads, honce, hempty, fun builtin document => ⟨hkeeps.1 builtin document, hkeeps.2.1 builtin document⟩⟩

/-! ## Content that is inherited twice -/

section Chain

theorem settles_extraction {source : Schema} (hs : source.Proper) (target : Schema) {seed : Seed}
    (hseed : seed.IsFrom source) {n : Node}
    (hgives : ∀ limit, (seed.inline (.between source target limit)).Gives n) :
    ∃ least root w, (∀ limit ≥ least, (Call.runAll (.between source target limit) [.extract seed, .drain]).runIn
        (.ofSchema target) = (.ok [root], w)) ∧ w.items = [] ∧ w.store.tree root = n := by
  have hfrom : ∀ seed' ∈ [Call.extract seed, .drain].flatMap Call.seeds, seed'.IsFrom source := by
    simpa [Call.seeds] using hseed
  obtain ⟨least, r, w, hrun, -, hgenuine⟩ := runAll_settles (c := .between source target 0) hs
    [.extract seed, .drain] hfrom (traced_ofSchema source target)
  have hrun' : (Call.runAll (.between source target least) [.extract seed, .drain]).runIn
      (.ofSchema target) = (r, w) := hrun least (Nat.le_refl _)
  obtain ⟨w₁, hregister, -⟩ := register_spec (c := .between source target least) hs hseed (.ofSchema target)
  have hname : seed.HasName := Seed.IsFrom.hasName (c := .between source target least) hseed
  have htracks := (tracks_ofSchema (.between source target least) target).register hname hregister
  have hcalls : (Call.runAll (.between source target least) [.extract seed, .drain]).runIn (.ofSchema target) =
      (drain (.between source target least) >>= fun _ => pure [(Workspace.ofSchema target).store.size]).runIn
        w₁ := by
    simp only [Call.runAll, Call.run, bind_assoc, pure_bind]
    exact Work.runIn_bind_of_ok hregister
  rw [hcalls, Work.runIn_bind] at hrun'
  cases hdrain : (drain (.between source target least)).runIn w₁ with
  | mk result w₂ =>
    rw [hdrain] at hrun'
    cases result with
    | ok _ =>
      cases hrun'
      obtain ⟨htracks', hitems⟩ := htracks.drain hdrain
      have htrees := htracks'.trees hitems
      simp only [List.nil_append, List.forall₂_cons] at htrees
      exact ⟨least, _, _, hrun, hitems, htrees.1.unique (hgives least)⟩
    | error f =>
      cases hrun'
      obtain ⟨p, hp, hlimit, -⟩ := hgenuine f rfl
      obtain ⟨seed', hseed', hnot⟩ := htracks.drain_error hdrain fun hf => hlimit least (by
        rw [hp] at hf
        exact Fault.problem.inj hf)
      rw [List.nil_append, List.mem_singleton] at hseed'
      rw [hseed'] at hnot
      exact absurd (hgives least) (hnot n)

theorem exists_extraction {source : Schema} (hs : source.Proper) (target : Schema) {seed : Seed}
    (hseed : seed.IsFrom source) {n : Node}
    (hgives : ∀ limit, (seed.inline (.between source target limit)).Gives n) :
    ∃ limit root w, (Call.runAll (.between source target limit) [.extract seed, .drain]).runIn
        (.ofSchema target) = (.ok [root], w) ∧ w.items = [] ∧ w.store.tree root = n := by
  obtain ⟨limit, root, w, hrun, hitems, htree⟩ := settles_extraction hs target hseed hgives
  exact ⟨limit, root, w, hrun limit (Nat.le_refl _), hitems, htree⟩

def bareExtension (component : Component) (base : QName) : Node :=
  ⟨.complexType component ⟨false, false⟩ [] none
    (some ⟨.complexContent none (some ⟨.complexDerivation .extension (some base) none [] none⟩)⟩) none⟩

variable {builtin : QName → List Document → Prop} {s : Schema} {co : Component} {q : QName} {n : Node}
  {word : List Document}

theorem takes_bareExtension (hq : q.isBuiltin = false) (hfind : s.find? .types (some q) = some n) :
    Takes builtin s (bareExtension co q) word ↔ Takes builtin s n word := by
  simp [bareExtension, takes_complexType, takes_complexContent, takes_extension, based_named hq hfind,
    holding_iff]

theorem takes_bareExtension_builtin (hq : q.isBuiltin) :
    Takes builtin s (bareExtension co q) word ↔ word = [] := by
  have hbase : ∀ b ∈ some q, b.isBuiltin := by simpa using hq
  simp only [bareExtension, takes_complexType, takes_complexContent, takes_extension_builtin hbase, holding_iff]

/-- A schema with a type that allows one element, an extension of it and an extension of that. -/
def chainDocument : Xml.Element :=
  sampleTag "schema" [("targetNamespace", "urn:s")]
    [sampleTag "complexType" [("name", "A")] [sampleTag "sequence" [] [sampleTag "any" [] []]],
      sampleTag "complexType" [("name", "B")]
        [sampleTag "complexContent" [] [sampleTag "extension" [("base", "A")] []]],
      sampleTag "complexType" [("name", "C")]
        [sampleTag "complexContent" [] [sampleTag "extension" [("base", "B")] []]]]

def chainStart : Node :=
  ⟨.complexType ⟨some "A", true⟩ ⟨false, false⟩ [] none none
    (some ⟨.modelGroup .sequence .once [⟨.wildcard ⟨none, none⟩ .once⟩]⟩)⟩

def chainMiddle : Node := bareExtension ⟨some "B", true⟩ ⟨"urn:s", "A"⟩

def chainEnd : Node := bareExtension ⟨some "C", true⟩ ⟨"urn:s", "B"⟩

/-- What is read from the chain. -/
def chainSchema : Schema :=
  { SchemaOf.empty "urn:s" defaultForm defaultForm with
    types := [(some "A", chainStart), (some "B", chainMiddle), (some "C", chainEnd)] }

theorem isRead_chainSchema : IsRead chainSchema :=
  ⟨chainDocument, #[], #[], rfl⟩

theorem noSubstitution_chainSchema : NoSubstitution chainSchema := by decide +kernel

abbrev chainContext (limit : Nat) : Context := .between chainSchema alignedTarget limit

/-- An element with the type at the end of the chain. -/
def chainSeed : Seed := .type (some "e") chainEnd true

/-- A document with one element of any name inside of the element that is asked for. -/
def chainInstance : Document := .mk ⟨"urn:s", "e"⟩ [.mk ⟨"urn:s", "x"⟩ []]

/-- The copy of the end of the chain has nothing in it of the start. -/
def chainCopy : Node :=
  ⟨Slot.type.fill (bareExtension ⟨none, false⟩ anyType) (blankElement (some "e") true none)⟩

theorem gives_plain {c : Context} {path inside : List ComponentKey} {start r : Shape Node}
    (hstart : outline n = .ok start) (henter : enter path (n.shape.key? c.source.space) = .ok inside)
    (h : (inlineNode c inside n start).Gives r) : (inlineChild c path (.plain n)).Gives ⟨r⟩ := by
  refine gives_child.2 ⟨start, ?_, inside, henter, r, h, rfl⟩
  rw [Child.outline, Child.plain, hstart]
  rfl

section Bare

variable {c : Context} {q' : QName} {name : String}

/-- The base of a base that adds nothing is dropped with a warning. -/
theorem extensionEdits_bare (hq : ¬ q.isBuiltin) (hq' : ¬ q'.isBuiltin)
    (hfind : s.find? .types (some q) = some (bareExtension co q')) :
    ∃ text, extensionEdits s (some q) none [] false = [.warn text, .change (.base (some anyType))] := by
  have hgiven : inherited [] none (some ⟨.complexContent none (some
      ⟨.complexDerivation .extension (some q') none [] none⟩)⟩) none = .ok ⟨none, [], none, some (some q')⟩ := by
    simp [inherited, Node.shape, Shape.content?, Shape.particle?, Shape.attributes?, Shape.base?, hq']
  have hmembers : attributeListEdits s false [(some ⟨.type, q⟩, []), (none, [])] = [] := by
    simp [attributeListEdits, attributeEdits]
  rw [extensionEdits, if_neg hq, hfind]
  simp only [bareExtension, Node.shape, hgiven]
  rw [mergeEdits]
  dsimp only
  rw [hmembers]
  exact ⟨_, rfl⟩

/-- An element with a type that adds nothing to a base that adds nothing. -/
theorem gives_bareExtension (hq : ¬ q.isBuiltin) (hq' : ¬ q'.isBuiltin)
    (hfind : c.source.find? .types (some q) = some (bareExtension co q')) :
    ((Seed.type (some "e") (bareExtension ⟨some name, true⟩ q) true).inline c).Gives
      ⟨Slot.type.fill (bareExtension ⟨none, false⟩ anyType) (blankElement (some "e") true none)⟩ := by
  have hderivation : (inlineChild c [⟨.type, ⟨c.source.space, name⟩⟩]
      (.plain ⟨.complexDerivation .extension (some q) none [] none⟩)).Gives
      ⟨.complexDerivation .extension (some anyType) none [] none⟩ := by
    obtain ⟨text, hedits⟩ := extensionEdits_bare hq hq' hfind
    refine gives_plain rfl rfl ?_
    show (inlineEdits _ _ (extensionEdits c.source (some q) none [] false) _).Gives _
    rw [hedits, inlineEdits_warn, inlineEdits_change, inlineEdits_nil, gives_pure]
    rfl
  have hcontent : (inlineChild c [⟨.type, ⟨c.source.space, name⟩⟩]
      (.plain ⟨.complexContent none (some ⟨.complexDerivation .extension (some q) none [] none⟩)⟩)).Gives
      ⟨.complexContent none (some ⟨.complexDerivation .extension (some anyType) none [] none⟩)⟩ := by
    refine gives_plain rfl rfl (gives_attach.2 ⟨_, hderivation, ?_⟩)
    rw [inlineEdits_nil, gives_pure]
    rfl
  have htype : (inlineChild c [] (.plain (bareExtension ⟨some name, true⟩ q))).Gives
      (bareExtension ⟨none, false⟩ anyType) := by
    have hmembers : attributeEdits c.source true none [] false [] = [] := by rw [attributeEdits]
    refine gives_plain rfl rfl ?_
    show (inlineEdits _ _ (complexTypeEdits c.source true [] none _ none) _).Gives _
    rw [complexTypeEdits, Option.isSome_none, hmembers, List.nil_append]
    refine gives_attach.2 ⟨_, hcontent, ?_⟩
    show (inlineEdits _ _ [] _).Gives _
    rw [inlineEdits_nil, gives_pure]
    rfl
  refine gives_bind.2 ⟨_, gives_attach.2 ⟨_, htype, ?_⟩, gives_pure.2 rfl⟩
  rw [inlineEdits_nil, gives_pure]
  rfl

end Bare

theorem chainSeed_gives (limit : Nat) : (chainSeed.inline (chainContext limit)).Gives chainCopy :=
  gives_bareExtension (by decide) (by decide) rfl

/-- Content that is inherited through two extensions is lost: the type at the end of the chain allows an element in
the source, and no element in the target. -/
theorem extraction_drops_content_inherited_twice :
    IsRead chainSchema ∧ NoSubstitution chainSchema ∧ chainSeed.IsGlobal chainSchema ∧
    ∃ limit root w, (Call.runAll (chainContext limit) [.extract chainSeed, .drain]).runIn
        (.ofSchema alignedTarget) = (.ok [root], w) ∧ w.items = [] ∧
      ∀ builtin, Takes builtin chainSchema chainSeed.declared [chainInstance] ∧
        ¬ Takes builtin w.schema (w.store.tree root) [chainInstance] := by
  have hglobal : chainSeed.IsGlobal chainSchema := by
    simp [chainSeed, Seed.IsGlobal, chainSchema, SchemaOf.empty, Table.values]
  obtain ⟨limit, root, w, hrun, hitems, htree⟩ :=
    exists_extraction isRead_chainSchema.proper alignedTarget (hglobal.isFrom isRead_chainSchema.proper)
      chainSeed_gives
  refine ⟨isRead_chainSchema, noSubstitution_chainSchema, hglobal, limit, root, w, hrun, hitems,
    fun builtin => ⟨?_, ?_⟩⟩
  · have hmiddle : chainSchema.find? .types (some ⟨"urn:s", "B"⟩) = some chainMiddle := rfl
    have hstart : chainSchema.find? .types (some ⟨"urn:s", "A"⟩) = some chainStart := rfl
    refine takes_element.2 ⟨⟨"urn:s", "e"⟩, _, rfl, typed_own.2 ?_, rfl⟩
    rw [chainEnd, takes_bareExtension rfl hmiddle, chainMiddle, takes_bareExtension rfl hstart, chainStart]
    have hany : Occurring builtin chainSchema ⟨.wildcard ⟨none, none⟩ .once⟩ [.mk ⟨"urn:s", "x"⟩ []] :=
      (occurring_once rfl).2 .wildcard
    exact .particle ((occurring_once rfl).2 (.sequence (.cons hany .nil)))
  · rw [htree]
    intro h
    obtain ⟨name, inner, -, htyped, hdocument⟩ := takes_element.1 h
    have hinner : inner = [] := (takes_bareExtension_builtin rfl).1 (typed_own.1 htyped)
    subst hinner
    cases hdocument

end Chain

end PayloadSchema.Extraction
