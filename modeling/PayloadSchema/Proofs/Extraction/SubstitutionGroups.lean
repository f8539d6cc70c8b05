import PayloadSchema.Proofs.Extraction.AcceptedDocuments

/-!
# Heads of substitution groups

An element that is a member of a substitution group is copied as the head of the group, which may be a member of
another group.  Its type is that of the last head.  What else the declarations say is gathered along the way:
the copy may be nil where one of them allows it, its default and its fixed value are the first that are declared, and at
the top of its schema it is abstract where the last head is.
-/

namespace PayloadSchema.Schema

/-- Whether an element leads to the element `last`, which is in no substitution group, by way of the heads of groups.
The declarations are those of all elements that are passed, the first and the last one included. -/
inductive Substitutes (s : Schema) : Node → List ElementDecl → Node → Prop where
  | last {own : Component} {d : ElementDecl} {type : Option Node} (hgroup : d.substitutionGroup = none) :
    Substitutes s ⟨.element own d type⟩ [d] ⟨.element own d type⟩
  | head {own : Component} {d : ElementDecl} {type : Option Node} {q : QName} {head last : Node}
    {ds : List ElementDecl} (hgroup : d.substitutionGroup = some q)
    (hfind : s.find? .elements (some q) = some head) (h : Substitutes s head ds last) :
    Substitutes s ⟨.element own d type⟩ (d :: ds) last

theorem Substitutes.ne_nil {s : Schema} {n last : Node} {ds : List ElementDecl} (h : Substitutes s n ds last) :
    ds ≠ [] := by
  cases h <;> exact List.cons_ne_nil _ _

/-- What the declaration of an element, at the top of its schema or below it, says once it has taken over from others,
the first ones first. -/
structure ElementDecl.TakesOver (topLevel : Bool) (d : ElementDecl) (ds : List ElementDecl) (e : ElementDecl) :
    Prop where
  nillable : e.nillable = (d.nillable || ds.any (·.nillable))
  default : e.default = (d.default <|> ds.findSome? (·.default))
  fixed : e.fixed = (d.fixed <|> ds.findSome? (·.fixed))
  abstract : topLevel → e.abstract = ds.getLast?.any (·.abstract)

end PayloadSchema.Schema

namespace PayloadSchema.Extraction

open Schema Copying

/-! ## Shorter paths -/

section Paths

variable {c : Context} {path path' inside : List ComponentKey} {key : Option ComponentKey}

theorem enter_of_subset (hsub : path' ⊆ path) (h : enter path key = .ok inside) :
    ∃ inside', enter path' key = .ok inside' ∧ inside' ⊆ inside := by
  obtain ⟨rfl, hnew⟩ := enter_eq_ok h
  cases key with
  | none => exact ⟨path', rfl, by simpa using hsub⟩
  | some k =>
    have hk : k ∉ path' := fun hmem => hnew k rfl (hsub hmem)
    refine ⟨path' ++ [k], by simp [enter, hk], ?_⟩
    exact List.append_subset.2 ⟨List.subset_append_of_subset_left _ hsub, List.subset_append_right _ _⟩

/-- Edits that lead to a copy on a path lead to the same one on a part of it, if children and what is followed do. -/
private theorem gives_edits_of_subset {target : Kind} {es : List Edit} {shape r : Shape Node} (hsub : path' ⊆ path)
    (hchild : ∀ e ∈ es, ∀ child ∈ e.children, ∀ m, (inlineChild c path child).Gives m →
      (inlineChild c path' child).Gives m)
    (hfollow : ∀ m, .follow m ∈ es → ∀ inside inside' shape r, shape.kind = target →
      enter path (m.shape.key? c.source.space) = .ok inside → inside' ⊆ inside →
      (inlineNode c inside m shape).Gives r → (inlineNode c inside' m shape).Gives r ∧ r.kind = target)
    (hkind : shape.kind = target) (h : (inlineEdits c path es shape).Gives r) :
    (inlineEdits c path' es shape).Gives r := by
  induction es generalizing shape with
  | nil => simpa using h
  | cons e es ih =>
    obtain ⟨hhere, hchild⟩ := List.forall_mem_cons.1 hchild
    have hnext {shape' : Shape Node} (hkind : shape'.kind = target) (h : (inlineEdits c path es shape').Gives r) :
        (inlineEdits c path' es shape').Gives r :=
      ih hchild (fun m hm => hfollow m (List.mem_cons_of_mem e hm)) hkind h
    cases e with
    | attach slot child =>
      obtain ⟨m, hm, h⟩ := gives_attach.1 h
      exact gives_attach.2 ⟨m, hhere child List.mem_cons_self m hm, hnext (by rw [Slot.kind_fill, hkind]) h⟩
    | attachSequence first second =>
      obtain ⟨a, ha, b, hb, h⟩ := gives_attachSequence.1 h
      have ha' := hhere first List.mem_cons_self a ha
      have hb' := hhere second (by simp [Edit.children]) b hb
      exact gives_attachSequence.2 ⟨a, ha', b, hb', hnext (by rw [Slot.kind_fill, hkind]) h⟩
    | discard child =>
      obtain ⟨⟨m, hm⟩, h⟩ := gives_discard.1 h
      exact gives_discard.2 ⟨⟨m, hhere child List.mem_cons_self m hm⟩, hnext hkind h⟩
    | follow n =>
      obtain ⟨inside, henter, s, hs, h⟩ := gives_follow.1 h
      obtain ⟨inside', henter', hsub'⟩ := enter_of_subset hsub henter
      obtain ⟨hs', hkind'⟩ := hfollow n List.mem_cons_self inside inside' shape s hkind henter hsub' hs
      exact gives_follow.2 ⟨inside', henter', s, hs', hnext hkind' h⟩
    | change change =>
      rw [inlineEdits_change] at h ⊢
      exact hnext (by rw [Change.kind_apply, hkind]) h
    | wildcard w =>
      rw [inlineEdits_wildcard] at h ⊢
      exact hnext (by rw [Shape.kind_withAny, hkind]) h
    | warn text =>
      rw [inlineEdits_warn] at h ⊢
      exact hnext hkind h
    | stop f =>
      rw [inlineEdits_stop] at h
      exact absurd h gives_throw

private theorem gives_child_of_node {child : Child} {kind : Kind} {m : Node} (hsub : path' ⊆ path)
    (hproper : child.origin.Proper) (hcopy : child.origin.shape.kind.copy? = some kind)
    (hnode : ∀ inside inside' shape r, enter path (child.key? c.source.space) = .ok inside → inside' ⊆ inside →
      child.origin.shape.kind.copy? = some shape.kind → (inlineNode c inside child.origin shape).Gives r →
      (inlineNode c inside' child.origin shape).Gives r)
    (h : (inlineChild c path child).Gives m) : (inlineChild c path' child).Gives m := by
  obtain ⟨start, hstart, inside, henter, r, hr, rfl⟩ := gives_child.1 h
  obtain ⟨inside', henter', hsub'⟩ := enter_of_subset hsub henter
  obtain ⟨_, hstart', hcomplete⟩ := complete_outline hproper hcopy
  cases hstart.symm.trans hstart'
  have hcopy' : child.origin.shape.kind.copy? = some start.kind := by rw [hcopy, hcomplete.kind]
  exact gives_child.2 ⟨start, hstart, inside', henter', r, hnode inside inside' start r henter hsub' hcopy' hr, rfl⟩

/-- What a node is copied to on a path it is copied to on a part of the path, where less counts as a circle. -/
theorem gives_node_of_subset {n : Node} {shape r : Shape Node} (hs : c.source.Proper) (hn : n.Proper)
    (hsub : path' ⊆ path) (hcopy : n.shape.kind.copy? = some shape.kind) (h : (inlineNode c path n shape).Gives r) :
    (inlineNode c path' n shape).Gives r := by
  induction hd : depth c.source path n using WellFoundedLT.induction generalizing path path' n shape r with
  | ind d ih =>
    subst hd
    have hlawful := lawful_edits (c := c) hs hn hcopy
    refine gives_edits_of_subset hsub (fun e he child hchild m hm => ?_)
      (fun m hm inside inside' shape' r' hkind henter hsub' hr => ?_) rfl h
    · obtain ⟨kind, hapt⟩ := hlawful.apt he hchild
      exact gives_child_of_node hsub hapt.descends.proper hapt.copy
        (fun inside inside' start r henter hsub' hcopy' hr =>
          ih _ (depth_lt hapt.descends henter) hapt.descends.proper hsub' hcopy' hr rfl) hm
    · have hasked := hlawful.asked _ hm
      have hdesc := hasked.descends _ (List.mem_singleton.2 rfl)
      have hcopy' : m.shape.kind.copy? = some shape'.kind := by
        rw [hkind]
        exact hasked.sensible
      refine ⟨ih _ (depth_lt hdesc henter) hdesc.proper hsub' hcopy' hr rfl, ?_⟩
      rw [(steady_inlineNode hs hdesc.proper hcopy' hr).kind, hkind]

theorem gives_child_of_subset {child : Child} {kind : Kind} {m : Node} (hs : c.source.Proper)
    (hproper : child.origin.Proper) (hcopy : child.origin.shape.kind.copy? = some kind) (hsub : path' ⊆ path)
    (h : (inlineChild c path child).Gives m) : (inlineChild c path' child).Gives m :=
  gives_child_of_node hsub hproper hcopy
    (fun _ _ _ _ _ hsub' hcopy' hr => gives_node_of_subset hs hproper hsub' hcopy' hr) h

end Paths

/-! ## Types of elements -/

/-- The name and the own type of an element that has the type of another one: a type that is built in goes by its
name, and of any other type there is the copy that is made where nothing else is being copied. -/
inductive TypeCopy (c : Context) : Node → Option QName → Option Node → Prop where
  | builtin {own : Component} {d : ElementDecl} {type : Option Node} {q : QName} (hname : d.typeName = some q)
    (hbuiltin : q.isBuiltin) : TypeCopy c ⟨.element own d type⟩ (some q) none
  | named {own : Component} {d : ElementDecl} {type : Option Node} {q : QName} {t m : Node}
    (hname : d.typeName = some q) (hbuiltin : ¬ q.isBuiltin) (hfind : c.source.find? .types (some q) = some t)
    (hcopy : (inlineChild c [] (.plain t)).Gives m) : TypeCopy c ⟨.element own d type⟩ none (some m)
  | own {own : Component} {d : ElementDecl} {t m : Node} (hname : d.typeName = none)
    (hcopy : (inlineChild c [] (.plain t)).Gives m) : TypeCopy c ⟨.element own d (some t)⟩ none (some m)
  | none {own : Component} {d : ElementDecl} (hname : d.typeName = none) :
    TypeCopy c ⟨.element own d none⟩ none none

section First

variable {α β : Type}

private theorem findSome?_cons_orElse (f : α → Option β) (a : α) (as : List α) :
    (a :: as).findSome? f = (f a <|> as.findSome? f) := by
  rw [List.findSome?_cons]
  cases f a <;> rfl

end First

section Heads

variable {c : Context} {path : List ComponentKey} {own own' : Component} {d e : ElementDecl} {type type' : Option Node}
  {ds : List ElementDecl} {n last : Node} {r : Shape Node}

theorem typeCopy_typeEdits (hs : c.source.Proper) (hn : (⟨.element own d type⟩ : Node).Proper)
    (hgroup : d.substitutionGroup = none)
    (h : (inlineEdits c path (typeEdits c.source false d.typeName type) (.element own' e type')).Gives r) :
    ∃ q m, r = .element own' { e with typeName := q } m ∧ TypeCopy c ⟨.element own d type⟩ q m := by
  have hnamed {q : Option QName} (hedits : typeEdits c.source false d.typeName type = [.change (.typeName q)]) :
      r = .element own' { e with typeName := q } none := by
    rw [hedits, inlineEdits_change, inlineEdits_nil, gives_pure] at h
    exact h.symm
  have hattach {t : Node} (hedits : typeEdits c.source false d.typeName type = [.attach .type (.plain t)]) :
      ∃ m, r = .element own' { e with typeName := none } (some m) ∧ (inlineChild c [] (.plain t)).Gives m := by
    have hmem : .attach .type (.plain t) ∈ edits c .element ⟨.element own d type⟩ := by
      change _ ∈ elementEdits c.source .element d type
      simp [elementEdits, hgroup, hedits]
    obtain ⟨kind, hapt⟩ := (lawful_edits (c := c) hs hn rfl).apt hmem List.mem_cons_self
    rw [hedits] at h
    obtain ⟨m, hm, h⟩ := gives_attach.1 h
    rw [inlineEdits_nil, gives_pure] at h
    exact ⟨m, h.symm, gives_child_of_subset hs hapt.descends.proper hapt.copy (List.nil_subset _) hm⟩
  cases hname : d.typeName with
  | some q =>
    by_cases hbuiltin : q.isBuiltin
    · exact ⟨_, _, hnamed (by simp [typeEdits, hname, hbuiltin]), .builtin hname hbuiltin⟩
    · cases hfind : c.source.find? .types (some q) with
      | none =>
        simp only [hname, typeEdits, if_neg hbuiltin, hfind, Edit.fail, inlineEdits_stop] at h
        exact absurd h gives_throw
      | some t =>
        have hedits : typeEdits c.source false d.typeName type = [.attach .type (.plain t)] := by
          simp [typeEdits, hname, hbuiltin, hfind]
        obtain ⟨m, hr, hcopy⟩ := hattach hedits
        exact ⟨_, _, hr, .named hname hbuiltin hfind hcopy⟩
  | none =>
    cases type with
    | some t =>
      obtain ⟨m, hr, hcopy⟩ := hattach (by rw [hname, typeEdits])
      exact ⟨_, _, hr, .own hname hcopy⟩
    | none => exact ⟨_, _, hnamed (by rw [hname, typeEdits]), .none hname⟩

/-- A place takes over from each declaration on the way to the last head, in order, and gets the type of that. -/
theorem takesOver_followEdits (hs : c.source.Proper) (hn : n.Proper) (hchain : Substitutes c.source n ds last)
    (h : (inlineEdits c path (followEdits .element n) (.element own' e type')).Gives r) :
    ∃ e' m, r = .element own' e' m ∧ e.TakesOver own'.topLevel ds e' ∧ TypeCopy c last e'.typeName m := by
  induction hchain generalizing path e type' with
  | @last own d type hgroup =>
    change (inlineEdits c path [.change (.element d), .follow ⟨.element own d type⟩] _).Gives r at h
    rw [inlineEdits_change] at h
    obtain ⟨inside, -, s, hnode, h⟩ := gives_follow.1 h
    rw [inlineEdits_nil, gives_pure] at h
    subst h
    change (inlineEdits c inside (elementEdits c.source .element d type) _).Gives s at hnode
    rw [elementEdits, hgroup] at hnode
    obtain ⟨q, m, rfl, htype⟩ := typeCopy_typeEdits hs hn hgroup hnode
    exact ⟨_, m, rfl, ⟨by simp, by simp, by simp, fun htop => by simp [htop]⟩, htype⟩
  | @head own d type q head last ds hgroup hfind hchain ih =>
    change (inlineEdits c path [.change (.element d), .follow ⟨.element own d type⟩] _).Gives r at h
    rw [inlineEdits_change] at h
    obtain ⟨inside, -, s, hnode, h⟩ := gives_follow.1 h
    rw [inlineEdits_nil, gives_pure] at h
    subst h
    change (inlineEdits c inside (elementEdits c.source .element d type) _).Gives s at hnode
    simp only [elementEdits, hgroup, hfind] at hnode
    obtain ⟨e', m, hr, htakes, htype⟩ := ih (hs.find hfind).2.proper hnode
    refine ⟨e', m, hr, ⟨?_, ?_, ?_, fun htop => ?_⟩, htype⟩
    · rw [htakes.nillable, List.any_cons, Bool.or_assoc]
    · rw [htakes.default, findSome?_cons_orElse]
      simp [Option.or_assoc]
    · rw [htakes.fixed, findSome?_cons_orElse]
      simp [Option.or_assoc]
    · rw [htakes.abstract htop, List.getLast?_cons_of_ne_nil hchain.ne_nil]

end Heads

/-! ## Members of substitution groups -/

/-- An element at the top of a source that leads to a last head is extracted as an element of its own name with the
type of that head.  It is abstract where the last head is, whatever it says itself.  It may be nil where some
declaration on the way says so, and its default and its fixed value are the first ones that are declared there, so they
can come from different declarations. -/
theorem extraction_gathers_heads {source target : Schema} (hread : IsRead source) (limit : Nat) {calls : List Call}
    (hglobal : ∀ seed ∈ calls.flatMap Call.seeds, seed.IsGlobal source) {roots : List Place} {w : Workspace}
    (hrun : (Call.runAll (.between source target limit) calls).runIn (.ofSchema target) = (.ok roots, w))
    (hitems : w.items = []) :
    List.Forall₂ (fun seed root => ∀ own d type ds last, seed = .element ⟨.element own d type⟩ true →
      Substitutes source ⟨.element own d type⟩ ds last →
      ∃ e type', (w.store.tree root).shape = .element ⟨own.name, true⟩ e type' ∧
        TypeCopy (.between source target limit) last e.typeName type' ∧
        e.abstract = ds.getLast?.any (·.abstract) ∧ e.nillable = ds.any (·.nillable) ∧
        e.default = ds.findSome? (·.default) ∧ e.fixed = ds.findSome? (·.fixed))
      (calls.flatMap Call.seeds) roots := by
  have hs : (Context.between source target limit).source.Proper := hread.proper
  have hfrom (seed : Seed) (hseed : seed ∈ calls.flatMap Call.seeds) :
      seed.IsFrom (Context.between source target limit).source := (hglobal seed hseed).isFrom hs
  have htracks := (tracks_ofSchema (.between source target limit) target).calls
    (fun seed hseed => (hfrom seed hseed).hasName) hrun
  rw [List.nil_append, List.nil_append] at htracks
  refine List.forall₂_iff_zip.2 ⟨htracks.represents.roots.length_eq, fun hmem own d type ds last hseed hchain => ?_⟩
  have hgives := (List.forall₂_iff_zip.1 (htracks.trees hitems)).2 hmem
  have hproper := (hfrom _ (List.of_mem_zip hmem).1).proper hs
  subst hseed
  obtain ⟨r, hr, htree⟩ := gives_bind.1 hgives
  rw [gives_pure] at htree
  change (inlineEdits _ [] (followEdits .element ⟨.element own d type⟩) (blankElement own.name true none)).Gives r at hr
  rw [blankElement] at hr
  obtain ⟨e, type', rfl, htakes, htype⟩ :=
    takesOver_followEdits (c := .between source target limit) hs hproper hchain hr
  refine ⟨e, type', by rw [← htree]; rfl, htype, htakes.abstract rfl, ?_, ?_, ?_⟩
  · rw [htakes.nillable, Bool.false_or]
  · rw [htakes.default]
    rfl
  · rw [htakes.fixed]
    rfl

/-! ### A member of a group whose head is in a group -/

section Sample

def headTag (name : String) (attributes : List (String × String)) : Xml.Element :=
  sampleTag "element" (("name", name) :: attributes) []

/-- A member of a group with a fixed value, its head, and the head of that, which is abstract and has a default. -/
def groupedDocument : Xml.Element :=
  sampleTag "schema" [("targetNamespace", "urn:s")]
    [headTag "M" [("substitutionGroup", "G"), ("fixed", "f")], headTag "G" [("substitutionGroup", "H")],
      headTag "H" [("type", "xs:string"), ("nillable", "true"), ("default", "d"), ("abstract", "true")]]

def memberDecl : ElementDecl :=
  ⟨none, some ⟨"urn:s", "G"⟩, .once, false, false, none, some "f", none⟩

def headDecl : ElementDecl :=
  ⟨none, some ⟨"urn:s", "H"⟩, .once, false, false, none, none, none⟩

def lastDecl : ElementDecl :=
  ⟨some (xsd "string"), none, .once, true, true, some "d", none, none⟩

/-- An element at the top of a schema. -/
def declaredElement (name : String) (d : ElementDecl) : Node :=
  ⟨.element ⟨some name, true⟩ d none⟩

/-- What is read from the document. -/
def groupedSchema : Schema :=
  { SchemaOf.empty "urn:s" defaultForm defaultForm with
    elements := [(some "M", declaredElement "M" memberDecl), (some "G", declaredElement "G" headDecl),
      (some "H", declaredElement "H" lastDecl)] }

theorem isRead_groupedSchema : IsRead groupedSchema :=
  ⟨groupedDocument, #[], #[], rfl⟩

def memberSeed : Seed := .element (declaredElement "M" memberDecl) true

theorem memberSeed_isGlobal : memberSeed.IsGlobal groupedSchema := by
  simp [memberSeed, Seed.IsGlobal, groupedSchema, Table.values]

theorem substitutes_member : Substitutes groupedSchema (declaredElement "M" memberDecl)
    [memberDecl, headDecl, lastDecl] (declaredElement "H" lastDecl) :=
  .head rfl rfl (.head rfl rfl (.last rfl))

/-- What comes of the member when it is asked for and the queue is drained. -/
def memberRun : Except Fault (List Place) × Workspace :=
  (Call.runAll (.between groupedSchema alignedTarget 10) [.extract memberSeed, .drain]).runIn (.ofSchema alignedTarget)

theorem memberRun_eq : memberRun = (.ok [0], memberRun.2) ∧ memberRun.2.items = [] := by
  have hroots : memberRun.1.toOption = some [0] := by decide +kernel
  have hitems : memberRun.2.items.length = 0 := by decide +kernel
  exact ⟨Reader.run_eq_ok hroots, List.eq_nil_of_length_eq_zero hitems⟩

/-- Whether an element is abstract and may be nil, and its default and its fixed value, if a construct is one. -/
def constraints {α : Type} : Shape α → Option (Bool × Bool × Option String × Option String)
  | .element _ d _ => some (d.abstract, d.nillable, d.default, d.fixed)
  | _ => none

/-- The member takes more than a type from the heads: it is abstract, may be nil and has a default, though its own
declaration says nothing of the kind, and it has both a default and a fixed value, though no declaration has both. -/
theorem extraction_mixes_declarations :
    IsRead groupedSchema ∧ memberSeed.IsGlobal groupedSchema ∧
    Substitutes groupedSchema (declaredElement "M" memberDecl) [memberDecl, headDecl, lastDecl]
      (declaredElement "H" lastDecl) ∧
    memberRun = (.ok [0], memberRun.2) ∧ memberRun.2.items = [] ∧
    constraints (declaredElement "M" memberDecl).shape = some (false, false, none, some "f") ∧
    constraints (memberRun.2.store.tree 0).shape = some (true, true, some "d", some "f") ∧
    ∀ n ∈ groupedSchema.elements.values, ∀ own d type, n.shape = .element own d type →
      d.default = none ∨ d.fixed = none := by
  have hvalues : constraints (memberRun.2.store.tree 0).shape = some (true, true, some "d", some "f") := by
    decide +kernel
  refine ⟨isRead_groupedSchema, memberSeed_isGlobal, substitutes_member, memberRun_eq.1, memberRun_eq.2, rfl, hvalues,
    ?_⟩
  intro n hn own d type hshape
  simp only [groupedSchema, Table.values, List.map_cons, List.map_nil, List.mem_cons, List.not_mem_nil,
    or_false] at hn
  rcases hn with rfl | rfl | rfl <;> cases hshape
  · exact .inl rfl
  · exact .inl rfl
  · exact .inr rfl

theorem extraction_gathers_heads_sample :
    ∃ e type, (memberRun.2.store.tree 0).shape = .element ⟨some "M", true⟩ e type ∧
      TypeCopy (.between groupedSchema alignedTarget 10) (declaredElement "H" lastDecl) e.typeName type ∧
      e.abstract = true ∧ e.nillable = true ∧ e.default = some "d" ∧ e.fixed = some "f" := by
  obtain ⟨hrun, hitems⟩ := memberRun_eq
  have hgathers := extraction_gathers_heads isRead_groupedSchema 10
    (by simpa [Call.seeds] using memberSeed_isGlobal) hrun hitems
  simp only [List.flatMap_cons, List.flatMap_nil, Call.seeds, List.append_nil, List.forall₂_cons] at hgathers
  exact hgathers.1 _ _ _ _ _ rfl substitutes_member

end Sample

end PayloadSchema.Extraction
