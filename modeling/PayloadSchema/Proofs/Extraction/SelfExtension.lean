import PayloadSchema.Proofs.Extraction.SubstitutionGroups
import PayloadSchema.Proofs.Schema.EffectiveAttributes

/-!
# Types that extend themselves

An extension is copied with what its base gives to it, and that is copied as a part of the base.  So a type that
extends itself comes back to itself as soon as it has anything to give.  A longer circle of bases is not followed:
what the base inherits in turn is dropped.
-/

namespace PayloadSchema.Schema

open Extraction

/-- Whether a complex type extends another one by complex content, and the particle and the attributes that it gives
to its own extensions. -/
inductive Extends : Node → QName → Option Node → List Node → Prop where
  | mk {co : Component} {d : ComplexDecl} {beside members : List Node} {any wild own inner : Option Node}
    {mixed : Option Bool} {q : QName} (hq : ¬ q.isBuiltin) :
    Extends ⟨.complexType co d beside any (some ⟨.complexContent mixed (some
      ⟨.complexDerivation .extension (some q) inner members wild⟩)⟩) own⟩ q (own <|> inner) (beside ++ members)

theorem Extends.not_isBuiltin {t : Node} {q : QName} {p : Option Node} {attributes : List Node}
    (h : Extends t q p attributes) : ¬ q.isBuiltin := by
  cases h with
  | mk hq => exact hq

/-- Whether there is an attribute or a particle of its own among what a type gives to its extensions.  A reference to a
group is no such particle, since what it stands for is a part of the group. -/
def PassesOn (s : Schema) (particle : Option Node) (attributes : List Node) : Prop :=
  (∃ flat, Flattens s attributes flat ∧ flat ≠ []) ∨ ∃ p ∈ particle, p.shape.kind ≠ .groupRef

/-- The type with nothing to inherit from, if it is an extension by complex content. -/
def Node.detached : Node → Node
  | ⟨.complexType co d beside any (some ⟨.complexContent mixed (some
      ⟨.complexDerivation .extension _ inner members wild⟩)⟩) own⟩ =>
    ⟨.complexType co d beside any (some ⟨.complexContent mixed (some
      ⟨.complexDerivation .extension (some anyType) inner members wild⟩)⟩) own⟩
  | n => n

end PayloadSchema.Schema

namespace PayloadSchema.Extraction

open Schema Copying

/-! ## Edits that lead to a copy -/

section Edits

variable {c : Context} {s : Schema} {path : List ComponentKey} {key : Option ComponentKey} {met : List QName}
  {es : List Edit} {shape r : Shape Node} {hasAny : Bool} {members flat : List Node}

/-- Edits that lead to a copy do not stop, and each of their children is copied. -/
theorem gives_children (h : (inlineEdits c path es shape).Gives r) :
    (∀ f, .stop f ∉ es) ∧ ∀ e ∈ es, ∀ child ∈ e.children, ∃ n, (inlineChild c path child).Gives n := by
  induction es generalizing shape with
  | nil => simp
  | cons e es ih =>
    have hnext {shape' : Shape Node} (hgoes : ∀ f, e ≠ .stop f)
        (hchild : ∀ child ∈ e.children, ∃ n, (inlineChild c path child).Gives n)
        (h : (inlineEdits c path es shape').Gives r) :
        (∀ f, .stop f ∉ e :: es) ∧
          ∀ e' ∈ e :: es, ∀ child ∈ e'.children, ∃ n, (inlineChild c path child).Gives n := by
      obtain ⟨hstop, hchildren⟩ := ih h
      refine ⟨fun f hf => ?_, List.forall_mem_cons.2 ⟨hchild, hchildren⟩⟩
      rcases List.mem_cons.1 hf with hf | hf
      · exact hgoes f hf.symm
      · exact hstop f hf
    cases e with
    | attach slot child =>
      obtain ⟨n, hn, h⟩ := gives_attach.1 h
      exact hnext (by simp) (by simpa [Edit.children] using ⟨n, hn⟩) h
    | attachSequence first second =>
      obtain ⟨a, ha, b, hb, h⟩ := gives_attachSequence.1 h
      exact hnext (by simp) (by simpa [Edit.children] using ⟨⟨a, ha⟩, b, hb⟩) h
    | discard child =>
      obtain ⟨hn, h⟩ := gives_discard.1 h
      exact hnext (by simp) (by simpa [Edit.children] using hn) h
    | follow n =>
      obtain ⟨_, -, s, -, h⟩ := gives_follow.1 h
      exact hnext (by simp) (by simp [Edit.children]) h
    | change change =>
      rw [inlineEdits_change] at h
      exact hnext (by simp) (by simp [Edit.children]) h
    | wildcard w =>
      rw [inlineEdits_wildcard] at h
      exact hnext (by simp) (by simp [Edit.children]) h
    | warn text =>
      rw [inlineEdits_warn] at h
      exact hnext (by simp) (by simp [Edit.children]) h
    | stop f =>
      rw [inlineEdits_stop] at h
      exact absurd h gives_throw

/-- Where there is an attribute, one is copied under the key of what it is copied from. -/
theorem exists_attach_of_flattens (h : Flattens s members flat) (hne : flat ≠ [])
    (hstop : ∀ f, .stop f ∉ attributeEdits s true key met hasAny members) :
    ∃ n, .attach .attribute ⟨n, key, none⟩ ∈ attributeEdits s true key met hasAny members := by
  revert flat
  fun_induction attributeEdits s true key met hasAny members with
  | case1 =>
    rintro flat ⟨⟩ hne
    exact absurd rfl hne
  | case5 met hasAny n ns q hshape g hfind hnew inner any hinner hany here hasAny' wild ihinner =>
    rename_i ihrest
    intro flat h hne
    obtain ⟨shape⟩ := n
    obtain rfl : shape = .attributeGroupRef (some q) := hshape
    simp only [List.mem_append, not_or] at hstop
    cases h with
    | own hown => exact absurd rfl hown
    | @group _ _ _ _ first flat hfind' hinner' hfirst hothers =>
      cases hfind.symm.trans hfind'
      cases hinner.symm.trans hinner'
      by_cases hempty : first = []
      · rw [hempty, List.nil_append] at hne
        obtain ⟨n, hn⟩ := ihrest (fun f => (hstop f).2) hothers hne
        exact ⟨n, List.mem_append_right _ hn⟩
      · obtain ⟨n, hn⟩ := ihinner (fun f => (hstop f).1.1) hfirst hempty
        exact ⟨n, List.mem_append_left _ (List.mem_append_left _ hn)⟩
  | case7 met hasAny n ns => exact fun _ _ => ⟨n, List.mem_cons_self⟩
  | case8 met hasAny n ns haccepts => exact absurd rfl haccepts
  | _ => exact absurd List.mem_cons_self (hstop _)

theorem not_gives_child {child : Child} {k : ComponentKey} (hkey : child.key = some k) (hk : k ∈ path) (n : Node) :
    ¬ (inlineChild c path child).Gives n := by
  intro h
  obtain ⟨_, -, inside, henter, -⟩ := gives_child.1 h
  obtain ⟨-, hnew⟩ := enter_eq_ok henter
  exact hnew k (by simp [Child.key?, hkey]) hk

/-- Where there is a particle of its own, it is copied under the key of what it is copied from. -/
theorem exists_mergedParticleEdits {k : ComponentKey} {p : Node} {own : Option Node}
    (hp : p.shape.kind ≠ .groupRef) (hstop : ∀ f, .stop f ∉ mergedParticleEdits s k (some p) own) :
    ∃ e ∈ mergedParticleEdits s k (some p) own, ⟨p, some k, none⟩ ∈ e.children := by
  have hfirst : particleChild? s (some k) (some p) = .ok (some ⟨p, some k, none⟩) ∨
      ∃ f, particleChild? s (some k) (some p) = .error f := by
    obtain ⟨shape⟩ := p
    cases shape with
    | groupRef => exact absurd rfl hp
    | modelGroup order => cases order <;> simp [particleChild?, particleChild, Node.shape, Except.map]
    | _ => simp [particleChild?, particleChild, Node.shape, Except.map]
  rcases hfirst with hfirst | ⟨f, hf⟩
  · cases hown : particleChild? s none own with
    | error f => exact absurd (by simp [mergedParticleEdits, hfirst, hown]) (hstop f)
    | ok second =>
      cases second with
      | none => exact ⟨.attach .particle ⟨p, some k, none⟩, by simp [mergedParticleEdits, hfirst, hown],
          List.mem_singleton_self _⟩
      | some second => exact ⟨.attachSequence ⟨p, some k, none⟩ second,
          by simp [mergedParticleEdits, hfirst, hown], List.mem_cons_self⟩
  · exact absurd (by simp [mergedParticleEdits, hf]) (hstop f)

/-- What is taken over from a component on the path is not copied. -/
theorem not_gives_mergeEdits {q : QName} {given : Inherited} {particle : Option Node}
    (hpasses : PassesOn c.source given.particle given.attributes) (hq : ⟨.type, q⟩ ∈ path) :
    ¬ (inlineEdits c path (mergeEdits c.source q given particle members hasAny) shape).Gives r := by
  intro h
  obtain ⟨hstop, hchildren⟩ := gives_children h
  simp only [mergeEdits, attributeListEdits, List.mem_append, List.mem_cons, not_or] at hstop hchildren
  rcases hpasses with ⟨flat, hflat, hne⟩ | ⟨p, hp, hkind⟩
  · obtain ⟨n, hn⟩ := exists_attach_of_flattens hflat hne fun f => (hstop f).1.1.2.2.1
    obtain ⟨m, hm⟩ := hchildren _ (.inl (.inl (.inr (.inr (.inl hn))))) _ List.mem_cons_self
    exact not_gives_child rfl hq m hm
  · rw [Option.mem_def.1 hp] at hstop hchildren
    obtain ⟨e, he, hchild⟩ := exists_mergedParticleEdits hkind fun f => (hstop f).2
    obtain ⟨m, hm⟩ := hchildren e (.inr he) _ hchild
    exact not_gives_child rfl hq m hm

end Edits

/-! ## Extensions of extensions -/

section Extensions

variable {c : Context} {s : Schema} {path : List ComponentKey} {q q' : QName} {b t m n : Node}
  {particle p : Option Node} {members attributes : List Node} {hasAny : Bool}

/-- An extension takes over what the base declares itself.  What the base inherits is dropped, if there is any. -/
theorem extensionEdits_extends (hq : ¬ q.isBuiltin) (hext : Extends b q' p attributes)
    (hfind : s.find? .types (some q) = some b) :
    extensionEdits s (some q) particle members hasAny =
      mergeEdits s q ⟨p, attributes, b.shape.any?.join, some (some q')⟩ particle members hasAny := by
  cases hext with
  | @mk co d beside inherited any wild own inner mixed _ hq' =>
    rw [extensionEdits, if_neg hq, hfind]
    cases own <;> simp [Extraction.inherited, Node.shape, Shape.content?, Shape.particle?, Shape.attributes?,
      Shape.base?, Shape.any?, hq']

/-- What a base has that inherits nothing is all that is taken over from it. -/
theorem extensionEdits_of_detached (hq : ¬ q.isBuiltin) (hext : Extends b q' p attributes)
    (hfind : s.find? .types (some q) = some b.detached) :
    extensionEdits s (some q) particle members hasAny =
      mergeEdits s q ⟨p, attributes, b.shape.any?.join, none⟩ particle members hasAny := by
  have hany : anyType.isBuiltin := by decide
  cases hext with
  | @mk co d beside inherited any wild own inner mixed _ hq' =>
    rw [extensionEdits, if_neg hq, hfind]
    cases own <;> simp [Node.detached, Extraction.inherited, Node.shape, Shape.content?, Shape.particle?,
      Shape.attributes?, Shape.base?, Shape.any?, hany]

/-- What attributes are copied does not depend on the types of a schema. -/
theorem attributeEdits_put {name : Option String} {accepts : Bool} {key : Option ComponentKey} {met : List QName} :
    attributeEdits (s.put .types name b) accepts key met hasAny members =
      attributeEdits s accepts key met hasAny members := by
  have hfind (q : Option QName) : (s.put .types name b).find? .attributeGroups q = s.find? .attributeGroups q := rfl
  fun_induction attributeEdits s accepts key met hasAny members <;> rw [attributeEdits] <;> grind

theorem attributeListEdits_put {name : Option String} {lists : List (Option ComponentKey × List Node)} :
    attributeListEdits (s.put .types name b) hasAny lists = attributeListEdits s hasAny lists := by
  induction lists generalizing hasAny with
  | nil => rfl
  | cons l lists ih => rw [attributeListEdits, attributeListEdits, attributeEdits_put, ih]

theorem mergeEdits_put {name : Option String} {given : Inherited} :
    mergeEdits (s.put .types name b) q given particle members hasAny =
      mergeEdits s q given particle members hasAny := by
  rw [mergeEdits, mergeEdits, attributeListEdits_put]
  rfl

/-- The warning that what a base inherits from another one is dropped. -/
def droppedWarning (q q' : QName) : Edit :=
  .warn ("Only one level of inheritance is merged for " ++ q.toText ++ ", content inherited from " ++ q'.toText ++
    " is dropped")

/-- An extension of an extension is copied as if its base had nothing to inherit from, with a warning. -/
theorem extensionEdits_detached (hq : ¬ q.isBuiltin) (hfind : s.find? .types (some q) = some b)
    (hext : Extends b q' p attributes) :
    extensionEdits s (some q) particle members hasAny =
      droppedWarning q q' ::
        extensionEdits (s.put .types (some q.name) b.detached) (some q) particle members hasAny := by
  have hspace : q.space = s.space := (SchemaOf.mem_of_find? hfind).1
  have hfind' : (s.put .types (some q.name) b.detached).find? .types (some q) = some b.detached := by
    have hspace' : q.space = (s.put .types (some q.name) b.detached).space := hspace
    rw [SchemaOf.find?, if_pos hspace']
    exact Table.get?_put_self _ _ _
  rw [extensionEdits_extends hq hext hfind, extensionEdits_of_detached hq hext hfind', mergeEdits_put]
  rfl

/-- The copy of a child that stands for itself is the copy of its node, inside of its component. -/
theorem gives_node_of_plain {k : List ComponentKey} (hk : (n.shape.key? c.source.space).toList = k)
    (h : (inlineChild c path (.plain n)).Gives m) :
    ∃ start r, outline n = .ok start ∧ (inlineEdits c (path ++ k) (edits c start.kind n) start).Gives r := by
  obtain ⟨start, hstart, inside, henter, r, hr, -⟩ := gives_child.1 h
  obtain ⟨rfl, -⟩ := enter_eq_ok henter
  obtain ⟨start', houtline, hpure⟩ := Reader.bind_eq_ok.1 hstart
  cases hpure
  exact ⟨_, r, houtline, hk ▸ hr⟩

theorem exists_complexTypeEdits (s : Schema) (accepts : Bool) (attributes : List Node) (any : Option Node)
    (model : Node) (particle : Option Node) :
    ∃ e ∈ complexTypeEdits s accepts attributes any (some model) particle, .plain model ∈ e.children := by
  cases accepts with
  | true => exact ⟨.attach .model (.plain model), by simp [complexTypeEdits], List.mem_cons_self⟩
  | false => exact ⟨.discard (.plain model), by simp [complexTypeEdits], List.mem_cons_self⟩

/-- A type that extends itself is never copied, if it has anything to give. -/
theorem not_gives_self (hs : c.source.Proper) (hfind : c.source.find? .types (some q) = some t)
    (hext : Extends t q p attributes) (hpasses : PassesOn c.source p attributes) :
    ¬ (inlineChild c path (.plain t)).Gives m := by
  intro h
  obtain ⟨hspace, hentry⟩ := hs.find hfind
  have hkey : (t.shape.key? c.source.space).toList = [⟨.type, q⟩] := by
    obtain ⟨⟨kind, name⟩, hk, hcomponent⟩ := hentry.key? hspace (by simp)
    rw [hk]
    cases kind <;> cases hcomponent
    rfl
  obtain ⟨start, r, -, hr⟩ := gives_node_of_plain hkey h
  have hext' := hext
  cases hext with
  | @mk co d beside inherited any wild own inner mixed _ hq =>
    obtain ⟨e, he, hmodel⟩ := exists_complexTypeEdits c.source (decide (start.kind = .complexType)) beside any
      ⟨.complexContent mixed (some ⟨.complexDerivation .extension (some q) inner inherited wild⟩)⟩ own
    obtain ⟨model, hmodel⟩ := (gives_children hr).2 e he _ hmodel
    obtain ⟨_, r', -, hr'⟩ := gives_node_of_plain (k := []) rfl hmodel
    obtain ⟨derived, hderived, -⟩ := gives_attach.1 hr'
    obtain ⟨_, r'', -, hr''⟩ := gives_node_of_plain (k := []) rfl hderived
    change (inlineEdits c _ (extensionEdits c.source (some q) inner inherited wild.isSome) _).Gives r'' at hr''
    rw [extensionEdits_extends hq hext' hfind] at hr''
    exact not_gives_mergeEdits hpasses (by simp) hr''

end Extensions

/-! ## Circles as the only problem -/

def Circular (f : Fault) : Prop :=
  ∃ p, f = .problem p ∧ p.errorClass = .circularReference

/-- Whether copying meets no problem but circles in a source: no rule for a node of it stops with anything else. -/
def OnlyCircles (s : Schema) : Prop :=
  ∀ (c : Context) n kind, c.source = s → Contains s n → n.shape.kind.copy? = some kind →
    ∀ f, .stop f ∈ edits c kind n → Circular f

section Faults

variable {c : Context} {w w' : Workspace} {item : WorkItem} {rest : List WorkItem} {q : Queue WorkItem} {f : Fault}
  {path : List ComponentKey} {key : Option ComponentKey} {calls : List Call}

theorem circular_enter (h : enter path key = .error f) : Circular f := by
  cases key with
  | none => cases h
  | some k =>
    rw [enter] at h
    split at h <;> cases h
    exact ⟨_, rfl, rfl⟩

/-- To handle an item fails where its rule stops or where it comes back to its path. -/
theorem circular_handle (hs : c.source.Proper) (honly : OnlyCircles c.source) (hw : w.Traced c.source)
    (hitems : w.items = item :: rest) (h : (handle c item).runIn (w.taken q) = (.error f, w')) : Circular f := by
  obtain ⟨htraced, hawaits⟩ := hw item (by simp [hitems])
  have hasked := (lawful_edits (c := c) hs htraced.proper hawaits.copy).asked
  have hplace : item.place < (w.taken q).store.size := hawaits.inside
  have hrun : Enqueues item.path _ _ _ ((performAll c item.path item.place
      (edits c (w.store.get item.place).kind item.origin)).runIn (w.taken q)) :=
    enqueues_performAll hplace fun e he => (hasked e he).sensible
  rw [runIn_handle] at h
  rcases hrun.fault f (congrArg Prod.fst h) with hstop | ⟨_, -, henter⟩
  · obtain ⟨e, he, hstop⟩ := List.mem_flatMap.1 hstop
    cases e with
    | stop f' =>
      obtain rfl := List.mem_singleton.1 hstop
      exact honly c item.origin _ rfl htraced.contained hawaits.copy _ he
    | _ => cases hstop
  · exact circular_enter henter

theorem circular_runAll (hs : c.source.Proper) (honly : OnlyCircles c.source)
    (hfrom : ∀ seed ∈ calls.flatMap Call.seeds, seed.IsFrom c.source) (hw : w.Traced c.source)
    (h : (Call.runAll c calls).runIn w = (.error f, w')) : f = .problem (.workLimit c.limit) ∨ Circular f := by
  have hleads : Leads (Workspace.Traced c.source) (fun f => f = .problem (.workLimit c.limit) ∨ Circular f)
      ((Call.runAll c calls).runIn w) := by
    refine leads_runAll hs hfrom (fun hw hseed hrun => ?_) (fun budget hw => ?_) hw
    · obtain ⟨_, hregister, -, htraced⟩ := register_spec hs hseed _
      cases hrun.symm.trans hregister
      exact htraced hw
    · refine leads_drainWithin (fun hw hnext hrun => ⟨?_, fun f hf => ?_⟩) (fun hw hnext i hi => ?_) hw budget
      · exact (handle_spec hs hw (items_of_next? hnext) rfl hrun).1
      · subst hf
        exact circular_handle hs honly hw (items_of_next? hnext) hrun
      · exact hw i (by rw [items_of_next? hnext]; exact List.mem_cons_of_mem _ hi)
  rw [h] at hleads
  exact hleads.fair f rfl

end Faults

/-! ## Elements of a type that extends itself -/

/-- Whether a new element is asked for that has a type of the source. -/
inductive Seed.HasType (s : Schema) (q : QName) : Seed → Prop where
  | type {name : Option String} {t : Node} {topLevel : Bool} (hfind : s.find? .types (some q) = some t) :
    HasType s q (.type name t topLevel)
  | element {n : Node} {ds : List ElementDecl} {own : Component} {d : ElementDecl} {type : Option Node}
    {topLevel : Bool} (hchain : Substitutes s n ds ⟨.element own d type⟩) (hname : d.typeName = some q) :
    HasType s q (.element n topLevel)

section Self

variable {c : Context} {q : QName} {t n : Node} {p : Option Node} {attributes : List Node} {seed : Seed}

/-- The copy of an element with a type of the source has a copy of that type. -/
theorem TypeCopy.exists_of_named {own : Component} {d : ElementDecl} {type m : Option Node} {name : Option QName}
    (h : TypeCopy c ⟨.element own d type⟩ name m) (hname : d.typeName = some q) (hq : ¬ q.isBuiltin) :
    ∃ t m, c.source.find? .types (some q) = some t ∧ (inlineChild c [] (.plain t)).Gives m := by
  cases h with
  | builtin hname' hbuiltin =>
    cases hname.symm.trans hname'
    exact absurd hbuiltin hq
  | named hname' _ hfind hcopy =>
    cases hname.symm.trans hname'
    exact ⟨_, _, hfind, hcopy⟩
  | own hname' => cases hname.symm.trans hname'
  | none hname' => cases hname.symm.trans hname'

theorem not_gives_seed (hs : c.source.Proper) (hfrom : seed.IsFrom c.source)
    (hfind : c.source.find? .types (some q) = some t) (hq : ¬ q.isBuiltin)
    (hcopy : ∀ m, ¬ (inlineChild c [] (.plain t)).Gives m) (hseed : seed.HasType c.source q) :
    ¬ (seed.inline c).Gives n := by
  intro h
  obtain ⟨r, hr, -⟩ := gives_bind.1 h
  cases hseed with
  | @type name t' topLevel hfind' =>
    cases hfind.symm.trans hfind'
    obtain ⟨m, hm, -⟩ := gives_attach.1 hr
    exact hcopy m hm
  | @element n ds own d type topLevel hchain hname =>
    obtain ⟨e, m, -, -, htype⟩ := takesOver_followEdits hs (hfrom.proper hs) hchain hr
    obtain ⟨t', m', hfind', hm⟩ := htype.exists_of_named hname hq
    cases hfind.symm.trans hfind'
    exact hcopy m' hm

/-- Where something that was asked for is never given, the queue is never empty. -/
theorem items_ne_nil {target : Schema} {calls : List Call} {roots : List Place} {w : Workspace}
    (hfrom : ∀ seed ∈ calls.flatMap Call.seeds, seed.IsFrom c.source)
    (hseed : seed ∈ calls.flatMap Call.seeds) (hnot : ∀ n, ¬ (seed.inline c).Gives n)
    (hrun : (Call.runAll c calls).runIn (.ofSchema target) = (.ok roots, w)) : w.items ≠ [] := by
  intro hitems
  have htracks := (tracks_ofSchema c target).calls (fun seed hseed => (hfrom seed hseed).hasName) hrun
  rw [List.nil_append] at htracks
  obtain ⟨n, hn⟩ := htracks.represents.gives (htracks.allComplete hitems) seed hseed
  exact hnot n hn

end Self

/-- A type that extends itself, and has an attribute or a particle of its own to give to its extensions, is not copied:
no extraction that an element of the type is asked of comes to an end, and if the source has no other defect and the
limit is large enough, it fails with a circular reference.  A longer circle of bases is not followed.  One level of
inheritance is merged, so that an extension whose base extends another type is copied as if the base did not, after a
warning. -/
theorem extraction_refuses_self_extension {source target : Schema} (hread : IsRead source) :
    (∀ q t p attributes, source.find? .types (some q) = some t → Extends t q p attributes →
      PassesOn source p attributes → ∀ calls : List Call,
      (∀ seed ∈ calls.flatMap Call.seeds, seed.IsFrom source) →
      (∃ seed ∈ calls.flatMap Call.seeds, seed.HasType source q) →
      (∀ limit roots w, (Call.runAll (.between source target limit) calls).runIn (.ofSchema target) = (.ok roots, w) →
        w.items ≠ []) ∧
      (OnlyCircles source → ∃ least problem w, problem.errorClass = .circularReference ∧
        ∀ limit ≥ least, (Call.runAll (.between source target limit) (calls ++ [.drain])).runIn (.ofSchema target) =
          (.error (.problem problem), w))) ∧
    ∀ q b q' p attributes, ¬ q.isBuiltin → source.find? .types (some q) = some b → Extends b q' p attributes →
      ∀ limit kind particle members any,
        edits (.between source target limit) kind ⟨.complexDerivation .extension (some q) particle members any⟩ =
          droppedWarning q q' :: edits (.between (source.put .types (some q.name) b.detached) target limit) kind
            ⟨.complexDerivation .extension (some q) particle members any⟩ := by
  have hs : source.Proper := hread.proper
  refine ⟨fun q t p attributes hfind hext hpasses calls hfrom ⟨seed, hseed, htype⟩ => ?_,
    fun q b q' p attributes hq hfind hext limit kind particle members any => extensionEdits_detached hq hfind hext⟩
  have hnot (limit : Nat) (n : Node) : ¬ (seed.inline (.between source target limit)).Gives n :=
    not_gives_seed (c := .between source target limit) hs (hfrom seed hseed) hfind hext.not_isBuiltin
      (fun _ => not_gives_self (c := .between source target limit) hs hfind hext hpasses) htype
  refine ⟨fun limit roots w => items_ne_nil (c := .between source target limit) hfrom hseed (hnot limit),
    fun honly => ?_⟩
  have hseeds : (calls ++ [Call.drain]).flatMap Call.seeds = calls.flatMap Call.seeds := by simp [Call.seeds]
  obtain ⟨least, result, w, hrun, -, hgenuine⟩ := runAll_settles (c := .between source target 0) hs
    (calls ++ [.drain]) (by rwa [hseeds]) (traced_ofSchema source target)
  have hleast : (Call.runAll (.between source target least) (calls ++ [.drain])).runIn (.ofSchema target) =
      (result, w) := hrun least (Nat.le_refl _)
  cases result with
  | ok roots =>
    have hitems := (tracks_ofSchema (.between source target least) target).drained
      (fun seed hseed => Seed.IsFrom.hasName (c := .between source target least) (hfrom seed hseed)) hleast
    exact absurd hitems (items_ne_nil (c := .between source target least) (by rwa [hseeds]) (by rwa [hseeds])
      (hnot least) hleast)
  | error f =>
    obtain ⟨problem, rfl, hlimit, -⟩ := hgenuine f rfl
    rcases circular_runAll (c := .between source target least) hs honly (by rwa [hseeds])
      (traced_ofSchema source target) hleast with hf | ⟨_, ⟨⟩, hclass⟩
    · exact absurd (Fault.problem.inj hf) (hlimit _)
    · exact ⟨least, problem, w, hclass, hrun⟩

/-! ### A type that extends itself, and two that extend each other -/

section Sample

def selfDocument : Xml.Element :=
  sampleTag "schema" [("targetNamespace", "urn:s")]
    [sampleTag "complexType" [("name", "A")]
      [sampleTag "complexContent" [] [sampleTag "extension" [("base", "A")]
        [sampleTag "sequence" [] [sampleTag "any" [] []]]]]]

def anyElement : Node := ⟨.wildcard ⟨none, none⟩ .once⟩

def anySequence : Node := ⟨.modelGroup .sequence .once [anyElement]⟩

def selfDerivation : Node :=
  ⟨.complexDerivation .extension (some ⟨"urn:s", "A"⟩) (some anySequence) [] none⟩

def selfType : Node :=
  ⟨.complexType ⟨some "A", true⟩ ⟨false, false⟩ [] none (some ⟨.complexContent none (some selfDerivation)⟩) none⟩

def selfSchema : Schema :=
  { SchemaOf.empty "urn:s" defaultForm defaultForm with types := [(some "A", selfType)] }

theorem isRead_selfSchema : IsRead selfSchema :=
  ⟨selfDocument, #[], #[], rfl⟩

theorem mem_of_contains_selfSchema {n : Node} (h : Contains selfSchema n) :
    n ∈ [selfType, ⟨.complexContent none (some selfDerivation)⟩, selfDerivation, anySequence, anyElement] := by
  induction h with
  | entry table he => cases table <;> simp_all [SchemaOf.table, selfSchema, SchemaOf.empty]
  | child _ hm ih =>
    simp only [List.mem_cons, List.not_mem_nil, or_false] at ih
    rcases ih with rfl | rfl | rfl | rfl | rfl <;>
      simp_all [Node.children, Node.shape, Shape.children, selfType, selfDerivation, anySequence, anyElement]

theorem onlyCircles_selfSchema : OnlyCircles selfSchema := by
  intro c n kind hc hn hcopy f hf
  have hmem := mem_of_contains_selfSchema hn
  have hfind : selfSchema.find? .types (some ⟨"urn:s", "A"⟩) = some selfType := rfl
  have hnot : ¬ (QName.isBuiltin ⟨"urn:s", "A"⟩) := by decide
  simp only [List.mem_cons, List.not_mem_nil, or_false] at hmem
  exfalso
  rcases hmem with rfl | rfl | rfl | rfl | rfl
  · simp [edits, selfType, Node.shape, complexTypeEdits, attributeEdits, particleEdits, particleChild?] at hf
    split at hf <;> cases hf
  · simp [edits, Node.shape, contentEdits] at hf
  · change .stop f ∈ extensionEdits c.source (some ⟨"urn:s", "A"⟩) (some anySequence) [] false at hf
    have hext : Extends selfType ⟨"urn:s", "A"⟩ (some anySequence) [] := .mk hnot
    rw [hc, extensionEdits_extends hnot hext hfind] at hf
    simp [mergeEdits, attributeListEdits, attributeEdits, givesWildcard, selfType, Node.shape, Shape.any?,
      wildcardEdits, mergedParticleEdits, particleChild?, particleChild, anySequence, Except.map] at hf
  · simp [edits, anySequence, Node.shape, anyElement, particleEdits, particleChild?, particleChild, Except.map] at hf
  · simp [edits, anyElement, Node.shape] at hf

def selfSeed : Seed := .type (some "e") selfType true

theorem selfSeed_isFrom : selfSeed.IsFrom selfSchema :=
  ⟨.entry .types (e := (some "A", selfType)) (by simp [selfSchema, SchemaOf.table]), rfl⟩

/-- The type that extends itself is not extracted, and the rule for it warns of what it drops. -/
theorem extraction_refuses_self_extension_sample :
    (∃ least problem w, problem.errorClass = .circularReference ∧ ∀ limit ≥ least,
      (Call.runAll (.between selfSchema alignedTarget limit) [.extract selfSeed, .drain]).runIn
        (.ofSchema alignedTarget) = (.error (.problem problem), w)) ∧
    ∃ es, edits (.between selfSchema alignedTarget 10) .complexContentExtension selfDerivation =
      droppedWarning ⟨"urn:s", "A"⟩ ⟨"urn:s", "A"⟩ :: es := by
  have hfind : selfSchema.find? .types (some ⟨"urn:s", "A"⟩) = some selfType := rfl
  have hext : Extends selfType ⟨"urn:s", "A"⟩ (some anySequence) [] := .mk (by decide)
  obtain ⟨hrefuses, hmerges⟩ := @extraction_refuses_self_extension selfSchema alignedTarget isRead_selfSchema
  obtain ⟨-, hfails⟩ := hrefuses _ _ _ _ hfind hext (.inr ⟨_, rfl, by decide⟩) [.extract selfSeed]
    (by simpa [Call.seeds] using selfSeed_isFrom) ⟨selfSeed, by simp [Call.seeds], .type hfind⟩
  exact ⟨hfails onlyCircles_selfSchema, _, hmerges _ _ _ _ _ (by decide) hfind hext 10 _ _ _ _⟩

def circleDocument : Xml.Element :=
  sampleTag "schema" [("targetNamespace", "urn:s")]
    [sampleTag "complexType" [("name", "A")] [sampleTag "complexContent" [] [sampleTag "extension" [("base", "B")] []]],
      sampleTag "complexType" [("name", "B")]
        [sampleTag "complexContent" [] [sampleTag "extension" [("base", "A")] []]]]

/-- What is read from the circle. -/
def circleSchema : Schema :=
  { SchemaOf.empty "urn:s" defaultForm defaultForm with
    types := [(some "A", bareExtension ⟨some "A", true⟩ ⟨"urn:s", "B"⟩),
      (some "B", bareExtension ⟨some "B", true⟩ ⟨"urn:s", "A"⟩)] }

theorem isRead_circleSchema : IsRead circleSchema :=
  ⟨circleDocument, #[], #[], rfl⟩

theorem find?_circleFirst : circleSchema.find? .types (some ⟨"urn:s", "A"⟩) =
    some (bareExtension ⟨some "A", true⟩ ⟨"urn:s", "B"⟩) := rfl

theorem find?_circleSecond : circleSchema.find? .types (some ⟨"urn:s", "B"⟩) =
    some (bareExtension ⟨some "B", true⟩ ⟨"urn:s", "A"⟩) := rfl

def bareContent (q : QName) : Node :=
  ⟨.complexContent none (some ⟨.complexDerivation .extension (some q) none [] none⟩)⟩

theorem onlyCircles_circleSchema : OnlyCircles circleSchema := by
  have hlist {n : Node} (h : Contains circleSchema n) : ∃ q co, (q = ⟨"urn:s", "A"⟩ ∨ q = ⟨"urn:s", "B"⟩) ∧
      (n = bareExtension co q ∨ n = bareContent q ∨ n = ⟨.complexDerivation .extension (some q) none [] none⟩) := by
    induction h with
    | entry table he =>
      cases table <;> simp [SchemaOf.table, circleSchema, SchemaOf.empty] at he
      rcases he with rfl | rfl
      · exact ⟨_, _, .inr rfl, .inl rfl⟩
      · exact ⟨_, _, .inl rfl, .inl rfl⟩
    | child _ hm ih =>
      obtain ⟨q, co, hq, rfl | rfl | rfl⟩ := ih <;>
        simp [Node.children, Node.shape, Shape.children, bareExtension, bareContent] at hm
      · exact ⟨q, co, hq, .inr (.inl hm)⟩
      · exact ⟨q, co, hq, .inr (.inr hm)⟩
  intro c n kind hc hn hcopy f hf
  exfalso
  obtain ⟨q, co, hq, rfl | rfl | rfl⟩ := hlist hn
  · simp [edits, bareExtension, Node.shape, complexTypeEdits, attributeEdits, particleEdits, particleChild?] at hf
    split at hf <;> cases hf
  · simp [edits, bareContent, Node.shape, contentEdits] at hf
  · change .stop f ∈ extensionEdits c.source (some q) none [] false at hf
    have hedits : ∃ text, extensionEdits c.source (some q) none [] false =
        [.warn text, .change (.base (some anyType))] := by
      rw [hc]
      rcases hq with rfl | rfl
      · exact extensionEdits_bare (by decide) (by decide) find?_circleFirst
      · exact extensionEdits_bare (by decide) (by decide) find?_circleSecond
    obtain ⟨text, hedits⟩ := hedits
    simp [hedits] at hf

/-- An element with the first type of the circle. -/
def circleSeed : Seed := .type (some "e") (bareExtension ⟨some "A", true⟩ ⟨"urn:s", "B"⟩) true

theorem circleSeed_isGlobal : circleSeed.IsGlobal circleSchema := by
  simp [circleSeed, Seed.IsGlobal, circleSchema, Table.values]

/-- Two types that extend each other make a circle, and are extracted all the same. -/
theorem extraction_merges_circle :
    IsRead circleSchema ∧ OnlyCircles circleSchema ∧
    (∃ t, circleSchema.find? .types (some ⟨"urn:s", "A"⟩) = some t ∧ Extends t ⟨"urn:s", "B"⟩ none []) ∧
    (∃ t, circleSchema.find? .types (some ⟨"urn:s", "B"⟩) = some t ∧ Extends t ⟨"urn:s", "A"⟩ none []) ∧
    circleSeed.IsGlobal circleSchema ∧ circleSeed.HasType circleSchema ⟨"urn:s", "A"⟩ ∧
    ∃ least root w, (∀ limit ≥ least, (Call.runAll (.between circleSchema alignedTarget limit)
        [.extract circleSeed, .drain]).runIn (.ofSchema alignedTarget) = (.ok [root], w)) ∧ w.items = [] := by
  have hfrom := circleSeed_isGlobal.isFrom isRead_circleSchema.proper
  obtain ⟨least, root, w, hrun, hitems, -⟩ := settles_extraction isRead_circleSchema.proper alignedTarget hfrom
    fun limit => gives_bareExtension (c := .between circleSchema alignedTarget limit) (by decide) (by decide)
      find?_circleSecond
  exact ⟨isRead_circleSchema, onlyCircles_circleSchema, ⟨_, find?_circleFirst, .mk (by decide)⟩,
    ⟨_, find?_circleSecond, .mk (by decide)⟩, circleSeed_isGlobal, .type find?_circleFirst,
    least, root, w, hrun, hitems⟩

end Sample

end PayloadSchema.Extraction
