import PayloadSchema.Proofs.Written.Attributes
import PayloadSchema.Proofs.Written.FinishedTrees
import PayloadSchema.Proofs.Written.SettledConstructs
import PayloadSchema.Proofs.Written.Siblings

/-!
# Simple types and attributes are read again

A settled tree is written as clean tags, and every element that mirrors these tags is read as the same tree, but for
the names that are missing, which are read as empty ones, and for the particles beside a content model, which are not
written.
-/

namespace PayloadSchema.Schema

/-- A construct as it is read after it has been written. -/
def Shape.asRead {α : Type} : Shape α → Shape α
  | .element c d t => .element { c with name := some (c.name.getD "") } d t
  | .attribute c d t => .attribute { c with name := some (c.name.getD "") } d t
  | .complexType c d as a (some m) _ => .complexType c d as a (some m) none
  | s => s

/-- A tree as it is read after it has been written. -/
def Node.asRead (n : Node) : Node :=
  n.fold fun s => ⟨s.asRead⟩

theorem Node.asRead_eq (n : Node) : n.asRead = ⟨(n.shape.map Node.asRead).asRead⟩ :=
  n.fold_eq _

end PayloadSchema.Schema

namespace PayloadSchema.Schema.Writer

open Xml (Element Tree isPlainName)
open Reader (construct? Construct ReadsAs ReadsAsAny ReadsAsContent ReadsAsFacet ReadsAsGroup ReadsAsItem
  ReadsAsMembers Declare)

/-- A clean tag such that every element that mirrors it has a property. -/
def Yields (ok : Char → Prop) (label : String) (t : Tree) (reads : Element → Prop) : Prop :=
  t.Clean ok label ∧ ∀ e, Element.Mirrors label t e → reads e

def YieldAll (ok : Char → Prop) (label : String) (ts : List Tree) (all : List Element → Prop) : Prop :=
  (∀ t ∈ ts, t.Clean ok label) ∧ ∀ es, List.Forall₂ (Element.Mirrors label) ts es → all es

/-- What is written is a tag of which something is read. -/
def Rereads (ok : Char → Prop) (label : String) (written : Except Fault Tree) (reads : Element → Prop) : Prop :=
  ∃ t, written = .ok t ∧ Yields ok label t reads

def RereadsAll (ok : Char → Prop) (label : String) (written : Except Fault (List Tree))
    (all : List Element → Prop) : Prop :=
  ∃ ts, written = .ok ts ∧ YieldAll ok label ts all

variable {ok : Char → Prop} {label key : String} {e : Element}

/-! ## Tags -/

section TagRules

variable {one : Except Fault Tree} {t : Tree} {ts us : List Tree} {reads reads' : Element → Prop}
  {all all' : List Element → Prop}

def Distinct (keys : List String) : Prop := keys.Nodup ∧ ∀ k ∈ keys, isPlainName k

instance (keys : List String) : Decidable (Distinct keys) := inferInstanceAs (Decidable (_ ∧ _))

theorem keys_nil : (([] : Attributes).map (·.1)).Sublist [] :=
  .refl _

theorem construct?_of_tag {name : String} (h : e.tag = xsd name) (hname : name ≠ "annotation") :
    construct? e = some (.ofName name) := by
  rw [construct?, h, if_pos ⟨rfl, hname⟩]
  rfl

theorem YieldAll.tag {name : String} {attributes : Attributes} {keys : List String} (hall : YieldAll ok label ts all)
    (hname : isPlainName name) (hattributes : (attributes.map (·.1)).Sublist keys) (hkeys : Distinct keys)
    (hvalues : ∀ a ∈ attributes, Carried ok a.2)
    (hreads : ∀ e : Element, e.tag = xsd name → e.scope.find? label = some xsdSpace →
      (∀ key, isPlainName key → e.attribute? key = attributes.lookup key) → all e.children → reads e) :
    Yields ok label (tag label name attributes ts) reads := by
  obtain ⟨hclean, hall⟩ := hall
  refine ⟨.tag hname (fun a ha => ?_) (hkeys.1.sublist hattributes) hvalues hclean, fun e he => ?_⟩
  · exact hkeys.2 _ (hattributes.subset (List.mem_map_of_mem ha))
  · obtain ⟨htag, heattributes, hscope, hchildren⟩ := he.parts
    refine hreads e htag hscope (fun key hkey => ?_) (hall _ hchildren)
    rw [Element.attribute?, heattributes, Xml.lookup_properAttributes hkey]

theorem YieldAll.nil (h : all []) : YieldAll ok label [] all :=
  ⟨by simp, fun es hes => by cases hes; exact h⟩

theorem YieldAll.imp (h : YieldAll ok label ts all) (himp : ∀ es, all es → all' es) : YieldAll ok label ts all' :=
  ⟨h.1, fun es hes => himp es (h.2 es hes)⟩

theorem Yields.single (h : Yields ok label t reads) : YieldAll ok label [t] fun es => ∃ e, es = [e] ∧ reads e := by
  refine ⟨by simpa using h.1, fun es hes => ?_⟩
  rw [List.forall₂_cons_left_iff] at hes
  obtain ⟨e, rest, he, hrest, rfl⟩ := hes
  cases hrest
  exact ⟨e, rfl, h.2 e he⟩

theorem Yields.alone (h : Yields ok label t fun e => all [e]) : YieldAll ok label [t] all := by
  refine h.single.imp ?_
  rintro es ⟨e, rfl, he⟩
  exact he

theorem YieldAll.append (hts : YieldAll ok label ts all) (hus : YieldAll ok label us all') :
    YieldAll ok label (ts ++ us) fun es => ∃ fs gs, es = fs ++ gs ∧ all fs ∧ all' gs := by
  refine ⟨List.forall_mem_append.2 ⟨hts.1, hus.1⟩, fun es hes => ?_⟩
  have hflip := hes.flip
  exact ⟨es.take ts.length, es.drop ts.length, (List.take_append_drop _ es).symm,
    hts.2 _ (List.forall₂_take_append es ts us hflip).flip, hus.2 _ (List.forall₂_drop_append es ts us hflip).flip⟩

theorem RereadsAll.append {first second : Except Fault (List Tree)} (hfirst : RereadsAll ok label first all)
    (hsecond : RereadsAll ok label second all') :
    RereadsAll ok label (do let a ← first; pure (a ++ (← second))) fun es =>
      ∃ fs gs, es = fs ++ gs ∧ all fs ∧ all' gs := by
  obtain ⟨ts, rfl, hts⟩ := hfirst
  obtain ⟨us, rfl, hus⟩ := hsecond
  exact ⟨ts ++ us, rfl, hts.append hus⟩

theorem Rereads.imp (h : Rereads ok label one reads) (himp : ∀ e, reads e → reads' e) :
    Rereads ok label one reads' := by
  obtain ⟨t, ht, hclean, hreads⟩ := h
  exact ⟨t, ht, hclean, fun e he => himp e (hreads e he)⟩

theorem rereadsAll_mapM {write : Node → Except Fault Tree} {reads : Element → Node → Prop} {ns : List Node}
    (h : ∀ n ∈ ns, Rereads ok label (write n) fun e => reads e n.asRead) :
    RereadsAll ok label (ns.mapM write) fun es => List.Forall₂ reads es (ns.map Node.asRead) := by
  induction ns with
  | nil => exact ⟨[], rfl, .nil .nil⟩
  | cons n ns ih =>
    obtain ⟨t, ht, hclean, hreads⟩ := h n List.mem_cons_self
    obtain ⟨ts, hts, hcleans, hall⟩ := ih fun m hm => h m (List.mem_cons_of_mem n hm)
    refine ⟨t :: ts, by rw [List.mapM_cons, ht, hts]; rfl, List.forall_mem_cons.2 ⟨hclean, hcleans⟩,
      fun es hes => ?_⟩
    rw [List.forall₂_cons_left_iff] at hes
    obtain ⟨e, es, he, hes, rfl⟩ := hes
    exact .cons (hreads e he) (hall es hes)

end TagRules

/-! ## Constructs by their roles -/

/-- Whether a tree is settled and can play a role. -/
abbrev Ready (ok : Char → Prop) (role : Role) (n : Node) : Prop := Fits (Shape.Settled ok) role n

/-- Whether what is written of a construct where it plays a role is read again as the construct. -/
def Recites (ok : Char → Prop) (label : String) : Role → Node → Prop
  | .elementType, n => RereadsAll ok label (elementType label (some n)) fun es =>
      Reader.elementType none es = .ok (some n.asRead)
  | .simpleType, n => Rereads ok label (simpleType label n) fun e => ReadsAs .simpleType Reader.simpleType e n.asRead
  | .facet, n => ∃ f, n.shape.facet? = some f ∧
      Yields ok label (tag label f.kind (("value", f.value) :: flag "fixed" f.fixed) []) fun e =>
        ReadsAsFacet e n.asRead
  | .simpleVariety, n => RereadsAll ok label (simpleTypeContent label (some n)) fun es =>
      Reader.simpleTypeContent none es = .ok (some n.asRead)
  | .attribute, n => n.shape.kind = .attribute ∧ Rereads ok label (attributeDecl label n) fun e =>
      ReadsAs .attribute (Reader.attributeOrRef false) e n.asRead
  | .anyAttribute, n => ∃ w, n.shape.wildcard? = some w ∧
      Yields ok label (tag label "anyAttribute" (wildcard w) []) fun e => ReadsAsAny e n.asRead
  | .model, n => ∀ own, RereadsAll ok label (typeContent label (some n) own) fun es =>
      ReadsAsContent (some n.asRead) none es
  | .simpleDerivation, n => RereadsAll ok label (simpleDerivation label (some n)) fun es =>
      Reader.simpleDerivation none es = .ok (some n.asRead)
  | .complexDerivation, n => RereadsAll ok label (complexDerivation label (some n)) fun es =>
      Reader.complexDerivation none es = .ok (some n.asRead)
  | .particle, n | .groupContent, n => Rereads ok label (particle label n) fun e => ReadsAsGroup e n.asRead
  | .item, n => Rereads ok label (particle label n) fun e => ReadsAsItem e n.asRead

section Parts

variable {ns members : List Node} {own any : Option Node}

theorem rereads_facets (h : ∀ m ∈ ns, Recites ok label .facet m) :
    RereadsAll ok label (facets label ns) fun es => List.Forall₂ ReadsAsFacet es (ns.map Node.asRead) := by
  refine rereadsAll_mapM fun m hm => ?_
  obtain ⟨f, hf, hyields⟩ := h m hm
  exact ⟨_, by rw [hf], hyields⟩

theorem rereads_ownSimpleType (h : ∀ m ∈ own, Recites ok label .simpleType m) :
    RereadsAll ok label (ownSimpleType label own) fun es =>
      List.Forall₂ (ReadsAs .simpleType Reader.simpleType) es (own.map Node.asRead).toList := by
  cases own with
  | none => exact ⟨[], rfl, .nil .nil⟩
  | some m =>
    obtain ⟨t, ht, hyields⟩ := h m rfl
    refine ⟨[t], by rw [ownSimpleType, ht]; rfl, hyields.single.imp ?_⟩
    rintro es ⟨e, rfl, he⟩
    exact .cons he .nil

theorem rereads_simpleTypes (h : ∀ m ∈ ns, Recites ok label .simpleType m) :
    RereadsAll ok label (simpleTypes label ns) fun es =>
      List.Forall₂ (ReadsAs .simpleType Reader.simpleType) es (ns.map Node.asRead) := by
  have heq (ns : List Node) : simpleTypes label ns = ns.mapM (simpleType label) := by
    induction ns with
    | nil => rfl
    | cons n ns ih => rw [simpleTypes, ih, List.mapM_cons]
  rw [heq]
  exact rereadsAll_mapM h

theorem rereads_simpleTypeContent (h : ∀ m ∈ own, Recites ok label .simpleVariety m) :
    RereadsAll ok label (simpleTypeContent label own) fun es =>
      Reader.simpleTypeContent none es = .ok (own.map Node.asRead) := by
  cases own with
  | none => exact ⟨[], rfl, .nil (by rw [Reader.simpleTypeContent]; rfl)⟩
  | some m => exact h m rfl

theorem rereads_anyAttribute (h : ∀ m ∈ any, Recites ok label .anyAttribute m) :
    RereadsAll ok label (anyAttribute label any) fun es =>
      List.Forall₂ ReadsAsAny es (any.map Node.asRead).toList := by
  cases any with
  | none => exact ⟨[], rfl, .nil .nil⟩
  | some m =>
    obtain ⟨w, hw, hyields⟩ := h m rfl
    refine ⟨_, by rw [anyAttribute, hw], hyields.single.imp ?_⟩
    rintro es ⟨e, rfl, he⟩
    exact .cons he .nil

theorem rereads_attributes (hmembers : ∀ m ∈ members, Recites ok label .attribute m)
    (hany : ∀ m ∈ any, Recites ok label .anyAttribute m) : RereadsAll ok label (attributes label members any) fun es =>
      ReadsAsMembers (members.map Node.asRead) (any.map Node.asRead) es := by
  rw [attributes]
  refine (rereadsAll_mapM fun m hm => ?_).append (rereads_anyAttribute hany)
  obtain ⟨hkind, hwritten⟩ := hmembers m hm
  obtain ⟨c, d, type, hs⟩ := Shape.exists_of_kind_attribute hkind
  rw [hs]
  exact hwritten

theorem rereads_ownParticle (h : ∀ m ∈ own, Recites ok label .particle m) :
    RereadsAll ok label (ownParticle label own) fun es =>
      List.Forall₂ ReadsAsGroup es (own.map Node.asRead).toList := by
  cases own with
  | none => exact ⟨[], by rw [ownParticle], .nil .nil⟩
  | some m =>
    obtain ⟨t, ht, hyields⟩ := h m rfl
    refine ⟨[t], by rw [ownParticle, ht]; rfl, hyields.single.imp ?_⟩
    rintro es ⟨e, rfl, he⟩
    exact .cons he .nil

theorem rereads_particles (h : ∀ m ∈ ns, Recites ok label .item m) :
    RereadsAll ok label (particles label ns) fun es => List.Forall₂ ReadsAsItem es (ns.map Node.asRead) := by
  have heq (ns : List Node) : particles label ns = ns.mapM (particle label) := by
    induction ns with
    | nil =>
      rw [particles]
      rfl
    | cons n ns ih => rw [particles, ih, List.mapM_cons]
  rw [heq]
  exact rereadsAll_mapM h

theorem rereads_simpleDerivation (h : ∀ m ∈ own, Recites ok label .simpleDerivation m) :
    RereadsAll ok label (simpleDerivation label own) fun es =>
      Reader.simpleDerivation none es = .ok (own.map Node.asRead) := by
  cases own with
  | none => exact ⟨[], rfl, .nil (by rw [Reader.simpleDerivation]; rfl)⟩
  | some m => exact h m rfl

theorem rereads_complexDerivation (h : ∀ m ∈ own, Recites ok label .complexDerivation m) :
    RereadsAll ok label (complexDerivation label own) fun es =>
      Reader.complexDerivation none es = .ok (own.map Node.asRead) := by
  cases own with
  | none =>
    refine ⟨[], ?_, .nil (by rw [Reader.complexDerivation]; rfl)⟩
    rw [complexDerivation]
    rintro _ _ _ _ _ ⟨⟩
  | some m => exact h m rfl

theorem rereads_elementType (h : ∀ m ∈ own, Recites ok label .elementType m) :
    RereadsAll ok label (elementType label own) fun es =>
      Reader.elementType none es = .ok (own.map Node.asRead) := by
  cases own with
  | none => exact ⟨[], by rw [elementType], .nil (by rw [Reader.elementType]; rfl)⟩
  | some m => exact h m rfl

end Parts

/-! ## Simple types -/

section Simple

variable {types fs : List Node} {own : Option Node}

theorem recites_facet (hlabel : Usable ok label) {f : Facet} (hsettled : (Shape.facet f : Shape Node).Settled ok) :
    Recites ok label .facet ⟨.facet f⟩ := by
  have hkind := hsettled.facet f rfl
  have hofName : ∀ k ∈ Reader.facetNames, Construct.ofName k = .facet k ∧ k ≠ "annotation" := by decide
  have hnil : YieldAll ok label [] fun _ => True := .nil trivial
  have hkeys : Distinct ["value", "fixed"] := by decide
  refine ⟨f, rfl, hnil.tag (Xml.isPlainName_facet hkind) ?_ hkeys ?_ fun e htag _ hlookup _ => ?_⟩
  · rw [flag_eq_given]
    exact keys_given.cons_cons "value"
  · rw [flag_eq_given]
    refine List.forall_mem_cons.2 ⟨hsettled.texts f.value List.mem_cons_self, carried_given ?_⟩
    intro v hv
    cases hfixed : f.fixed <;> simp [hfixed] at hv
    subst hv
    exact hlabel.printable.carried (by decide)
  · have hconstruct := construct?_of_tag htag (hofName _ hkind).2
    rw [(hofName _ hkind).1] at hconstruct
    have hvalue : e.attribute? "value" = some f.value := by
      rw [hlookup _ rfl]
      rfl
    have hfixed : Reader.flag e "fixed" = f.fixed := by
      refine flag_of_written ?_
      rw [hlookup _ rfl, flag_eq_given]
      simp [List.lookup_cons, lookup_given]
    refine ⟨f, rfl, ?_⟩
    rw [Reader.facet?, hconstruct]
    dsimp only
    rw [hvalue, hfixed]
    rfl

theorem component_of_type {s : Shape Node} {c : Component} (hs : s.Settled ok) (hcomponent : s.component? = some c)
    (htype : s.kind.isType) (htop : s.isTopLevel = false) : c = ⟨none, false⟩ := by
  obtain ⟨name, top⟩ := c
  have hunnamed := hs.unnamed htype
  simp only [Shape.isNamed, hcomponent] at hunnamed
  simp only [Shape.isTopLevel, hcomponent] at htop
  cases name <;> simp_all

theorem recites_simpleType {c : Component} (hsettled : (Shape.simpleType c own).Settled ok) (htop : c.topLevel = false)
    (hcontent : ∀ m ∈ own, Recites ok label .simpleVariety m) : Recites ok label .simpleType ⟨.simpleType c own⟩ := by
  obtain rfl := component_of_type hsettled rfl rfl htop
  obtain ⟨ts, hts, hyields⟩ := rereads_simpleTypeContent hcontent
  have hkeys : Distinct [] := by decide
  refine ⟨_, by rw [simpleType, hts]; rfl,
    hyields.tag (by decide) keys_nil hkeys (by simp) fun e htag _ hlookup hread => ?_⟩
  refine ⟨construct?_of_tag htag (by decide), ?_⟩
  have hname := hlookup "name" rfl
  obtain ⟨tag, attributes, text, scope, inner⟩ := e
  rw [Element.children] at hread
  rw [Reader.simpleType, Reader.component, hname, hread, Node.asRead_eq]
  rfl

theorem recites_simpleRestriction (hlabel : Usable ok label) {base : Option QName}
    (hsettled : (Shape.simpleRestriction base own fs).Settled ok) (hown : ∀ m ∈ own, Recites ok label .simpleType m)
    (hfacets : ∀ m ∈ fs, Recites ok label .facet m) :
    Recites ok label .simpleVariety ⟨.simpleRestriction base own fs⟩ := by
  have hbase := hsettled.typeName (q := base) (by simp [Shape.typeNames])
  obtain ⟨ts, hts, hown⟩ := rereads_ownSimpleType hown
  obtain ⟨us, hus, hfacets⟩ := rereads_facets hfacets
  have hkeys : Distinct ["base"] := by decide
  refine ⟨_, by rw [simpleTypeContent, typeAttribute_eq fun r hr => (hbase r hr).1, hts, hus]; rfl,
    ((hown.append hfacets).tag (by decide) keys_given hkeys
      (carried_given (hlabel.carried_typeName fun r hr => (hbase r hr).2.1))
      fun e htag hscope hlookup hread => ?_).alone⟩
  have hreadBase := name?_of_written hlabel hscope ((hlookup "base" rfl).trans lookup_given) fun r hr =>
    ⟨(hbase r hr).1, (hbase r hr).2.2⟩
  have hconstruct : construct? e = some .restriction := construct?_of_tag htag (by decide)
  obtain ⟨tag, attributes, text, scope, inner⟩ := e
  obtain ⟨es, fes, hinner, hes, hfes⟩ := hread
  obtain rfl : inner = es ++ fes := hinner
  obtain ⟨hreadOwn, hreadFacets⟩ := Reader.restricted_of hes hfes (by simp [Declare] : Declare true [])
  rw [List.append_nil] at hreadOwn hreadFacets
  rw [Reader.simpleTypeContent, hconstruct]
  dsimp only
  rw [hreadBase, hreadOwn, hreadFacets, Node.asRead_eq]
  simp only [bind, Except.bind, Reader.simpleTypeContent]
  rfl

theorem recites_simpleList (hlabel : Usable ok label) {item : Option QName}
    (hsettled : (Shape.simpleList item own).Settled ok) (hown : ∀ m ∈ own, Recites ok label .simpleType m) :
    Recites ok label .simpleVariety ⟨.simpleList item own⟩ := by
  have hitem := hsettled.typeName (q := item) (by simp [Shape.typeNames])
  obtain ⟨ts, hts, hown⟩ := rereads_ownSimpleType hown
  have hkeys : Distinct ["itemType"] := by decide
  refine ⟨_, by rw [simpleTypeContent, typeAttribute_eq fun r hr => (hitem r hr).1, hts]; rfl,
    (hown.tag (by decide) keys_given hkeys
      (carried_given (hlabel.carried_typeName fun r hr => (hitem r hr).2.1))
      fun e htag hscope hlookup hread => ?_).alone⟩
  have hreadItem := name?_of_written hlabel hscope ((hlookup "itemType" rfl).trans lookup_given) fun r hr =>
    ⟨(hitem r hr).1, (hitem r hr).2.2⟩
  have hreadOwn := Reader.innerSimpleType_only hread
  have hconstruct : construct? e = some .list := construct?_of_tag htag (by decide)
  obtain ⟨tag, attributes, text, scope, inner⟩ := e
  rw [Element.children] at hreadOwn
  rw [Reader.simpleTypeContent, hconstruct]
  dsimp only
  rw [hreadItem, hreadOwn, Node.asRead_eq]
  simp only [bind, Except.bind, Reader.simpleTypeContent]
  rfl

theorem recites_simpleUnion (hlabel : Usable ok label) {names : List QName}
    (hsettled : (Shape.simpleUnion names types).Settled ok) (htypes : ∀ m ∈ types, Recites ok label .simpleType m) :
    Recites ok label .simpleVariety ⟨.simpleUnion names types⟩ := by
  have hbuiltin : ∀ q ∈ names, q.isBuiltin := fun q hq => hsettled.builtin q (by simpa [Shape.typeNames] using hq)
  have hnames : ∀ q ∈ names, Carried ok q.name := fun q hq =>
    (hsettled.names q (by simpa [Shape.typeNames] using hq)).1
  obtain ⟨ts, hts, htypes⟩ := rereads_simpleTypes htypes
  have hkeys : Distinct ["memberTypes"] := by decide
  have hattributes : (if (names.map fun q => label ++ ":" ++ q.name).isEmpty then [] else
      [("memberTypes", " ".intercalate (names.map fun q => label ++ ":" ++ q.name))]) =
      given "memberTypes" (memberText label names) := by
    cases names <;> rfl
  have hwritten : simpleTypeContent label (some ⟨.simpleUnion names types⟩) =
      .ok [tag label "union" (given "memberTypes" (memberText label names)) ts] := by
    rw [simpleTypeContent, typeNames_eq hbuiltin, hts]
    simp only [bind, Except.bind]
    rw [hattributes]
    rfl
  refine ⟨_, hwritten, (htypes.tag (by decide) keys_given hkeys
    (carried_given (hlabel.carried_memberText hnames)) fun e htag hscope hlookup hread => ?_).alone⟩
  have hreadMembers := members_of_written hlabel hscope hbuiltin hsettled.members
    ((hlookup "memberTypes" rfl).trans lookup_given)
  have hreadTypes := Reader.simpleTypes_of hread
  have hconstruct : construct? e = some .union := construct?_of_tag htag (by decide)
  obtain ⟨tag, attributes, text, scope, inner⟩ := e
  rw [Element.children] at hreadTypes
  rw [Reader.simpleTypeContent, hconstruct]
  dsimp only
  rw [hreadMembers, hreadTypes, Node.asRead_eq]
  simp only [bind, Except.bind, Reader.simpleTypeContent]
  rfl

end Simple

/-! ## Attributes of types -/

section Members

variable {s : Shape Node} {type : Option Node}

theorem carried_name (h : s.Settled ok) {c : Component} (hname : ∀ v ∈ c.name, v ∈ s.texts) :
    Carried ok (c.name.getD "") := by
  cases hc : c.name with
  | none => simp [Carried]
  | some v => exact h.texts v (hname v hc)

theorem recites_attribute (hlabel : Usable ok label) {c : Component} {d : AttributeDecl}
    (hsettled : (Shape.attribute c d type).Settled ok) (htype : ∀ m ∈ type, Recites ok label .simpleType m) :
    Recites ok label .attribute ⟨.attribute c d type⟩ := by
  have hname := hsettled.typeName (q := d.typeName) (by simp [Shape.typeNames])
  obtain ⟨ts, hts, hown⟩ := rereads_ownSimpleType htype
  have htop : c.topLevel = false := hsettled.explicit
  have hplace : (if c.topLevel then [] else given "form" d.form ++ given "use" d.usage.use) =
      given "form" d.form ++ given "use" d.usage.use := by
    simp [htop]
  have hwritten : attributeDecl label ⟨.attribute c d type⟩ = .ok (tag label "attribute"
      (given "name" (some (c.name.getD "")) ++ given "type" (d.typeName.map fun r => label ++ ":" ++ r.name) ++
        (given "form" d.form ++ given "use" d.usage.use) ++ given "default" d.usage.default ++
        given "fixed" d.usage.fixed) ts) := by
    rw [attributeDecl, typeAttribute_eq fun r hr => (hname r hr).1, hts, hplace]
    rfl
  have hkeys : Distinct (["name"] ++ ["type"] ++ (["form"] ++ ["use"]) ++ ["default"] ++ ["fixed"]) := by
    decide
  have htexts {value : Option String} (hvalue : ∀ v ∈ value, v ∈ c.name.toList ++ d.usage.texts ++ d.form.toList) :
      ∀ v ∈ value, Carried ok v := fun v hv => hsettled.texts v (hvalue v hv)
  have hown' : ∀ v ∈ some (c.name.getD ""), Carried ok v := by
    simpa using carried_name hsettled (c := c) (by simp +contextual [Shape.texts])
  refine ⟨rfl, _, hwritten, hown.tag (by decide)
    (keys_append (keys_append (keys_append (keys_append keys_given keys_given) (keys_append keys_given keys_given))
      keys_given) keys_given) hkeys ?_ fun e htag hscope hlookup hread => ?_⟩
  · refine carried_append (carried_append (carried_append (carried_append (carried_given hown')
      (carried_given (hlabel.carried_typeName fun r hr => (hname r hr).2.1)))
      (carried_append (carried_given (htexts ?_)) (carried_given (htexts ?_)))) (carried_given (htexts ?_)))
      (carried_given (htexts ?_)) <;> simp +contextual [AttributeUse.texts]
  · have hvalue (key : String) (hkey : isPlainName key) := hlookup key hkey
    simp only [lookup_append, lookup_given] at hvalue
    have hreadRef : Reader.name? e "ref" = .ok none := by
      rw [Reader.name?, hvalue _ rfl]
      rfl
    have hreadType : Reader.name? e "type" = .ok d.typeName :=
      name?_of_written hlabel hscope (by simpa using hvalue "type" rfl) fun r hr =>
        ⟨(hname r hr).1, (hname r hr).2.2⟩
    have hreadUsage : Reader.usage e = d.usage := by
      rw [Reader.usage, hvalue _ rfl, hvalue _ rfl, hvalue _ rfl]
      simp
    have hreadName : e.attribute? "name" = some (c.name.getD "") := by
      rw [hvalue _ rfl]
      simp
    have hreadForm : e.attribute? "form" = d.form := by
      rw [hvalue _ rfl]
      simp
    have hreadOwn := Reader.innerSimpleType_only hread
    refine ⟨construct?_of_tag htag (by decide), ?_⟩
    obtain ⟨tag, attributes, text, scope, inner⟩ := e
    rw [Element.children] at hreadOwn
    rw [Reader.attributeOrRef, hreadRef]
    simp only [bind, Except.bind]
    rw [hreadType, hreadOwn, hreadUsage, hreadForm, Reader.component, hreadName, Node.asRead_eq]
    simp only [Shape.map, Shape.asRead, Node.shape, ← htop]
    rfl

theorem recites_anyAttribute {w : Wildcard} (hsettled : (Shape.anyAttribute w : Shape Node).Settled ok) :
    Recites ok label .anyAttribute ⟨.anyAttribute w⟩ := by
  have hnil : YieldAll ok label [] fun _ => True := .nil trivial
  have hkeys : Distinct (["namespace"] ++ ["processContents"]) := by decide
  refine ⟨w, rfl, hnil.tag (by decide) (keys_append keys_given keys_given) hkeys
    (carried_wildcard hsettled.texts) fun e htag _ hlookup _ => ⟨construct?_of_tag htag (by decide), ?_⟩⟩
  rw [← List.append_nil (wildcard w)] at hlookup
  have hwildcard := wildcard_of_written (hlookup _ rfl) (hlookup _ rfl) ⟨rfl, rfl⟩
  dsimp only
  rw [hwildcard, Node.asRead_eq]
  rfl

end Members

end PayloadSchema.Schema.Writer
