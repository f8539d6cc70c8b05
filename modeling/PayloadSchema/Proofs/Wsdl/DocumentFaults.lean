import PayloadSchema.Proofs.Schema.Reading
import PayloadSchema.Proofs.Service.Contexts
import PayloadSchema.Proofs.Xml.Prologs

/-!
# Faults of documents

What a document that is not read is to blame for.  Mostly it is a problem.  The other faults are those of an encoding
that is not known or not supported, of an occurrence bound that is not a number, and of a reference at the top of a
schema, where a declaration belongs.
-/

namespace PayloadSchema.Schema

open Xml (Element)

/-! ## Steps with faults -/

/-- A computation that stops only with faults of a kind. -/
def StopsWith (fair : Fault → Prop) {α : Type} (x : Except Fault α) : Prop :=
  ∀ f, x = .error f → fair f

section StopsWith

variable {fair : Fault → Prop} {α β : Type}

theorem stopsWith_pure (a : α) : StopsWith fair (pure a) := nofun

theorem stopsWith_of_problem {x : Except Fault α} (hfair : ∀ p, fair (.problem p))
    (h : ∀ f, x = .error f → ∃ p, f = .problem p) : StopsWith fair x := by
  intro f hf
  obtain ⟨p, rfl⟩ := h f hf
  exact hfair p

theorem StopsWith.bind {x : Except Fault α} {next : α → Except Fault β} (hx : StopsWith fair x)
    (hnext : ∀ a, x = .ok a → StopsWith fair (next a)) : StopsWith fair (x >>= next) := by
  intro f hf
  match x, hx, hnext with
  | .error g, hx, _ =>
    cases hf
    exact hx f rfl
  | .ok a, _, hnext => exact hnext a rfl f hf

theorem StopsWith.map {x : Except Fault α} (hx : StopsWith fair x) (g : α → β) : StopsWith fair (x.map g) := by
  intro f hf
  match x, hx with
  | .error _, hx =>
    cases hf
    exact hx f rfl
  | .ok _, _ => cases hf

theorem StopsWith.mapM {f : α → Except Fault β} {l : List α} (h : ∀ a ∈ l, StopsWith fair (f a)) :
    StopsWith fair (l.mapM f) := by
  induction l with
  | nil => exact stopsWith_pure []
  | cons a l ih =>
    obtain ⟨hfirst, hrest⟩ := List.forall_mem_cons.1 h
    rw [List.mapM_cons]
    exact hfirst.bind fun b _ => (ih hrest).bind fun bs _ => stopsWith_pure _

end StopsWith

/-! ## Constructs -/

/-- The faults that an element is to blame for while it is read: the problems, and the occurrence bounds in it that are
not numbers. -/
inductive Blames (e : Element) : Fault → Prop
  | problem (p : Problem) : Blames e (.problem p)
  | bound {x : Element} {key text : String} {cause : Text.IntegerError} (hx : x ∈ e.preorder)
      (hkey : key ∈ ["minOccurs", "maxOccurs"]) (hvalue : x.attribute? key = some text) (htext : text ≠ "unbounded")
      (hcause : Text.readInteger text = .error cause) : Blames e (.badValue (.integer cause))

/-- An element all of whose faults are of a kind. -/
def Fair (fair : Fault → Prop) (e : Element) : Prop :=
  ∀ f, Blames e f → fair f

namespace Reader

variable {fair : Fault → Prop} {e : Element} {es : List Element}

theorem fair_child (h : Fair fair e) {x : Element} (hx : x ∈ e.children) : Fair fair x := by
  intro f hf
  cases hf with
  | problem p => exact h _ (.problem p)
  | bound hy hkey hvalue htext hcause =>
    exact h _ (.bound (Element.mem_preorder_of_child hx hy) hkey hvalue htext hcause)

theorem fair_inner {tag : QName} {attributes : List (QName × String)} {text : Option String} {scope : Xml.Scope}
    {inner : List Element} (h : Fair fair (.mk tag attributes text scope inner)) : ∀ x ∈ inner, Fair fair x :=
  fun _ hx => fair_child h hx

/-! ### Attributes of markup -/

theorem stopsWith_resolve (h : Fair fair e) (scope : Xml.Scope) (value : String) :
    StopsWith fair (resolve scope value) := by
  intro f hf
  rw [resolve] at hf
  split at hf
  · split at hf
    · cases hf
    · cases hf
      exact h _ (.problem _)
  · cases hf

theorem stopsWith_name? (h : Fair fair e) (key : String) : StopsWith fair (name? e key) := by
  rw [name?]
  split
  · exact stopsWith_pure none
  · exact (stopsWith_resolve h e.scope _).map some

theorem stopsWith_bound (h : Fair fair e) {key : String} (hkey : key ∈ ["minOccurs", "maxOccurs"]) :
    StopsWith fair (bound (e.attribute? key)) := by
  intro f hf
  generalize hvalue : e.attribute? key = value at hf
  rw [bound.eq_def] at hf
  split at hf
  · cases hf
  · cases hf
  · rename_i htext
    split at hf
    · cases hf
    · rename_i cause hcause
      cases hf
      exact h _ (.bound e.mem_preorder_self hkey hvalue htext hcause)

theorem stopsWith_occurs (h : Fair fair e) : StopsWith fair (occurs e) := by
  rw [occurs]
  refine (stopsWith_bound h (by simp)).bind fun min _ => ?_
  exact (stopsWith_bound h (by simp)).bind fun max _ => stopsWith_pure _

/-! ### Simple types and attributes -/

mutual

theorem stopsWith_simpleType {e : Element} (he : Fair fair e) : StopsWith fair (simpleType e) := by
  cases e with
  | mk _ _ _ _ inner =>
    rw [simpleType]
    exact (stopsWith_simpleTypeContent none (fair_inner he)).bind fun _ _ => stopsWith_pure _

theorem stopsWith_simpleTypeContent {es : List Element} (own : Option Node) (hes : ∀ e ∈ es, Fair fair e) :
    StopsWith fair (simpleTypeContent own es) := by
  cases es with
  | nil =>
    rw [simpleTypeContent]
    exact stopsWith_pure own
  | cons e es =>
    obtain ⟨he, hrest⟩ := List.forall_mem_cons.1 hes
    cases e with
    | mk _ _ _ _ inner =>
      have hinner := fair_inner he
      rw [simpleTypeContent]
      split
      · refine (stopsWith_name? he "base").bind fun base _ => ?_
        refine (stopsWith_innerSimpleType none hinner).bind fun baseType _ => ?_
        exact stopsWith_simpleTypeContent _ hrest
      · refine (stopsWith_name? he "itemType").bind fun item _ => ?_
        refine (stopsWith_innerSimpleType none hinner).bind fun itemType _ => ?_
        exact stopsWith_simpleTypeContent _ hrest
      · refine (StopsWith.mapM fun value _ => stopsWith_resolve he _ value).bind fun members _ => ?_
        refine (stopsWith_simpleTypes hinner).bind fun memberTypes _ => ?_
        exact stopsWith_simpleTypeContent _ hrest
      · exact stopsWith_simpleTypeContent own hrest

theorem stopsWith_innerSimpleType {es : List Element} (own : Option Node) (hes : ∀ e ∈ es, Fair fair e) :
    StopsWith fair (innerSimpleType own es) := by
  cases es with
  | nil =>
    rw [innerSimpleType]
    exact stopsWith_pure own
  | cons e es =>
    obtain ⟨he, hrest⟩ := List.forall_mem_cons.1 hes
    rw [innerSimpleType]
    split
    · exact (stopsWith_simpleType he).bind fun t _ => stopsWith_innerSimpleType (some t) hrest
    · exact stopsWith_innerSimpleType own hrest

theorem stopsWith_simpleTypes {es : List Element} (hes : ∀ e ∈ es, Fair fair e) :
    StopsWith fair (simpleTypes es) := by
  cases es with
  | nil =>
    rw [simpleTypes]
    exact stopsWith_pure []
  | cons e es =>
    obtain ⟨he, hrest⟩ := List.forall_mem_cons.1 hes
    rw [simpleTypes]
    split
    · refine (stopsWith_simpleType he).bind fun t _ => ?_
      exact (stopsWith_simpleTypes hrest).bind fun ts _ => stopsWith_pure (t :: ts)
    · exact stopsWith_simpleTypes hrest

end

theorem stopsWith_attributeOrRef (topLevel : Bool) (he : Fair fair e) :
    StopsWith fair (attributeOrRef topLevel e) := by
  cases e with
  | mk _ _ _ _ inner =>
    rw [attributeOrRef]
    refine (stopsWith_name? he "ref").bind fun ref _ => ?_
    cases ref with
    | some ref => exact stopsWith_pure _
    | none =>
      refine (stopsWith_name? he "type").bind fun typeName _ => ?_
      exact (stopsWith_innerSimpleType none (fair_inner he)).bind fun own _ => stopsWith_pure _

theorem stopsWith_attributes (any : Option Node) (hes : ∀ e ∈ es, Fair fair e) :
    StopsWith fair (attributes any es) := by
  induction es generalizing any with
  | nil =>
    rw [attributes]
    exact stopsWith_pure _
  | cons e es ih =>
    obtain ⟨he, hrest⟩ := List.forall_mem_cons.1 hes
    rw [attributes]
    split
    · refine (stopsWith_attributeOrRef false he).bind fun a _ => ?_
      exact (ih any hrest).bind fun more _ => stopsWith_pure _
    · refine (stopsWith_name? he "ref").bind fun ref _ => ?_
      exact (ih any hrest).bind fun more _ => stopsWith_pure _
    · exact ih _ hrest
    · exact ih any hrest

/-! ### Elements, groups and complex types -/

mutual

theorem stopsWith_element {e : Element} (topLevel : Bool) (he : Fair fair e) : StopsWith fair (element topLevel e) := by
  cases e with
  | mk _ _ _ _ inner =>
    rw [element]
    refine (stopsWith_name? he "ref").bind fun ref _ => ?_
    cases ref with
    | some ref => exact (stopsWith_occurs he).bind fun bounds _ => stopsWith_pure _
    | none =>
      refine (stopsWith_name? he "type").bind fun typeName _ => ?_
      refine (stopsWith_name? he "substitutionGroup").bind fun head _ => ?_
      refine (stopsWith_occurs he).bind fun bounds _ => ?_
      exact (stopsWith_elementType none (fair_inner he)).bind fun own _ => stopsWith_pure _

theorem stopsWith_elementType {es : List Element} (own : Option Node) (hes : ∀ e ∈ es, Fair fair e) :
    StopsWith fair (elementType own es) := by
  cases es with
  | nil =>
    rw [elementType]
    exact stopsWith_pure own
  | cons e es =>
    obtain ⟨he, hrest⟩ := List.forall_mem_cons.1 hes
    rw [elementType]
    split
    · exact (stopsWith_simpleType he).bind fun t _ => stopsWith_elementType (some t) hrest
    · exact (stopsWith_complexType he).bind fun t _ => stopsWith_elementType (some t) hrest
    · exact stopsWith_elementType own hrest

theorem stopsWith_particle {e : Element} (he : Fair fair e) : StopsWith fair (particle e) := by
  cases e with
  | mk _ _ _ _ inner =>
    rw [particle]
    split
    · refine (stopsWith_occurs he).bind fun bounds _ => ?_
      exact (stopsWith_items (fair_inner he)).bind fun ns _ => stopsWith_pure _
    · refine (stopsWith_name? he "ref").bind fun ref _ => ?_
      exact (stopsWith_occurs he).bind fun bounds _ => stopsWith_pure _

theorem stopsWith_items {es : List Element} (hes : ∀ e ∈ es, Fair fair e) : StopsWith fair (items es) := by
  cases es with
  | nil =>
    rw [items]
    exact stopsWith_pure []
  | cons e es =>
    obtain ⟨he, hrest⟩ := List.forall_mem_cons.1 hes
    rw [items]
    split
    · refine (stopsWith_element false he).bind fun n _ => ?_
      exact (stopsWith_items hrest).bind fun ns _ => stopsWith_pure (n :: ns)
    · refine (stopsWith_particle he).bind fun n _ => ?_
      exact (stopsWith_items hrest).bind fun ns _ => stopsWith_pure (n :: ns)
    · refine (stopsWith_particle he).bind fun n _ => ?_
      exact (stopsWith_items hrest).bind fun ns _ => stopsWith_pure (n :: ns)
    · refine (stopsWith_occurs he).bind fun bounds _ => ?_
      exact (stopsWith_items hrest).bind fun ns _ => stopsWith_pure _
    · exact stopsWith_items hrest

theorem stopsWith_innerParticle {es : List Element} (groups : Bool) (own : Option Node)
    (hes : ∀ e ∈ es, Fair fair e) : StopsWith fair (innerParticle groups own es) := by
  cases es with
  | nil =>
    rw [innerParticle]
    exact stopsWith_pure own
  | cons e es =>
    obtain ⟨he, hrest⟩ := List.forall_mem_cons.1 hes
    rw [innerParticle]
    split
    · exact (stopsWith_particle he).bind fun n _ => stopsWith_innerParticle groups (some n) hrest
    · split
      · exact (stopsWith_particle he).bind fun n _ => stopsWith_innerParticle _ (some n) hrest
      · exact stopsWith_innerParticle _ own hrest
    · exact stopsWith_innerParticle groups own hrest

theorem stopsWith_complexType {e : Element} (he : Fair fair e) : StopsWith fair (complexType e) := by
  cases e with
  | mk _ _ _ _ inner =>
    rw [complexType]
    refine (stopsWith_attributes none (fair_inner he)).bind fun members _ => ?_
    exact (stopsWith_complexParts none none (fair_inner he)).bind fun parts _ => stopsWith_pure _

theorem stopsWith_complexParts {es : List Element} (model own : Option Node) (hes : ∀ e ∈ es, Fair fair e) :
    StopsWith fair (complexParts model own es) := by
  cases es with
  | nil =>
    rw [complexParts]
    exact stopsWith_pure _
  | cons e es =>
    obtain ⟨he, hrest⟩ := List.forall_mem_cons.1 hes
    rw [complexParts]
    split
    · exact (stopsWith_particle he).bind fun n _ => stopsWith_complexParts model (some n) hrest
    · exact (stopsWith_particle he).bind fun n _ => stopsWith_complexParts model (some n) hrest
    · exact (stopsWith_simpleContent he).bind fun n _ => stopsWith_complexParts (some n) own hrest
    · exact (stopsWith_complexContent he).bind fun n _ => stopsWith_complexParts (some n) own hrest
    · exact stopsWith_complexParts model own hrest

theorem stopsWith_simpleContent {e : Element} (he : Fair fair e) : StopsWith fair (simpleContent e) := by
  cases e with
  | mk _ _ _ _ inner =>
    rw [simpleContent]
    exact (stopsWith_simpleDerivation none (fair_inner he)).bind fun _ _ => stopsWith_pure _

theorem stopsWith_simpleDerivation {es : List Element} (content : Option Node) (hes : ∀ e ∈ es, Fair fair e) :
    StopsWith fair (simpleDerivation content es) := by
  cases es with
  | nil =>
    rw [simpleDerivation]
    exact stopsWith_pure content
  | cons e es =>
    obtain ⟨he, hrest⟩ := List.forall_mem_cons.1 hes
    cases e with
    | mk _ _ _ _ inner =>
      have hinner := fair_inner he
      rw [simpleDerivation]
      split
      · exact stopsWith_simpleDerivation content hrest
      · refine (stopsWith_attributes none hinner).bind fun members _ => ?_
        dsimp only
        split
        · exact (stopsWith_name? he "base").bind fun base _ => stopsWith_simpleDerivation _ hrest
        · refine (stopsWith_name? he "base").bind fun base _ => ?_
          refine (stopsWith_innerSimpleType none hinner).bind fun baseType _ => ?_
          exact stopsWith_simpleDerivation _ hrest
        · exact stopsWith_simpleDerivation content hrest

theorem stopsWith_complexContent {e : Element} (he : Fair fair e) : StopsWith fair (complexContent e) := by
  cases e with
  | mk _ _ _ _ inner =>
    rw [complexContent]
    exact (stopsWith_complexDerivation none (fair_inner he)).bind fun _ _ => stopsWith_pure _

theorem stopsWith_complexDerivation {es : List Element} (content : Option Node) (hes : ∀ e ∈ es, Fair fair e) :
    StopsWith fair (complexDerivation content es) := by
  cases es with
  | nil =>
    rw [complexDerivation]
    exact stopsWith_pure content
  | cons e es =>
    obtain ⟨he, hrest⟩ := List.forall_mem_cons.1 hes
    cases e with
    | mk _ _ _ _ inner =>
      have hinner := fair_inner he
      rw [complexDerivation]
      split
      iterate 2
        refine (stopsWith_name? he "base").bind fun base _ => ?_
        refine (stopsWith_attributes none hinner).bind fun members _ => ?_
        refine (stopsWith_innerParticle true none hinner).bind fun own _ => ?_
        exact stopsWith_complexDerivation _ hrest
      exact stopsWith_complexDerivation content hrest

end

theorem stopsWith_group (he : Fair fair e) : StopsWith fair (group e) :=
  (stopsWith_innerParticle false none fun _ hx => fair_child he hx).bind fun _ _ => stopsWith_pure _

theorem stopsWith_attributeGroup (he : Fair fair e) : StopsWith fair (attributeGroup e) :=
  (stopsWith_attributes none fun _ hx => fair_child he hx).bind fun _ _ => stopsWith_pure _

/-! ### Components -/

/-- An element that is read at the top of a schema is a component unless it refers to one. -/
theorem exists_ref_of_element {n : Node} (h : element true e = .ok n) (hn : n.shape.component? = none) :
    (e.attribute? "ref").isSome := by
  cases e with
  | mk tag attributes text scope inner =>
    rw [element] at h
    obtain ⟨ref, href, h⟩ := bind_eq_ok.1 h
    cases ref with
    | some ref =>
      rw [name?] at href
      split at href
      · cases href
      · rename_i hvalue
        rw [hvalue]
        rfl
    | none =>
      obtain ⟨typeName, -, h⟩ := bind_eq_ok.1 h
      obtain ⟨head, -, h⟩ := bind_eq_ok.1 h
      obtain ⟨bounds, -, h⟩ := bind_eq_ok.1 h
      obtain ⟨own, -, h⟩ := bind_eq_ok.1 h
      cases h
      cases hn

theorem exists_ref_of_attribute {n : Node} (h : attributeOrRef true e = .ok n) (hn : n.shape.component? = none) :
    (e.attribute? "ref").isSome := by
  cases e with
  | mk tag attributes text scope inner =>
    rw [attributeOrRef] at h
    obtain ⟨ref, href, h⟩ := bind_eq_ok.1 h
    cases ref with
    | some ref =>
      rw [name?] at href
      split at href
      · cases href
      · rename_i hvalue
        rw [hvalue]
        rfl
    | none =>
      obtain ⟨typeName, -, h⟩ := bind_eq_ok.1 h
      obtain ⟨own, -, h⟩ := bind_eq_ok.1 h
      cases h
      cases hn

theorem stopsWith_add {s : Schema} {table : TableName} {x : Except Fault Node} (hx : StopsWith fair x)
    (hcomponent : ∀ n, x = .ok n → n.shape.component? = none → fair .wrongNode) :
    StopsWith fair (do s.add table (← x)) := by
  refine hx.bind fun n hn f hf => ?_
  rw [add] at hf
  split at hf
  · rename_i hnone
    cases hf
    exact hcomponent n hn hnone
  · cases hf

def IsReference (e : Element) : Prop :=
  (construct? e = some .element ∨ construct? e = some .attribute) ∧ (e.attribute? "ref").isSome

theorem fault_of_addConstruct {s : Schema} {f : Fault} {log log' : Array Log.Entry} (he : Fair fair e)
    (href : IsReference e → fair .wrongNode) (h : (addConstruct s e).run.run log = (.error f, log')) : fair f := by
  have hrun {x : Except Fault Schema} (hx : StopsWith fair x)
      (h : (Run.ofExcept x).run.run log = (.error f, log')) : fair f := by
    rw [Run.run_ofExcept] at h
    exact hx f (congrArg Prod.fst h)
  rw [addConstruct] at h
  split at h
  · rename_i hkind
    exact hrun (stopsWith_add (stopsWith_element true he)
      fun n hn hnone => href ⟨.inl hkind, exists_ref_of_element hn hnone⟩) h
  · rename_i hkind
    exact hrun (stopsWith_add (stopsWith_attributeOrRef true he)
      fun n hn hnone => href ⟨.inr hkind, exists_ref_of_attribute hn hnone⟩) h
  -- a definition is always a component
  · refine hrun (stopsWith_add (stopsWith_simpleType he) fun n hn hnone => ?_) h
    cases e with
    | mk _ _ _ _ inner =>
      rw [simpleType] at hn
      obtain ⟨content, -, hn⟩ := bind_eq_ok.1 hn
      cases hn
      cases hnone
  · refine hrun (stopsWith_add (stopsWith_complexType he) fun n hn hnone => ?_) h
    cases e with
    | mk _ _ _ _ inner =>
      rw [complexType] at hn
      obtain ⟨members, -, hn⟩ := bind_eq_ok.1 hn
      obtain ⟨parts, -, hn⟩ := bind_eq_ok.1 hn
      cases hn
      cases hnone
  · refine hrun (stopsWith_add (stopsWith_group he) fun n hn hnone => ?_) h
    obtain ⟨own, -, hn⟩ := bind_eq_ok.1 hn
    cases hn
    cases hnone
  · refine hrun (stopsWith_add (stopsWith_attributeGroup he) fun n hn hnone => ?_) h
    obtain ⟨members, -, hn⟩ := bind_eq_ok.1 hn
    cases hn
    cases hnone
  · dsimp only at h
    split at h <;> cases h
  · cases h

end Reader

/-! ## Schemas -/

/-- The faults that the element of a schema is to blame for: besides those of its constructs there is the one of a
reference at its top. -/
inductive Spoils (e : Element) : Fault → Prop
  | inside {f : Fault} (h : Blames e f) : Spoils e f
  | reference {x : Element} (hx : x ∈ e.children) (h : Reader.IsReference x) : Spoils e .wrongNode

theorem fault_of_foldlM {fair : Fault → Prop} {es : List Element} (hes : ∀ e ∈ es, Fair fair e)
    (href : ∀ e ∈ es, Reader.IsReference e → fair .wrongNode) {s : Schema} {f : Fault} {log log' : Array Log.Entry}
    (h : (es.foldlM Reader.addConstruct s).run.run log = (.error f, log')) : fair f := by
  induction es generalizing s log with
  | nil => cases h
  | cons e es ih =>
    obtain ⟨he, hrest⟩ := List.forall_mem_cons.1 hes
    obtain ⟨hrefFirst, hrefRest⟩ := List.forall_mem_cons.1 href
    rw [List.foldlM_cons] at h
    rcases Run.run_bind_eq_error.1 h with hfirst | ⟨s₁, log₁, -, h⟩
    · exact Reader.fault_of_addConstruct he hrefFirst hfirst
    · exact ih hrest hrefRest h

theorem spoils_of_ofElement {e : Element} {f : Fault} {log log' : Array Log.Entry}
    (h : (ofElement e).run.run log = (.error f, log')) : Spoils e f :=
  have hes : ∀ x ∈ e.children, Fair (Spoils e) x := fun _ hx => Reader.fair_child (fun _ hf => .inside hf) hx
  fault_of_foldlM hes (fun _ hx href => .reference hx href) h

end PayloadSchema.Schema

/-! ## Documents -/

namespace PayloadSchema

open Schema Wsdl

/-- The faults of bytes that are no document: a problem, or an encoding that is not supported or not known. -/
inductive Garbles : Fault → Prop
  | problem (p : Problem) : Garbles (.problem p)
  | multiByteEncoding : Garbles (.badValue .multiByteEncoding)
  | unknownEncoding : Garbles .unknownEncoding

section Documents

variable {bytes : List UInt8} {f : Fault} {log log' : Array Log.Entry}

theorem garbles_of_atStart (cs : List Char) : StopsWith Garbles (Xml.Declaration.atStart cs) := by
  refine stopsWith_of_problem .problem fun f hf => ?_
  rw [Xml.Declaration.atStart.eq_def] at hf
  repeat' split at hf
  all_goals first | exact ⟨_, (Except.error.inj hf).symm⟩ | cases hf

theorem garbles_of_declared (shown : Xml.Encoding) (name : String) : StopsWith Garbles (shown.declared name) := by
  intro f hf
  rw [Xml.Encoding.declared] at hf
  split at hf
  · split at hf
    · cases hf
    · split at hf <;> cases hf
      exact .problem _
  · split at hf <;> cases hf
    · exact .multiByteEncoding
    · exact .problem _
    · exact .unknownEncoding

theorem garbles_of_ofBytes (bytes : List UInt8) : StopsWith Garbles (Xml.Element.ofBytes bytes) := by
  refine StopsWith.bind ?_ fun d _ => StopsWith.bind ?_ fun prolog _ => ?_
  · refine (garbles_of_atStart _).bind fun start _ => ?_
    split
    · exact stopsWith_pure _
    · split
      · exact stopsWith_pure _
      · exact (garbles_of_declared _ _).bind fun actual _ => stopsWith_pure _
  · refine StopsWith.bind ?_ fun end' _ => stopsWith_pure _
    exact stopsWith_of_problem .problem (Xml.Doctype.refuses_prolog _ false _)
  · dsimp only
    split
    · exact stopsWith_pure _
    · exact stopsWith_of_problem .problem fun f hf => ⟨_, (Except.error.inj hf).symm⟩

/-- A document that holds no schema that can be read has bytes that are no document, or a schema that spoils its
reading. -/
theorem Schema.fault_of_ofBytes (h : (Schema.ofBytes bytes).run.run log = (.error f, log')) :
    (∃ p, f = .problem p) ∨ Xml.Element.ofBytes bytes = .error f ∧ Garbles f ∨
      ∃ root, Xml.Element.ofBytes bytes = .ok root ∧ Spoils root f := by
  rw [Schema.ofBytes] at h
  rcases Run.run_bind_eq_error.1 h with hroot | ⟨root, log₁, hroot, h⟩
  · rw [Run.run_ofExcept] at hroot
    have hbytes : Xml.Element.ofBytes bytes = .error f := congrArg Prod.fst hroot
    exact .inr (.inl ⟨hbytes, garbles_of_ofBytes bytes f hbytes⟩)
  · rw [Run.run_ofExcept] at hroot
    split at h
    · exact .inr (.inr ⟨root, congrArg Prod.fst hroot, spoils_of_ofElement h⟩)
    · cases h
      exact .inl ⟨_, rfl⟩

def embeddedSchemas (root : Xml.Element) : List Xml.Element :=
  (Reader.children root "types").flatMap fun t => t.children.filter (·.tag = xsd "schema")

theorem fault_of_quiet {α : Type} {r : Except Problem α} (h : (Reader.quiet r).run.run log = (.error f, log')) :
    ∃ p, f = .problem p := by
  rw [Reader.quiet, Run.run_ofExcept] at h
  match r with
  | .ok a => cases h
  | .error p =>
    cases h
    exact ⟨p, rfl⟩

theorem exists_fault_of_mapM {α β : Type} {g : α → Run β} {l : List α}
    (h : (l.mapM g).run.run log = (.error f, log')) :
    ∃ a ∈ l, ∃ log₁ log₂, (g a).run.run log₁ = (.error f, log₂) := by
  induction l generalizing log with
  | nil => cases h
  | cons a l ih =>
    rw [List.mapM_cons] at h
    rcases Run.run_bind_eq_error.1 h with hfirst | ⟨b, log₁, -, h⟩
    · exact ⟨a, List.mem_cons_self, log, log', hfirst⟩
    · rcases Run.run_bind_eq_error.1 h with hrest | ⟨bs, log₂, -, h⟩
      · obtain ⟨a', ha', hrun⟩ := ih hrest
        exact ⟨a', List.mem_cons_of_mem a ha', hrun⟩
      · cases h

/-- A document that holds no service description that can be read has bytes that are no document, or a schema that
spoils its reading, or else a problem. -/
theorem Wsdl.Definition.fault_of_ofBytes (h : (ofBytes bytes).run.run log = (.error f, log')) :
    (∃ p, f = .problem p) ∨ Xml.Element.ofBytes bytes = .error f ∧ Garbles f ∨
      ∃ root, Xml.Element.ofBytes bytes = .ok root ∧ ∃ e ∈ embeddedSchemas root, Spoils e f := by
  rw [ofBytes] at h
  rcases Run.run_bind_eq_error.1 h with hroot | ⟨root, log₁, hroot, h⟩
  · rw [Run.run_ofExcept] at hroot
    have hbytes : Xml.Element.ofBytes bytes = .error f := congrArg Prod.fst hroot
    exact .inr (.inl ⟨hbytes, garbles_of_ofBytes bytes f hbytes⟩)
  · rw [Run.run_ofExcept] at hroot
    split at h
    · rw [ofElement] at h
      rcases Run.run_bind_eq_error.1 h with hschemas | ⟨schemas, log₂, -, h⟩
      · obtain ⟨e, he, log₃, log₄, hrun⟩ := exists_fault_of_mapM hschemas
        exact .inr (.inr ⟨root, congrArg Prod.fst hroot, e, he, spoils_of_ofElement hrun⟩)
      · refine .inl ?_
        rcases Run.run_bind_eq_error.1 h with hstop | ⟨messages, log₃, -, h⟩
        · exact fault_of_quiet hstop
        · rcases Run.run_bind_eq_error.1 h with hstop | ⟨portTypes, log₄, -, h⟩
          · exact fault_of_quiet hstop
          · rcases Run.run_bind_eq_error.1 h with hstop | ⟨bindings, log₅, -, h⟩
            · exact fault_of_quiet hstop
            · rcases Run.run_bind_eq_error.1 h with hstop | ⟨services, log₆, -, h⟩
              · exact fault_of_quiet hstop
              · cases h
    · cases h
      exact .inl ⟨_, rfl⟩

/-- An element in which every occurrence bound is a number. -/
def HasNumbers (e : Xml.Element) : Prop :=
  ∀ x ∈ e.preorder, ∀ key ∈ ["minOccurs", "maxOccurs"], ∀ text, x.attribute? key = some text → text ≠ "unbounded" →
    ∃ n, Text.readInteger text = .ok n

/-- A well-formed document is read or refused with a problem, if the occurrence bounds in its schemas are numbers and
there are only declarations at the top of its schemas. -/
theorem isReported_of_numbers {root : Xml.Element} (hroot : Xml.Element.ofBytes bytes = .ok root)
    (hnumbers : ∀ e ∈ embeddedSchemas root, HasNumbers e)
    (hdeclares : ∀ e ∈ embeddedSchemas root, ∀ x ∈ e.children, ¬Schema.Reader.IsReference x) :
    Service.IsReported bytes := by
  intro f hf
  have hrun : (Wsdl.Definition.ofBytes bytes).run.run #[] = (.error f, (Wsdl.Definition.ofBytes bytes).result.2) :=
    Prod.ext hf rfl
  rcases Wsdl.Definition.fault_of_ofBytes hrun with hproblem | ⟨hbytes, -⟩ | ⟨root', hroot', e, he, hspoils⟩
  · exact hproblem
  · cases hroot.symm.trans hbytes
  · cases hroot.symm.trans hroot'
    cases hspoils with
    | inside hblames =>
      cases hblames with
      | problem p => exact ⟨p, rfl⟩
      | bound hx hkey hvalue htext hcause =>
        obtain ⟨n, hn⟩ := hnumbers e he _ hx _ hkey _ hvalue htext
        cases hn.symm.trans hcause
    | reference hx href => exact absurd href (hdeclares e he _ hx)

end Documents

end PayloadSchema
