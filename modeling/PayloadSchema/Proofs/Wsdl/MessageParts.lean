import Mathlib.Data.List.Forall2
import Mathlib.Data.List.Nodup
import PayloadSchema.Proofs.Schema.Reading
import PayloadSchema.Wsdl.Binding
import PayloadSchema.Wsdl.Reader

/-!
# Headers and bodies of messages

A binding says which parts of a message go into the header, one by one, and which go into the body, by a list or all of
them.  A part that is bound as a header is not sent in the body too, while a header that is a part of another message
takes nothing away, even if the two parts have the same name.
-/

namespace PayloadSchema.Wsdl

open Schema.Reader
open Xml (Element)

/-! ## What a binding says -/

namespace Reader

structure HeaderOf (e : Element) (h : BoundHeader) : Prop where
  message : qname e "message" = .ok h.message
  part : h.part = (e.attribute? "part").getD ""
  use : use e = .ok h.use

structure BodyOf (e : Element) (b : BoundBody) : Prop where
  use : Reader.use e = .ok b.use
  parts : b.parts = (e.attribute? "parts").map Text.words
  space : b.space = e.attribute? "namespace"

/-- How constructs bind a message: all of the headers in order, and the last of the bodies. -/
structure BoundBy (es : List Element) (b : BoundMessage) : Prop where
  headers : List.Forall₂ HeaderOf (es.filter (isSoap "header")) b.headers
  body : ∀ e, (es.filter (isSoap "body")).getLast? = some e → BodyOf e b.body
  standard : es.filter (isSoap "body") = [] → b.body = .standard

variable {e : Element} {es done : List Element} {b b' : BoundMessage}

theorem isSoap_header_of_body (h : isSoap "body" e) : ¬isSoap "header" e := by
  rw [isSoap, Bool.and_eq_true, decide_eq_true_eq] at h
  simp [isSoap, h.1]

theorem filter_concat_of_pos {p : Element → Bool} (es : List Element) (h : p e) :
    (es ++ [e]).filter p = es.filter p ++ [e] := by
  rw [List.filter_append, List.filter_cons_of_pos h, List.filter_nil]

theorem filter_concat_of_neg {p : Element → Bool} (es : List Element) (h : ¬p e) :
    (es ++ [e]).filter p = es.filter p := by
  rw [List.filter_append, List.filter_cons_of_neg h, List.filter_nil, List.append_nil]

/-- One more construct takes the place of the body, adds a header, or says nothing. -/
theorem BoundBy.concat (h : BoundBy es b) (hstep : boundConstruct b e = .ok b') : BoundBy (es ++ [e]) b' := by
  rw [boundConstruct] at hstep
  split at hstep
  · rename_i hbody
    obtain ⟨u, hu, hstep⟩ := bind_eq_ok.1 hstep
    cases hstep
    have hbodies := filter_concat_of_pos es hbody
    have hheaders := filter_concat_of_neg es (isSoap_header_of_body hbody)
    refine ⟨hheaders ▸ h.headers, fun e' he' => ?_, fun hnone => ?_⟩
    · rw [hbodies, List.getLast?_concat] at he'
      cases he'
      exact ⟨hu, rfl, rfl⟩
    · rw [hbodies] at hnone
      cases List.append_ne_nil_of_right_ne_nil _ (List.cons_ne_nil _ _) hnone
  · rename_i hbody
    have hbodies := filter_concat_of_neg es hbody
    split at hstep
    · rename_i hheader
      obtain ⟨message, hmessage, hstep⟩ := bind_eq_ok.1 hstep
      obtain ⟨u, hu, hstep⟩ := bind_eq_ok.1 hstep
      cases hstep
      refine ⟨?_, fun e' he' => h.body e' (hbodies ▸ he'), fun hnone => h.standard (hbodies ▸ hnone)⟩
      rw [filter_concat_of_pos es hheader]
      exact List.rel_append h.headers (.cons ⟨hmessage, rfl, hu⟩ .nil)
    · rename_i hheader
      cases hstep
      have hheaders := filter_concat_of_neg es hheader
      exact ⟨hheaders ▸ h.headers, fun e' he' => h.body e' (hbodies ▸ he'), fun hnone => h.standard (hbodies ▸ hnone)⟩

theorem BoundBy.foldlM (h : BoundBy done b) (hfold : es.foldlM boundConstruct b = .ok b') :
    BoundBy (done ++ es) b' := by
  induction es generalizing done b with
  | nil =>
    cases hfold
    rwa [List.append_nil]
  | cons e es ih =>
    rw [List.foldlM_cons] at hfold
    obtain ⟨b'', hb'', hfold⟩ := bind_eq_ok.1 hfold
    have hrest := ih (h.concat hb'') hfold
    rwa [List.append_assoc] at hrest

theorem boundBy_of_boundMessage (h : boundMessage e = .ok b) : BoundBy e.children b :=
  @BoundBy.foldlM _ [] ⟨.standard, []⟩ _ ⟨.nil, fun _ he => (by cases he), fun _ => rfl⟩ h

end Reader

/-! ## Parts -/

/-- The parts that a body selects: those of its list in order, or else all parts of the message. -/
def AbstractMessage.Selects (m : AbstractMessage) (b : BoundBody) (selected : List MessagePart) : Prop :=
  match b.parts with
  | none => selected = m.parts
  | some names => List.Forall₂ (fun part p => m.part? part = some p) names selected

/-- The part of a message that a header is bound to. -/
def Definition.Refers (d : Definition) (h : BoundHeader) (p : MessagePart) : Prop :=
  ∃ m, d.messages.get? h.message = some m ∧ m.part? h.part = some p

def BoundMessage.Leaves (b : BoundMessage) (name : QName) (p : MessagePart) : Prop :=
  ∀ h ∈ b.headers, h.message = name → h.part ≠ p.name

instance (b : BoundMessage) (name : QName) (p : MessagePart) : Decidable (b.Leaves name p) :=
  inferInstanceAs (Decidable (∀ h ∈ b.headers, h.message = name → h.part ≠ p.name))

/-- How a message is sent, whose body is bound to the given parts: all that the body selects, and of these the ones
that are left for it. -/
structure Definition.Sends (d : Definition) (b : BoundMessage) (name : QName) (m : AbstractMessage)
    (selected body : List MessagePart) (r : Message) : Prop where
  /-- Every header gives one part, in order. -/
  headers : List.Forall₂ (fun h part => ∃ p, d.Refers h p ∧ part = d.wirePart b.body.space p) b.headers r.header
  selects : m.Selects b.body selected
  left : body = selected.filter (b.Leaves name ·)
  /-- The body has the parts that are left for it, in order. -/
  bodies : r.body = body.map (d.wirePart b.body.space)
  /-- No part is sent both ways. -/
  once : ∀ h ∈ b.headers, h.message = name → ∀ p, d.Refers h p → p ∉ body
  /-- Without a list in the body every part is sent. -/
  all : b.body.parts = none → ∀ p ∈ m.parts, p ∈ body ∨ ∃ h ∈ b.headers, h.message = name ∧ d.Refers h p
  /-- Headers from other messages take nothing away. -/
  others : ∀ p ∈ selected, (∀ h ∈ b.headers, h.part = p.name → h.message ≠ name) → p ∈ body
  use : r.use = .encoded ↔ b.body.use = .encoded ∨ ∃ h ∈ b.headers, h.use = .encoded

section Parts

variable {d : Definition} {m : AbstractMessage} {b : BoundMessage} {h : BoundHeader} {p : MessagePart} {name : QName}

/-- Steps that all succeed give a list, in the order of what they are made for. -/
theorem exists_mapM_eq_ok {ε α β : Type} {f : α → Except ε β} {R : α → β → Prop} {l : List α}
    (h : ∀ a ∈ l, ∃ b, f a = .ok b ∧ R a b) : ∃ bs, l.mapM f = .ok bs ∧ List.Forall₂ R l bs := by
  induction l with
  | nil => exact ⟨[], rfl, .nil⟩
  | cons a l ih =>
    obtain ⟨⟨b, hb, hfirst⟩, hl⟩ := List.forall_mem_cons.1 h
    obtain ⟨bs, hbs, hrest⟩ := ih hl
    refine ⟨b :: bs, ?_, .cons hfirst hrest⟩
    rw [List.mapM_cons]
    exact bind_eq_ok.2 ⟨b, hb, bind_eq_ok.2 ⟨bs, hbs, rfl⟩⟩

theorem AbstractMessage.of_part? {part : String} (h : m.part? part = some p) : p ∈ m.parts ∧ p.name = part :=
  ⟨List.mem_of_find?_eq_some h, by simpa using List.find?_some h⟩

theorem AbstractMessage.part?_of_mem (hdistinct : (m.parts.map (·.name)).Nodup) (hp : p ∈ m.parts) :
    m.part? p.name = some p := by
  cases hfind : m.part? p.name with
  | none => exact absurd (List.find?_eq_none.1 hfind p hp) (by simp)
  | some p' =>
    obtain ⟨hp', hname⟩ := of_part? hfind
    rw [List.inj_on_of_nodup_map hdistinct hp' hp hname]

theorem Definition.headerPart_eq_ok : d.headerPart h = .ok p ↔ d.Refers h p := by
  rw [headerPart, message, Refers]
  cases d.messages.get? h.message with
  | none => simp [bind, Except.bind]
  | some m =>
    cases hpart : m.part? h.part with
    | none => simp [bind, Except.bind, hpart, throw, throwThe, MonadExceptOf.throw]
    | some p' => simp [bind, Except.bind, hpart, pure, Except.pure]

theorem Definition.exists_selects (name : QName)
    (hbody : ∀ names ∈ b.body.parts, ∀ part ∈ names, ∃ p, m.part? part = some p) :
    ∃ selected, bodyParts name m b.body = .ok selected ∧ m.Selects b.body selected := by
  cases hparts : b.body.parts with
  | none => exact ⟨m.parts, by rw [bodyParts, hparts], by rw [AbstractMessage.Selects, hparts]⟩
  | some names =>
    simp only [bodyParts, AbstractMessage.Selects, hparts]
    refine exists_mapM_eq_ok fun part hpart => ?_
    obtain ⟨p, hp⟩ := hbody names hparts part hpart
    exact ⟨p, by rw [hp], hp⟩

theorem Definition.messageUse_eq_encoded :
    messageUse b = .encoded ↔ b.body.use = .encoded ∨ ∃ h ∈ b.headers, h.use = .encoded := by
  rw [messageUse]
  split
  · rename_i h
    have hany : ∃ h ∈ b.headers, h.use = .encoded := by simpa using h
    simp [hany]
  · rename_i h
    have hnone : ¬∃ h ∈ b.headers, h.use = .encoded := by simpa using h
    simp [hnone]

theorem Definition.not_isHeader_eq : (!isHeader name b.headers p) = decide (b.Leaves name p) := by
  rw [Bool.eq_iff_iff, decide_eq_true_eq, BoundMessage.Leaves]
  simp [isHeader]

theorem Definition.exists_boundMessage {operation : QName} {direction : Direction} {style : Style}
    {selected headers : List MessagePart} (hm : d.messages.get? name = some m)
    (hselected : bodyParts name m b.body = .ok selected) (hheaders : b.headers.mapM d.headerPart = .ok headers) :
    ∃ r, d.boundMessage operation direction style b name = .ok r ∧ r.use = messageUse b ∧
      r.header = headers.map (d.wirePart b.body.space) ∧
      r.body = (selected.filter (b.Leaves name ·)).map (d.wirePart b.body.space) := by
  have hmessage : d.message name = .ok m := by rw [message, hm]
  refine ⟨_, bind_eq_ok.2 ⟨m, hmessage, bind_eq_ok.2 ⟨selected, hselected, bind_eq_ok.2 ⟨headers, hheaders, rfl⟩⟩⟩,
    rfl, rfl, ?_⟩
  rw [funext fun p => not_isHeader_eq (p := p)]

/-- The constructs of a binding bind a header each, in order, and what they bind is sent: the headers in order, and in
the body the parts that it selects without those that are bound as headers.  So no part of the message is sent both
ways, with no list in the body each part is sent in one of them, and a header from another message takes no part away.
The message is encoded exactly if the body or a header is. -/
theorem boundMessage_splits_parts (d : Definition) (operation : QName) (direction : Direction) (style : Style)
    {b : BoundMessage} {name : QName} {m : AbstractMessage} (hm : d.messages.get? name = some m)
    (hdistinct : (m.parts.map (·.name)).Nodup)
    (hbody : ∀ names ∈ b.body.parts, ∀ part ∈ names, ∃ p, m.part? part = some p)
    (hheaders : ∀ h ∈ b.headers, ∃ p, d.Refers h p) :
    (∀ e, Reader.boundMessage e = .ok b → Reader.BoundBy e.children b) ∧
      ∃ r selected body, d.boundMessage operation direction style b name = .ok r ∧
        d.Sends b name m selected body r := by
  refine ⟨fun e => Reader.boundBy_of_boundMessage, ?_⟩
  obtain ⟨selected, hselected, hselects⟩ := Definition.exists_selects name hbody
  obtain ⟨headers, hmapM, heach⟩ := exists_mapM_eq_ok (f := d.headerPart) (R := d.Refers) fun h hh => by
    obtain ⟨p, hp⟩ := hheaders h hh
    exact ⟨p, Definition.headerPart_eq_ok.2 hp, hp⟩
  obtain ⟨r, hr, huse, hheader, hleft⟩ := Definition.exists_boundMessage hm hselected hmapM
  refine ⟨r, selected, selected.filter (b.Leaves name ·), hr, ?_, hselects, rfl, hleft, ?_, ?_, ?_, ?_⟩
  · rw [hheader, List.forall₂_map_right_iff]
    exact heach.imp fun h p hp => ⟨p, hp, rfl⟩
  · rintro h hh hmessage p ⟨m', -, hp⟩ hmem
    have hleaves := of_decide_eq_true (List.mem_filter.1 hmem).2
    exact hleaves h hh hmessage (AbstractMessage.of_part? hp).2.symm
  · intro hparts p hp
    rw [AbstractMessage.Selects, hparts] at hselects
    by_cases hleaves : b.Leaves name p
    · exact .inl (List.mem_filter.2 ⟨hselects ▸ hp, decide_eq_true hleaves⟩)
    · simp only [BoundMessage.Leaves, not_forall, not_not] at hleaves
      obtain ⟨h, hh, hmessage, hpart⟩ := hleaves
      -- Names are distinct, so the header that names the part is bound to it and not to another one.
      refine .inr ⟨h, hh, hmessage, m, hmessage ▸ hm, ?_⟩
      rw [hpart]
      exact AbstractMessage.part?_of_mem hdistinct hp
  · intro p hp hother
    exact List.mem_filter.2 ⟨hp, decide_eq_true fun h hh hmessage hpart => hother h hh hpart hmessage⟩
  · rw [huse, Definition.messageUse_eq_encoded]

end Parts

def threeParts : AbstractMessage :=
  ⟨⟨"urn:w", "M"⟩, [⟨"x", none, none⟩, ⟨"y", none, none⟩, ⟨"z", none, none⟩]⟩

/-- A description with that message, and with another one that has a part with the name of one of the three. -/
def partsSample : Definition where
  name := none
  space := "urn:w"
  documentation := none
  schemas := []
  messages := .ofValues (·.name) [threeParts, ⟨⟨"urn:w", "N"⟩, [⟨"y", none, none⟩]⟩]
  portTypes := []
  bindings := []
  services := []

def headerConstruct (message part use : String) : Element :=
  .mk ⟨"http://schemas.xmlsoap.org/wsdl/soap/", "header"⟩
    [(⟨"", "message"⟩, message), (⟨"", "part"⟩, part), (⟨"", "use"⟩, use)] none ⟨[("", "urn:w")]⟩ []

/-- The first of the three parts is bound as a header, and so is the part of the other message. -/
def bindingSample : Element :=
  .mk ⟨Reader.wsdlSpace, "input"⟩ [] none ⟨[("", "urn:w")]⟩
    [headerConstruct "M" "x" "encoded", .mk ⟨"http://schemas.xmlsoap.org/wsdl/soap/", "body"⟩ [] none ⟨[]⟩ [],
      headerConstruct "N" "y" "literal"]

def boundSample : BoundMessage :=
  ⟨.standard, [⟨⟨"urn:w", "M"⟩, "x", .encoded⟩, ⟨⟨"urn:w", "N"⟩, "y", .literal⟩]⟩

/-- There are as many header parts as header constructs, and only the header of the message itself is missing in the
body. -/
theorem boundMessage_splits_parts_sample :
    ∃ b r, Reader.boundMessage bindingSample = .ok b ∧
      partsSample.boundMessage ⟨"urn:w", "o"⟩ .input .document b threeParts.name = .ok r ∧
      r.header.length = (bindingSample.children.filter (Reader.isSoap "header")).length ∧
      r.body.map (·.name) = [⟨"urn:w", "y"⟩, ⟨"urn:w", "z"⟩] ∧ r.use = .encoded := by
  have hb : (Reader.boundMessage bindingSample).toOption = some boundSample := by decide +kernel
  have hheaders : ∀ h ∈ boundSample.headers, ∃ p, partsSample.Refers h p :=
    List.forall_mem_cons.2 ⟨⟨⟨"x", none, none⟩, threeParts, by decide, by decide⟩,
      List.forall_mem_cons.2 ⟨⟨⟨"y", none, none⟩, ⟨⟨"urn:w", "N"⟩, [⟨"y", none, none⟩]⟩, by decide, by decide⟩, by simp⟩⟩
  obtain ⟨hbound, r, selected, body, hr, hsends⟩ := @boundMessage_splits_parts partsSample ⟨"urn:w", "o"⟩ .input
    .document boundSample threeParts.name threeParts (by decide) (by decide) (fun _ h => (by cases h)) hheaders
  refine ⟨boundSample, r, eq_ok_of_toOption hb, hr, ?_, ?_, hsends.use.2 (.inr ⟨_, .head _, rfl⟩)⟩
  · exact hsends.headers.length_eq.symm.trans (hbound _ (eq_ok_of_toOption hb)).headers.length_eq.symm
  · rw [hsends.bodies, hsends.left, hsends.selects]
    decide

end PayloadSchema.Wsdl
