import Mathlib.Data.Option.Basic
import PayloadSchema.Proofs.Text.WrittenTexts
import PayloadSchema.Proofs.Xml.InheritedDeclarations
import PayloadSchema.Wsdl.Reader

/-!
# Names in service descriptions and in schemas

A schema's reader takes the blanks around a name away before it looks the prefix up, and the reader of a service
description does not.  Both look up the same name where there are no blanks.  Where there are blanks they never
find the same: the blanks in front belong to the prefix then, and those behind to the local name.
-/

namespace PayloadSchema

namespace Text

variable {blanks cs before after : List Char}

theorem dropWhile_blanks (hblanks : ∀ c ∈ blanks, isBlank c) (hhead : ∀ c, cs.head? = some c → isBlank c = false) :
    (blanks ++ cs).dropWhile isBlank = cs := by
  rw [List.dropWhile_append_of_pos hblanks]
  cases cs with
  | nil => rfl
  | cons c cs => rw [List.dropWhile_cons_of_neg (by simp [hhead c rfl])]

theorem trimChars_padded (hbefore : ∀ c ∈ before, isBlank c) (hafter : ∀ c ∈ after, isBlank c) (hne : cs ≠ [])
    (hcs : NoBlank cs) : trimChars (before ++ cs ++ after) = cs := by
  have hfront : (before ++ cs ++ after).dropWhile isBlank = cs ++ after := by
    rw [List.append_assoc]
    refine dropWhile_blanks hbefore fun c hc => hcs c (List.mem_of_head? ?_)
    rwa [List.head?_append_of_ne_nil _ hne] at hc
  have hback : (cs ++ after).reverse.dropWhile isBlank = cs.reverse := by
    rw [List.reverse_append]
    exact dropWhile_blanks (fun c hc => hafter c (List.mem_reverse.1 hc))
      fun c hc => hcs c (List.mem_reverse.1 (List.mem_of_head? hc))
  rw [trimChars, hfront, dropTail, hback, List.reverse_reverse]

end Text

open Xml Text

/-! ## Written names -/

inductive WrittenName where
  | plain (name : String)
  | prefixed (label name : String)

namespace WrittenName

def text : WrittenName → String
  | plain name => name
  | prefixed label name => label ++ ":" ++ name

/-- The prefix, which is empty if there is none. -/
def label : WrittenName → String
  | plain _ => ""
  | prefixed label _ => label

/-- The name that is meant in a scope.  Without a prefix it is in the default namespace, if there is one. -/
def find? (s : Scope) : WrittenName → Option QName
  | plain name => some ⟨(s.find? "").getD "", name⟩
  | prefixed label name => (s.find? label).map (⟨·, name⟩)

/-- Whether the colon that is written is the only one, and has a prefix in front. -/
def OneColon : WrittenName → Prop
  | plain name => ':' ∉ name.toList
  | prefixed label name => label ≠ "" ∧ ':' ∉ label.toList ∧ ':' ∉ name.toList

instance : (n : WrittenName) → Decidable n.OneColon
  | plain name => inferInstanceAs (Decidable (':' ∉ name.toList))
  | prefixed label name => inferInstanceAs (Decidable (label ≠ "" ∧ ':' ∉ label.toList ∧ ':' ∉ name.toList))

/-- The name with more text in front, as a part of what is first in it, and behind. -/
def padded (before after : String) : WrittenName → WrittenName
  | plain name => plain (before ++ name ++ after)
  | prefixed label name => prefixed (before ++ label) (name ++ after)

theorem text_padded (before after : String) (n : WrittenName) :
    (n.padded before after).text = before ++ n.text ++ after := by
  cases n with
  | plain name => rfl
  | prefixed label name => simp only [padded, text, String.append_assoc]

end WrittenName

/-! ## Splitting -/

section Splitting

variable {label name value : String}

theorem Wsdl.Reader.splitLast_prefixed (h : ':' ∉ name.toList) :
    splitLast (label ++ ":" ++ name) = (label, name) := by
  have hcolon : ∀ c ∈ name.toList.reverse, decide (c ≠ ':') = true := fun c hc =>
    decide_eq_true fun heq => h (heq ▸ List.mem_reverse.1 hc)
  have hback : (label ++ ":" ++ name).toList.reverse = name.toList.reverse ++ ':' :: label.toList.reverse := by
    simp
  rw [splitLast, hback, List.dropWhile_append_of_pos hcolon, List.takeWhile_append_of_pos hcolon]
  simp

theorem Wsdl.Reader.splitLast_plain (h : ':' ∉ value.toList) : splitLast value = ("", value) := by
  have hall : value.toList.reverse.dropWhile (· ≠ ':') = [] :=
    List.dropWhile_eq_nil_iff.2 fun c hc => decide_eq_true fun heq => h (heq ▸ List.mem_reverse.1 hc)
  rw [splitLast, hall]

end Splitting

/-! ## Both readers -/

section Readers

variable {e e' : Element} {key key' before after : String} {n : WrittenName}

/-- What the reader of a schema finds behind a text without blanks at its ends. -/
theorem Schema.Reader.resolve_text (hn : n.OneColon) (s : Scope) :
    resolve s n.text = match n.find? s with
      | some q => .ok q
      | none => .error (.problem (.undeclaredPrefix n.label n.text)) := by
  cases n with
  | plain name =>
    rw [WrittenName.text, resolve, splitName_plain hn]
    rfl
  | prefixed label name =>
    rw [WrittenName.text, resolve, splitName_prefixed hn.2.1, WrittenName.find?]
    dsimp only
    cases s.find? label with
    | none => rfl
    | some space => rfl

theorem Wsdl.Reader.qname?_text (hn : n.OneColon) (hvalue : e.attribute? key = some n.text) :
    qname? e key = match n.find? e.scope with
      | some q => .ok (some q)
      | none => .error (.undeclaredAttributePrefix n.label key n.text) := by
  rw [qname?, hvalue]
  cases n with
  | plain name =>
    simp only [WrittenName.text, splitLast_plain hn, WrittenName.find?]
    cases e.scope.find? "" with
    | none => rfl
    | some space => rfl
  | prefixed label name =>
    simp only [WrittenName.text, splitLast_prefixed hn.2.2, WrittenName.find?]
    cases e.scope.find? label with
    | none => exact if_neg hn.1
    | some space => rfl

theorem WrittenName.OneColon.padded (hn : n.OneColon) (hbefore : ∀ c ∈ before.toList, isBlank c)
    (hafter : ∀ c ∈ after.toList, isBlank c) : (n.padded before after).OneColon := by
  have hblanks {s : String} (h : ∀ c ∈ s.toList, isBlank c) : ':' ∉ s.toList :=
    fun hcolon => absurd (h _ hcolon) (by decide)
  have hfront := hblanks hbefore
  have hback := hblanks hafter
  cases n with
  | plain name =>
    have hname : ':' ∉ name.toList := hn
    simp only [WrittenName.padded, WrittenName.OneColon, String.toList_append, List.mem_append, not_or]
    exact ⟨⟨hfront, hname⟩, hback⟩
  | prefixed label name =>
    obtain ⟨hne, hlabel, hname⟩ := hn
    simp only [WrittenName.padded, WrittenName.OneColon, String.toList_append, List.mem_append, not_or]
    exact ⟨fun h => hne (String.append_eq_empty_iff.1 h).2, ⟨hfront, hlabel⟩, hname, hback⟩

theorem append_append_eq_self {before s after : String} : before ++ s ++ after = s ↔ before = "" ∧ after = "" := by
  constructor
  · intro h
    have hlength := congrArg String.length h
    rw [String.length_append, String.length_append] at hlength
    exact ⟨String.length_eq_zero_iff.1 (by omega), String.length_eq_zero_iff.1 (by omega)⟩
  · rintro ⟨rfl, rfl⟩
    simp

/-- With more in front of it or behind it a name stands for another name, where prefixes hold no blanks. -/
theorem WrittenName.find?_padded {s : Scope} (hbefore : ∀ c ∈ before.toList, isBlank c)
    (hlabels : ∀ label space, s.find? label = some space → NoBlank label.toList) :
    (n.padded before after).find? s = n.find? s ↔ before = "" ∧ after = "" ∨ n.find? s = none := by
  cases n with
  | plain name =>
    simp only [WrittenName.padded, find?, Option.some.injEq, QName.mk.injEq, true_and, reduceCtorEq, or_false]
    exact append_append_eq_self
  | prefixed label name =>
    rw [WrittenName.padded, find?, find?]
    by_cases hempty : before = ""
    · rw [hempty, String.empty_append]
      cases s.find? label with
      | none => simp
      | some space => simp
    · -- A blank in front makes another prefix of it, which is not bound.
      have hnone : s.find? (before ++ label) = none := by
        cases hfind : s.find? (before ++ label) with
        | none => rfl
        | some space =>
          obtain ⟨c, hc⟩ := List.exists_mem_of_ne_nil before.toList (by simpa using hempty)
          have hclean := hlabels _ _ hfind c (by simp [hc])
          rw [hbefore c hc] at hclean
          cases hclean
      rw [hnone]
      cases s.find? label with
      | none => simp
      | some space => simp [hempty]

theorem Schema.Reader.name?_padded (hn : n.OneColon) (hne : n.text ≠ "") (hclean : NoBlank n.text.toList)
    (hbefore : ∀ c ∈ before.toList, isBlank c) (hafter : ∀ c ∈ after.toList, isBlank c)
    (hvalue : e.attribute? key = some (before ++ n.text ++ after)) :
    name? e key = match n.find? e.scope with
      | some q => .ok (some q)
      | none => .error (.problem (.undeclaredPrefix n.label n.text)) := by
  have htrim : trim (before ++ n.text ++ after) = n.text := by
    rw [trim, String.toList_append, String.toList_append,
      trimChars_padded hbefore hafter (by simpa using hne) hclean, String.ofList_toList]
  rw [name?, hvalue]
  simp only [htrim, resolve_text hn]
  cases n.find? e.scope with
  | none => rfl
  | some q => rfl

theorem WrittenName.find?_congr {s s' : Scope} (h : s.Agrees s') (n : WrittenName) : n.find? s = n.find? s' := by
  cases n with
  | plain name => rw [find?, find?, h]
  | prefixed label name => rw [find?, find?, h]

/-- Where no blank stands around a name and the same prefixes are bound, the two readers find the same name, or both of
them complain of the same prefix. -/
theorem readers_agree (hn : n.OneColon) (hne : n.text ≠ "") (hclean : NoBlank n.text.toList)
    (hvalue : e.attribute? key = some n.text) (hvalue' : e'.attribute? key' = some n.text)
    (hscope : e.scope.Agrees e'.scope) :
    (∃ q, Wsdl.Reader.qname? e key = .ok (some q) ∧ Schema.Reader.name? e' key' = .ok (some q)) ∨
      Wsdl.Reader.qname? e key = .error (.undeclaredAttributePrefix n.label key n.text) ∧
        Schema.Reader.name? e' key' = .error (.problem (.undeclaredPrefix n.label n.text)) := by
  have hbare : n.text = "" ++ n.text ++ "" := by simp
  have hnone : ∀ c ∈ "".toList, isBlank c := by simp
  have hschema := Schema.Reader.name?_padded hn hne hclean hnone hnone (hbare ▸ hvalue')
  have hdescription := Wsdl.Reader.qname?_text hn hvalue
  rw [n.find?_congr hscope] at hdescription
  cases hfind : n.find? e'.scope with
  | none =>
    rw [hfind] at hschema hdescription
    exact .inr ⟨hdescription, hschema⟩
  | some q =>
    rw [hfind] at hschema hdescription
    exact .inl ⟨q, hdescription, hschema⟩

def namedPart : Element :=
  .mk ⟨"", "part"⟩ [(⟨"", "name"⟩, "x"), (⟨"", "element"⟩, "t:a")] none ⟨[("t", "urn:t"), ("", "urn:w")]⟩ []

def namedReference : Element :=
  .mk (xsd "element") [(⟨"", "ref"⟩, "t:a")] none ⟨[("", "urn:w"), ("t", "urn:t")]⟩ []

theorem agrees_named : namedPart.scope.Agrees namedReference.scope := by
  intro label
  rw [namedPart, namedReference, Element.scope, Element.scope, Scope.find?, Scope.find?]
  simp only [List.lookup_cons, List.lookup_nil]
  split <;> split <;> simp_all

theorem readers_agree_sample :
    Wsdl.Reader.qname? namedPart "element" = .ok (some ⟨"urn:t", "a"⟩) ∧
      Schema.Reader.name? namedReference "ref" = .ok (some ⟨"urn:t", "a"⟩) := by
  have hfound : Wsdl.Reader.qname? namedPart "element" = .ok (some ⟨"urn:t", "a"⟩) := rfl
  have hname : (WrittenName.prefixed "t" "a").OneColon := by decide
  have hclean : NoBlank (WrittenName.prefixed "t" "a").text.toList :=
    List.forall_mem_cons.2 ⟨by decide, List.forall_mem_cons.2 ⟨by decide, List.forall_mem_singleton.2 (by decide)⟩⟩
  have helement : namedPart.attribute? "element" = some (WrittenName.prefixed "t" "a").text := by decide
  have href : namedReference.attribute? "ref" = some (WrittenName.prefixed "t" "a").text := by decide
  rcases readers_agree hname (by decide) hclean helement href agrees_named with
    ⟨q, hpart, hreference⟩ | ⟨hpart, -⟩
  · cases hpart.symm.trans hfound
    exact ⟨hfound, hreference⟩
  · cases hpart.symm.trans hfound

/-- Where the same prefixes are bound the two readers find the same behind the same text exactly if no blank stands
around the name, unless the prefix is undeclared, so that neither of them finds anything. -/
theorem readers_agree_iff (hn : n.OneColon) (hne : n.text ≠ "") (hclean : NoBlank n.text.toList)
    (hbefore : ∀ c ∈ before.toList, isBlank c) (hafter : ∀ c ∈ after.toList, isBlank c)
    (hvalue : e.attribute? key = some (before ++ n.text ++ after))
    (hvalue' : e'.attribute? key' = some (before ++ n.text ++ after)) (hscope : e.scope.Agrees e'.scope)
    (hlabels : ∀ label space, e.scope.find? label = some space → NoBlank label.toList) :
    (Wsdl.Reader.qname? e key).toOption = (Schema.Reader.name? e' key').toOption ↔
      before = "" ∧ after = "" ∨ n.find? e'.scope = none := by
  have hschema := Schema.Reader.name?_padded hn hne hclean hbefore hafter hvalue'
  have hdescription := Wsdl.Reader.qname?_text (hn.padded hbefore hafter)
    (hvalue.trans (congrArg some (n.text_padded before after).symm))
  have hfound : (Wsdl.Reader.qname? e key).toOption = ((n.padded before after).find? e.scope).map some := by
    rw [hdescription]
    cases (n.padded before after).find? e.scope with
    | none => rfl
    | some q => rfl
  have hfound' : (Schema.Reader.name? e' key').toOption = (n.find? e'.scope).map some := by
    rw [hschema]
    cases n.find? e'.scope with
    | none => rfl
    | some q => rfl
  rw [hfound, hfound', ← n.find?_congr hscope, ← n.find?_padded hbefore hlabels]
  exact (Option.map_injective (Option.some_injective _)).eq_iff

/-- With a blank in front of the prefix only the reader of a schema finds the name. -/
example :
    let e : Element := .mk ⟨"", "part"⟩ [(⟨"", "element"⟩, " t:a")] none ⟨[("t", "urn:t")]⟩ []
    (Schema.Reader.name? e "element").toOption = some (some ⟨"urn:t", "a"⟩) ∧
      (Wsdl.Reader.qname? e "element").toOption = none := by decide +kernel

end Readers

end PayloadSchema
