import Mathlib.Data.List.Forall2
import PayloadSchema.Extraction.Rule

/-!
# What a schema accepts

A document is looked at as far as its elements go: each has a name and elements inside of it.  A construct of a
schema takes some of these side by side.  Types that are built in are left open, and so are attributes and values.
-/

namespace PayloadSchema.Schema

open Extraction

/-- An element of a document, with the elements inside of it in order. -/
inductive Document where
  | mk (name : QName) (inner : List Document)

inductive Shuffle {α : Type} : List α → List α → List α → Prop where
  | nil : Shuffle [] [] []
  | left {x : α} {u v w : List α} (h : Shuffle u v w) : Shuffle (x :: u) v (x :: w)
  | right {x : α} {u v w : List α} (h : Shuffle u v w) : Shuffle u (x :: v) (x :: w)

/-- A word that is put together from several others, each of which stays in order. -/
inductive Interleaves {α : Type} : List (List α) → List α → Prop where
  | nil : Interleaves [] []
  | cons {u v w : List α} {words : List (List α)} (hrest : Interleaves words v) (h : Shuffle u v w) :
    Interleaves (u :: words) w

/-- Whether occurrence bounds allow a number of occurrences.  A least number has to be given. -/
def Occurs.Admits (bounds : Occurs) (n : Nat) : Prop :=
  (∃ least, bounds.min = some least ∧ least ≤ n) ∧ ∀ most ∈ bounds.max, n ≤ most

namespace Shape

variable {α : Type}

def bounds : Shape α → Occurs
  | wildcard _ o | modelGroup _ o _ | groupRef _ o | elementRef _ o => o
  | element _ d _ => d.occurs
  | _ => .once

/-- The name of an element in a document, where names at the top of a schema and qualified names are in the
target namespace. -/
def wireName? (s : SchemaOf α) : Shape α → Option QName
  | element c d _ =>
    let space := if c.topLevel ∨ d.form.getD s.elementForm = qualified then s.space else ""
    c.name.map (⟨space, ·⟩)
  | _ => none

end Shape

mutual

/-- Whether a construct of a schema takes some elements, side by side, where it occurs once. -/
inductive Takes (builtin : QName → List Document → Prop) (s : Schema) : Node → List Document → Prop where
  | element {c : Component} {d : ElementDecl} {own : Option Node} {name : QName} {inner : List Document}
    (hname : (Shape.element c d own).wireName? s = some name)
    (htype : Typed builtin s d.typeName own inner) :
    Takes builtin s ⟨.element c d own⟩ [.mk name inner]
  | elementRef {q : QName} {o : Occurs} {n : Node} {word : List Document}
    (hfind : s.find? .elements (some q) = some n) (h : Takes builtin s n word) :
    Takes builtin s ⟨.elementRef (some q) o⟩ word
  | wildcard {w : Wildcard} {o : Occurs} {d : Document} : Takes builtin s ⟨.wildcard w o⟩ [d]
  | sequence {o : Occurs} {items : List Node} {words : List (List Document)}
    (h : List.Forall₂ (Occurring builtin s) items words) :
    Takes builtin s ⟨.modelGroup .sequence o items⟩ words.flatten
  | choice {o : Occurs} {items : List Node} {n : Node} {word : List Document} (hmem : n ∈ items)
    (h : Occurring builtin s n word) : Takes builtin s ⟨.modelGroup .choice o items⟩ word
  | all {o : Occurs} {items : List Node} {words : List (List Document)} {word : List Document}
    (h : List.Forall₂ (Occurring builtin s) items words) (hmix : Interleaves words word) :
    Takes builtin s ⟨.modelGroup .all o items⟩ word
  | groupRef {q : QName} {o : Occurs} {c : Component} {n : Node} {word : List Document}
    (hfind : s.find? .groups (some q) = some ⟨.group c (some n)⟩) (h : Takes builtin s n word) :
    Takes builtin s ⟨.groupRef (some q) o⟩ word
  | simpleType {c : Component} {content : Option Node} : Takes builtin s ⟨.simpleType c content⟩ []
  | particle {c : Component} {d : ComplexDecl} {members : List Node} {any model : Option Node} {n : Node}
    {word : List Document} (h : Occurring builtin s n word) :
    Takes builtin s ⟨.complexType c d members any model (some n)⟩ word
  | model {c : Component} {d : ComplexDecl} {members : List Node} {any : Option Node} {n : Node}
    {word : List Document} (h : Takes builtin s n word) :
    Takes builtin s ⟨.complexType c d members any (some n) none⟩ word
  | empty {c : Component} {d : ComplexDecl} {members : List Node} {any : Option Node} :
    Takes builtin s ⟨.complexType c d members any none none⟩ []
  | simpleContent {content : Option Node} : Takes builtin s ⟨.simpleContent content⟩ []
  | emptyContent {mixed : Option Bool} : Takes builtin s ⟨.complexContent mixed none⟩ []
  | complexContent {mixed : Option Bool} {n : Node} {word : List Document} (h : Takes builtin s n word) :
    Takes builtin s ⟨.complexContent mixed (some n)⟩ word
  | restriction {base : Option QName} {particle : Option Node} {members : List Node} {any : Option Node}
    {word : List Document} (h : Holding builtin s particle word) :
    Takes builtin s ⟨.complexDerivation .restriction base particle members any⟩ word
  | extension {base : Option QName} {particle : Option Node} {members : List Node} {any : Option Node}
    {first second : List Document} (hbase : Based builtin s base first)
    (h : Holding builtin s particle second) :
    Takes builtin s ⟨.complexDerivation .extension base particle members any⟩ (first ++ second)

/-- Whether a particle takes some elements, side by side, where it occurs as often as its bounds allow. -/
inductive Occurring (builtin : QName → List Document → Prop) (s : Schema) :
    Node → List Document → Prop where
  | intro {n : Node} {words : List (List Document)} (hbounds : n.shape.bounds.Admits words.length)
    (h : ∀ word ∈ words, Takes builtin s n word) : Occurring builtin s n words.flatten

inductive Holding (builtin : QName → List Document → Prop) (s : Schema) :
    Option Node → List Document → Prop where
  | absent : Holding builtin s none []
  | present {n : Node} {word : List Document} (h : Occurring builtin s n word) :
    Holding builtin s (some n) word

/-- Whether the base of an extension takes some elements.  A base that is built in adds nothing. -/
inductive Based (builtin : QName → List Document → Prop) (s : Schema) :
    Option QName → List Document → Prop where
  | absent : Based builtin s none []
  | builtin {q : QName} (hq : q.isBuiltin) : Based builtin s (some q) []
  | named {q : QName} {n : Node} {word : List Document} (hq : q.isBuiltin = false)
    (hfind : s.find? .types (some q) = some n) (h : Takes builtin s n word) :
    Based builtin s (some q) word

/-- Whether a type takes some elements, when it is given by a name and in place.  The name counts where both are
given, and a declaration without type allows anything. -/
inductive Typed (builtin : QName → List Document → Prop) (s : Schema) :
    Option QName → Option Node → List Document → Prop where
  | builtin {q : QName} {own : Option Node} {word : List Document} (hq : q.isBuiltin)
    (h : builtin q word) : Typed builtin s (some q) own word
  | named {q : QName} {own : Option Node} {n : Node} {word : List Document} (hq : q.isBuiltin = false)
    (hfind : s.find? .types (some q) = some n) (h : Takes builtin s n word) :
    Typed builtin s (some q) own word
  | own {n : Node} {word : List Document} (h : Takes builtin s n word) :
    Typed builtin s none (some n) word
  | untyped {word : List Document} (h : builtin anyType word) : Typed builtin s none none word

end

/-! ## Equations -/

section Equations

variable {builtin : QName → List Document → Prop} {s : Schema} {c : Component} {members items : List Node}
  {any model particle own content : Option Node} {base name : Option QName} {o : Occurs}
  {word : List Document} {n : Node} {q : QName}

theorem occurring_iff : Occurring builtin s n word ↔
    ∃ words : List (List Document), n.shape.bounds.Admits words.length ∧
      (∀ w ∈ words, Takes builtin s n w) ∧
      word = words.flatten := by
  constructor
  · rintro ⟨hbounds, h⟩
    exact ⟨_, hbounds, h, rfl⟩
  · rintro ⟨words, hbounds, h, rfl⟩
    exact .intro hbounds h

theorem takes_element {d : ElementDecl} : Takes builtin s ⟨.element c d own⟩ word ↔
    ∃ name inner, (Shape.element c d own).wireName? s = some name ∧ Typed builtin s d.typeName own inner ∧
      word = [.mk name inner] := by
  constructor
  · intro h
    cases h with
    | element hname htype => exact ⟨_, _, hname, htype, rfl⟩
  · rintro ⟨name, inner, hname, htype, rfl⟩
    exact .element hname htype

theorem takes_elementRef (hfind : s.find? .elements (some q) = some n) :
    Takes builtin s ⟨.elementRef (some q) o⟩ word ↔ Takes builtin s n word := by
  constructor
  · intro h
    cases h with
    | elementRef hfind' h =>
      cases hfind.symm.trans hfind'
      exact h
  · exact .elementRef hfind

theorem takes_groupRef (hfind : s.find? .groups (some q) = some ⟨.group c (some n)⟩) :
    Takes builtin s ⟨.groupRef (some q) o⟩ word ↔ Takes builtin s n word := by
  constructor
  · intro h
    cases h with
    | groupRef hfind' h =>
      cases hfind.symm.trans hfind'
      exact h
  · exact .groupRef hfind

theorem takes_wildcard {w : Wildcard} : Takes builtin s ⟨.wildcard w o⟩ word ↔ ∃ d, word = [d] := by
  constructor
  · intro h
    cases h
    exact ⟨_, rfl⟩
  · rintro ⟨d, rfl⟩
    exact .wildcard

theorem takes_sequence : Takes builtin s ⟨.modelGroup .sequence o items⟩ word ↔
    ∃ words, List.Forall₂ (Occurring builtin s) items words ∧ word = words.flatten := by
  constructor
  · intro h
    cases h with
    | sequence h => exact ⟨_, h, rfl⟩
  · rintro ⟨words, h, rfl⟩
    exact .sequence h

theorem takes_choice : Takes builtin s ⟨.modelGroup .choice o items⟩ word ↔
    ∃ n ∈ items, Occurring builtin s n word := by
  constructor
  · intro h
    cases h with
    | choice hmem h => exact ⟨_, hmem, h⟩
  · rintro ⟨n, hmem, h⟩
    exact .choice hmem h

theorem takes_all : Takes builtin s ⟨.modelGroup .all o items⟩ word ↔
    ∃ words, List.Forall₂ (Occurring builtin s) items words ∧ Interleaves words word := by
  constructor
  · intro h
    cases h with
    | all h hmix => exact ⟨_, h, hmix⟩
  · rintro ⟨words, h, hmix⟩
    exact .all h hmix

theorem takes_simpleType : Takes builtin s ⟨.simpleType c content⟩ word ↔ word = [] := by
  constructor
  · intro h
    cases h
    rfl
  · rintro rfl
    exact .simpleType

theorem takes_complexType {d : ComplexDecl} :
    Takes builtin s ⟨.complexType c d members any model particle⟩ word ↔
      match particle, model with
      | some n, _ => Occurring builtin s n word
      | none, some n => Takes builtin s n word
      | none, none => word = [] := by
  constructor
  · intro h
    cases h with
    | particle h => exact h
    | model h => exact h
    | empty => rfl
  · cases particle with
    | some n => exact .particle
    | none =>
      cases model with
      | some n => exact .model
      | none =>
        rintro rfl
        exact .empty

theorem takes_simpleContent : Takes builtin s ⟨.simpleContent content⟩ word ↔ word = [] := by
  constructor
  · intro h
    cases h
    rfl
  · rintro rfl
    exact .simpleContent

def Kind.words? : Kind → Option (List Document → Prop)
  | .element | .elementRef | .sequence | .choice | .all | .groupRef | .complexType | .complexContent
  | .complexContentExtension | .complexContentRestriction => none
  | .wildcard => some fun word => ∃ d, word = [d]
  | .simpleType | .simpleContent => some fun word => word = []
  | _ => some fun _ => False

theorem takes_of_words? {words : List Document → Prop} (h : n.shape.kind.words? = some words) :
    Takes builtin s n word ↔ words word := by
  have hnone (h : some (fun _ => False) = some words) (hnot : ¬ Takes builtin s n word) :
      Takes builtin s n word ↔ words word := by
    cases h
    simpa using hnot
  obtain ⟨shape⟩ := n
  cases shape with
  | wildcard =>
    cases h
    exact takes_wildcard
  | simpleType =>
    cases h
    exact takes_simpleType
  | simpleContent =>
    cases h
    exact takes_simpleContent
  | modelGroup order =>
    cases order with
    | unspecified => exact hnone h (by rintro ⟨⟩)
    | _ => cases h
  | complexDerivation how => cases how <;> cases h
  | element | elementRef | groupRef | complexType | complexContent => cases h
  | _ => exact hnone h (by rintro ⟨⟩)

theorem takes_complexContent {mixed : Option Bool} : Takes builtin s ⟨.complexContent mixed content⟩ word ↔
    match content with
    | some n => Takes builtin s n word
    | none => word = [] := by
  constructor
  · intro h
    cases h with
    | emptyContent => rfl
    | complexContent h => exact h
  · cases content with
    | some n => exact .complexContent
    | none =>
      rintro rfl
      exact .emptyContent

theorem holding_iff : Holding builtin s particle word ↔
    match particle with
    | some n => Occurring builtin s n word
    | none => word = [] := by
  constructor
  · intro h
    cases h with
    | absent => rfl
    | present h => exact h
  · cases particle with
    | some n => exact .present
    | none =>
      rintro rfl
      exact .absent

theorem holding_none : Holding builtin s none word ↔ word = [] :=
  holding_iff

theorem takes_restriction :
    Takes builtin s ⟨.complexDerivation .restriction base particle members any⟩ word ↔
      Holding builtin s particle word := by
  constructor
  · intro h
    cases h with
    | restriction h => exact h
  · exact .restriction

theorem takes_extension :
    Takes builtin s ⟨.complexDerivation .extension base particle members any⟩ word ↔
      ∃ first second, Based builtin s base first ∧ Holding builtin s particle second ∧
        word = first ++ second := by
  constructor
  · intro h
    cases h with
    | extension hbase h => exact ⟨_, _, hbase, h, rfl⟩
  · rintro ⟨first, second, hbase, h, rfl⟩
    exact .extension hbase h

theorem based_builtin (h : ∀ q ∈ base, q.isBuiltin) : Based builtin s base word ↔ word = [] := by
  constructor
  · intro hbased
    cases hbased with
    | absent | builtin => rfl
    | named hq => simp [hq] at h
  · rintro rfl
    cases base with
    | none => exact .absent
    | some q => exact .builtin (h q rfl)

theorem based_named (hq : q.isBuiltin = false) (hfind : s.find? .types (some q) = some n) :
    Based builtin s (some q) word ↔ Takes builtin s n word := by
  constructor
  · intro h
    cases h with
    | builtin hq' => simp [hq] at hq'
    | named _ hfind' h =>
      cases hfind.symm.trans hfind'
      exact h
  · exact .named hq hfind

theorem typed_builtin (hq : q.isBuiltin) : Typed builtin s (some q) own word ↔ builtin q word := by
  constructor
  · intro h
    cases h with
    | builtin _ h => exact h
    | named hq' => simp [hq] at hq'
  · exact .builtin hq

theorem typed_named (hq : q.isBuiltin = false) (hfind : s.find? .types (some q) = some n) :
    Typed builtin s (some q) own word ↔ Takes builtin s n word := by
  constructor
  · intro h
    cases h with
    | builtin hq' => simp [hq] at hq'
    | named _ hfind' h =>
      cases hfind.symm.trans hfind'
      exact h
  · exact .named hq hfind

theorem typed_own : Typed builtin s none (some n) word ↔ Takes builtin s n word := by
  constructor
  · intro h
    cases h with
    | own h => exact h
  · exact .own

theorem typed_untyped : Typed builtin s none none word ↔ builtin anyType word := by
  constructor
  · intro h
    cases h with
    | untyped h => exact h
  · exact .untyped

theorem admits_once {k : Nat} : Occurs.once.Admits k ↔ k = 1 := by
  simp only [Occurs.Admits, Occurs.once, Option.some.injEq, Option.mem_def, exists_eq_left', forall_eq']
  omega

theorem occurring_once (h : n.shape.bounds = .once) :
    Occurring builtin s n word ↔ Takes builtin s n word := by
  rw [occurring_iff, h]
  constructor
  · rintro ⟨words, hlength, hwords, rfl⟩
    obtain ⟨w, rfl⟩ := List.length_eq_one_iff.1 (admits_once.1 hlength)
    simpa using hwords
  · intro hword
    exact ⟨[word], admits_once.2 rfl, by simpa using hword, by simp⟩

theorem occurring_pair {a b : Node} : Occurring builtin s ⟨.modelGroup .sequence .once [a, b]⟩ word ↔
    ∃ first second, Occurring builtin s a first ∧ Occurring builtin s b second ∧
      word = first ++ second := by
  rw [occurring_once rfl, takes_sequence]
  constructor
  · rintro ⟨words, h, rfl⟩
    obtain ⟨first, _, ha, hrest, rfl⟩ := List.forall₂_cons_left_iff.1 h
    obtain ⟨second, _, hb, hnil, rfl⟩ := List.forall₂_cons_left_iff.1 hrest
    obtain rfl := List.forall₂_nil_left_iff.1 hnil
    exact ⟨first, second, ha, hb, by simp⟩
  · rintro ⟨first, second, ha, hb, rfl⟩
    exact ⟨[first, second], .cons ha (.cons hb .nil), by simp⟩

end Equations

end PayloadSchema.Schema
