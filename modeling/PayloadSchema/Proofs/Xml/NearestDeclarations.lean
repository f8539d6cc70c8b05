import Mathlib.Data.List.Chain
import PayloadSchema.Proofs.Xml.InheritedDeclarations
import PayloadSchema.Xml.Event

/-!
# Nearest declarations

An element sees the declarations that it carries and those of the elements around it, the nearest first.  What is
declared on another element is not seen.  A stack of scopes that is kept while the tags go by records the same scopes
as the descent into the tree.
-/

namespace PayloadSchema.Xml

open Schema.Reader

/-! ## Locations -/

/-- An element of a document, with the elements around it, innermost first. -/
structure Location where
  element : Tree
  around : List Tree

namespace Location

def line (p : Location) : List Tree :=
  p.element :: p.around

/-- What the nearest element that declares a prefix binds it to. -/
def declaration? (p : Location) (label : String) : Option String :=
  p.line.findSome? (·.declared.reverse.lookup label)

/-- Whether each element of the line is a child of the next, up to the given root. -/
def Within (p : Location) (root : Tree) : Prop :=
  p.line.IsChain (fun t parent => t ∈ parent.children) ∧ p.line.getLast? = some root

end Location

def Scope.ofLine (line : List Tree) : Scope :=
  line.foldr (fun t s => s.extend t.declared) .base

def Location.scope (p : Location) : Scope :=
  .ofLine p.line

mutual

/-- The locations of a tree inside of other elements, in document order. -/
def Tree.locations (around : List Tree) : Tree → List Location
  | .mk name attributes text children =>
    ⟨.mk name attributes text children, around⟩ ::
      Tree.locationsAll (.mk name attributes text children :: around) children

def Tree.locationsAll (around : List Tree) : List Tree → List Location
  | [] => []
  | t :: ts => Tree.locations around t ++ Tree.locationsAll around ts

end

section Scopes

variable {s : Scope} {label : String} {declared : List (String × String)} {line around : List Tree} {t : Tree}

theorem Scope.nodup_bind {space : String} (h : (s.bindings.map (·.1)).Nodup) :
    ((s.bind label space).bindings.map (·.1)).Nodup := by
  rw [Scope.bind, List.map_cons, List.nodup_cons]
  exact ⟨by simp, h.sublist (List.filter_sublist.map _)⟩

theorem Scope.nodup_extend (h : (s.bindings.map (·.1)).Nodup) : ((s.extend declared).bindings.map (·.1)).Nodup := by
  induction declared generalizing s with
  | nil => exact h
  | cons d declared ih => exact ih (nodup_bind h)

theorem Scope.nodup_ofLine : ((Scope.ofLine line).bindings.map (·.1)).Nodup := by
  induction line with
  | nil => exact standard_base.nodup
  | cons t line ih => exact nodup_extend ih

theorem Scope.find?_base : Scope.base.find? label = if label = "xml" then some xmlSpace else none :=
  find?_bind (s := ⟨[]⟩)

theorem Scope.find?_ofLine : (Scope.ofLine line).find? label =
    (line.findSome? (·.declared.reverse.lookup label)).or (if label = "xml" then some xmlSpace else none) := by
  induction line with
  | nil => exact find?_base
  | cons t line ih =>
    rw [ofLine, List.foldr_cons, ← ofLine, find?_extend, ih, List.findSome?_cons]
    cases t.declared.reverse.lookup label with
    | none => rfl
    | some space => rfl

mutual

/-- From a location of a tree each step outwards goes from a child to its parent, and the last one to the root. -/
theorem within_of_mem_locations : ∀ {t : Tree} {around : List Tree} {p : Location}, p ∈ t.locations around →
    ∃ inner, p.line = inner ++ around ∧ inner.IsChain (fun t parent => t ∈ parent.children) ∧
      inner.getLast? = some t
  | .mk name attributes text children, around, p, hp => by
    rw [Tree.locations, List.mem_cons] at hp
    rcases hp with rfl | hp
    · exact ⟨[_], rfl, .singleton _, rfl⟩
    · obtain ⟨t, ht, inner, hline, hchain, hlast⟩ := within_of_mem_locationsAll hp
      refine ⟨inner ++ [.mk name attributes text children], by rw [hline]; simp, ?_, by simp⟩
      refine List.isChain_append.2 ⟨hchain, .singleton _, fun x hx y hy => ?_⟩
      rw [hlast, Option.mem_some_iff] at hx
      rw [List.head?_cons, Option.mem_some_iff] at hy
      rw [← hx, ← hy]
      exact ht

theorem within_of_mem_locationsAll : ∀ {ts : List Tree} {around : List Tree} {p : Location},
    p ∈ Tree.locationsAll around ts → ∃ t ∈ ts, ∃ inner, p.line = inner ++ around ∧
      inner.IsChain (fun t parent => t ∈ parent.children) ∧ inner.getLast? = some t
  | t :: ts, around, p, hp => by
    rw [Tree.locationsAll, List.mem_append] at hp
    rcases hp with hp | hp
    · exact ⟨t, .head _, within_of_mem_locations hp⟩
    · obtain ⟨t', ht', hinner⟩ := within_of_mem_locationsAll hp
      exact ⟨t', .tail _ ht', hinner⟩

end

end Scopes

/-! ## The stack -/

namespace ScopeRecord

variable {stack : List Scope} {recorded : List (Tree × Scope)}

theorem foldlM_declare {pending : List (String × String)} (declared : List (String × String)) :
    (declared.map fun d => Event.declare d.1 d.2).foldlM step? ⟨stack, pending, recorded⟩ =
      some ⟨stack, pending ++ declared, recorded⟩ := by
  induction declared generalizing pending with
  | nil =>
    rw [List.append_nil]
    rfl
  | cons d declared ih =>
    rw [List.map_cons, List.foldlM_cons, step?, Option.bind_eq_bind, Option.bind_some, ih, List.append_assoc]
    rfl

def entries (locations : List Location) : List (Tree × Scope) :=
  locations.map fun p => (p.element, p.scope)

mutual

/-- While a tree goes by, the scopes at its locations are recorded.  After it the stack is as it was before, and no
declaration is held back. -/
theorem foldlM_events : ∀ {t : Tree} {around : List Tree} {recorded : List (Tree × Scope)} {stack : List Scope},
    t.events.foldlM step? ⟨.ofLine around :: stack, [], recorded⟩ =
      some ⟨.ofLine around :: stack, [], recorded ++ entries (t.locations around)⟩
  | .mk name attributes text children, around, recorded, stack => by
    -- The declarations that were held back belong to this element, so that its scope is that of the longer line.
    have hinner := @foldlM_eventsAll children (.mk name attributes text children :: around)
      (recorded ++ entries [⟨.mk name attributes text children, around⟩]) (.ofLine around :: stack)
    calc (Tree.mk name attributes text children).events.foldlM step? ⟨.ofLine around :: stack, [], recorded⟩
      _ = (Tree.eventsAll children ++ [Event.stop]).foldlM step?
            ⟨.ofLine (.mk name attributes text children :: around) :: .ofLine around :: stack, [],
              recorded ++ entries [⟨.mk name attributes text children, around⟩]⟩ := by
        rw [Tree.events, List.foldlM_append, foldlM_declare]
        rfl
      _ = some ⟨.ofLine around :: stack, [], recorded ++ entries [⟨.mk name attributes text children, around⟩] ++
            entries (Tree.locationsAll (.mk name attributes text children :: around) children)⟩ := by
        rw [List.foldlM_append, hinner]
        rfl
      _ = _ := by
        rw [Tree.locations, List.append_assoc, entries, entries, entries, ← List.map_append]
        rfl

theorem foldlM_eventsAll : ∀ {ts : List Tree} {around : List Tree} {recorded : List (Tree × Scope)}
    {stack : List Scope}, (Tree.eventsAll ts).foldlM step? ⟨.ofLine around :: stack, [], recorded⟩ =
      some ⟨.ofLine around :: stack, [], recorded ++ entries (Tree.locationsAll around ts)⟩
  | [], around, recorded, stack => by
    rw [Tree.locationsAll, entries, List.map_nil, List.append_nil]
    rfl
  | t :: ts, around, recorded, stack => by
    rw [Tree.eventsAll, List.foldlM_append, foldlM_events, Option.bind_eq_bind, Option.bind_some, foldlM_eventsAll,
      Tree.locationsAll, entries, entries, entries, List.map_append, List.append_assoc]

end

end ScopeRecord

/-! ## Elements -/

/-- Whether an element is the one at a location, with its scope and its name. -/
def Location.IsOf (p : Location) (e : Element) : Prop :=
  e.scope = p.scope ∧ p.scope.elementName? p.element.name = some e.tag

mutual

theorem forall₂_locations : ∀ {t : Tree} {around : List Tree} {e : Element},
    Element.ofTree? (.ofLine around) t = some e → List.Forall₂ Location.IsOf (t.locations around) e.preorder
  | .mk name attributes text children, around, e, he => by
    obtain ⟨declared, tag, resolved, inner, hdeclared, htag, -, hinner, rfl⟩ := ofTree?_eq_some.1 he
    obtain ⟨rfl, -⟩ := declarations?_eq_some.1 hdeclared
    exact .cons ⟨rfl, htag⟩ (forall₂_locationsAll hinner)

theorem forall₂_locationsAll : ∀ {ts : List Tree} {around : List Tree} {es : List Element},
    Element.ofTrees? (.ofLine around) ts = some es →
      List.Forall₂ Location.IsOf (Tree.locationsAll around ts) (Element.preorderAll es)
  | [], around, es, hes => by
    cases hes
    exact .nil
  | t :: ts, around, es, hes => by
    obtain ⟨e, es', he, hes', rfl⟩ := ofTrees?_cons_eq_some.1 hes
    exact List.rel_append (forall₂_locations he) (forall₂_locationsAll hes')

end

/-- While a document goes by, each of its elements is recorded with the scope that it has in the document.  That scope
binds a prefix to what the nearest declaration of it says, on the element or around it, and binds nothing else but the
prefix that is always bound. -/
theorem scopes_follow_declarations {bytes : List UInt8} {e : Element} (h : Element.ofBytes bytes = .ok e) :
    ∃ t, Tree.ofBytes bytes = .ok t ∧
      t.events.foldlM ScopeRecord.step? .initial =
        some ⟨[.base], [], (t.locations []).map fun p => (p.element, p.scope)⟩ ∧
      List.Forall₂ Location.IsOf (t.locations []) e.preorder ∧
      ∀ p ∈ t.locations [], p.Within t ∧ (p.scope.bindings.map (·.1)).Nodup ∧
        ∀ label, p.scope.find? label =
          (p.declaration? label).or (if label = "xml" then some xmlSpace else none) := by
  obtain ⟨t, ht, he⟩ := ofBytes_eq_ok.1 h
  refine ⟨t, ht, @ScopeRecord.foldlM_events t [] [] [], forall₂_locations he,
    fun p hp => ⟨?_, Scope.nodup_ofLine, fun label => Scope.find?_ofLine⟩⟩
  obtain ⟨inner, hline, hchain, hlast⟩ := within_of_mem_locations hp
  rw [List.append_nil] at hline
  exact ⟨hline ▸ hchain, hline ▸ hlast⟩

/-- A document in which one child of the root declares both prefixes anew, and the child after it declares nothing. -/
def shadowingSample : List UInt8 :=
  "<p:a xmlns='urn:1' xmlns:p='urn:2'><b xmlns='' xmlns:p='urn:3'><p:c/></b><d/></p:a>".toUTF8.toList

def shadowingRoot : Element :=
  .mk ⟨"urn:2", "a"⟩ [] none ⟨[("p", "urn:2"), ("", "urn:1"), ("xml", xmlSpace)]⟩
    [.mk ⟨"", "b"⟩ [] none ⟨[("p", "urn:3"), ("", ""), ("xml", xmlSpace)]⟩
      [.mk ⟨"urn:3", "c"⟩ [] none ⟨[("p", "urn:3"), ("", ""), ("xml", xmlSpace)]⟩ []],
    .mk ⟨"urn:1", "d"⟩ [] none ⟨[("p", "urn:2"), ("", "urn:1"), ("xml", xmlSpace)]⟩ []]

/-- The child after the one with declarations of its own is recorded with what the root declares. -/
theorem scopes_follow_declarations_sample :
    Element.ofBytes shadowingSample = .ok shadowingRoot ∧
      ∃ t r, Tree.ofBytes shadowingSample = .ok t ∧ t.events.foldlM ScopeRecord.step? .initial = some r ∧
        r.recorded.map (fun entry => (entry.1.name, entry.2.find? "p", entry.2.find? "")) =
          [("p:a", some "urn:2", some "urn:1"), ("b", some "urn:3", some ""), ("p:c", some "urn:3", some ""),
            ("d", some "urn:2", some "urn:1")] := by
  have htree : (Tree.ofBytes shadowingSample).toOption = some (.mk "p:a" [("xmlns", "urn:1"), ("xmlns:p", "urn:2")] ""
      [.mk "b" [("xmlns", ""), ("xmlns:p", "urn:3")] "" [.mk "p:c" [] "" []], .mk "d" [] "" []]) := by decide +kernel
  have hshadowing : Element.ofTree? ⟨[("p", "urn:2"), ("", "urn:1"), ("xml", xmlSpace)]⟩
      (.mk "b" [("xmlns", ""), ("xmlns:p", "urn:3")] "" [.mk "p:c" [] "" []]) = shadowingRoot.children.head? :=
    ofTree?_eq_some.2 ⟨[("", ""), ("p", "urn:3")], _, _, _, rfl, rfl, rfl,
      ofTrees?_cons_eq_some.2 ⟨_, _, rfl, rfl, rfl⟩, rfl⟩
  have hroot : Element.ofBytes shadowingSample = .ok shadowingRoot :=
    ofBytes_eq_ok.2 ⟨_, eq_ok_of_toOption htree, ofTree?_eq_some.2
      ⟨[("", "urn:1"), ("p", "urn:2")], _, _, _, rfl, rfl, rfl, ofTrees?_cons_eq_some.2
        ⟨_, _, hshadowing, ofTrees?_cons_eq_some.2 ⟨_, _, rfl, rfl, rfl⟩, rfl⟩, rfl⟩⟩
  obtain ⟨t, ht, hrun, -, -⟩ := scopes_follow_declarations hroot
  rw [eq_ok_of_toOption htree] at ht
  cases ht
  exact ⟨hroot, _, _, eq_ok_of_toOption htree, hrun, rfl⟩

end PayloadSchema.Xml
