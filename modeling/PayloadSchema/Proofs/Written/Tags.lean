import PayloadSchema.Proofs.Schema.Reading
import PayloadSchema.Schema.Writer

/-!
# Tags and elements

Writing and reading meet at the tags of a document.  A clean tag has a plain name and plain attributes, each of
them once, and can therefore be printed.  An element mirrors a tag when it has the name of the tag in the
namespace of schemas, the attributes of the tag that declare nothing, and children that mirror its children.
-/

namespace PayloadSchema.Xml

open Schema

/-! ## Names -/

def isPlainName (s : String) : Bool := s.toList.all Char.isAlpha && s != "" && s != "xmlns"

theorem isPlainName_facet {kind : String} (h : kind ∈ Reader.facetNames) : isPlainName kind := by
  have hall : ∀ k ∈ Reader.facetNames, isPlainName k := by decide
  exact hall kind h

theorem colon_not_mem {s : String} (h : isPlainName s) : ':' ∉ s.toList := by
  intro hcolon
  simp only [isPlainName, Bool.and_eq_true, List.all_eq_true] at h
  exact absurd (h.1.1 ':' hcolon) (by decide)

theorem declaredLabel?_plain {s : String} (h : isPlainName s) : declaredLabel? s = none := by
  have hne : s ≠ "xmlns" := by
    simp only [isPlainName, Bool.and_eq_true, bne_iff_ne] at h
    exact h.2
  rw [declaredLabel?, splitName_plain (colon_not_mem h)]
  split <;> simp_all

/-! ## Clean tags -/

/-- A tree of tags with one prefix in front of plain names, with plain attributes of which none stands twice in a
tag, and with values of characters that are allowed. -/
inductive Tree.Clean (ok : Char → Prop) (label : String) : Tree → Prop where
  | tag {name : String} {attributes : List (String × String)} {children : List Tree}
      (hname : isPlainName name) (hkeys : ∀ a ∈ attributes, isPlainName a.1)
      (hdistinct : (attributes.map (·.1)).Nodup) (hvalues : ∀ a ∈ attributes, Carried ok a.2)
      (hchildren : ∀ t ∈ children, Clean ok label t) :
      Clean ok label (Writer.tag label name attributes children)

inductive Tree.Root (ok : Char → Prop) (label : String) : Tree → Prop where
  | tag {name : String} {attributes : List (String × String)} {children : List Tree}
      (hclean : Clean ok label (Writer.tag label name attributes children)) :
      Root ok label (Writer.tag label name (("xmlns:" ++ label, xsdSpace) :: attributes) children)

/-! ## Elements that mirror tags -/

/-- The attributes of a tag that declare no namespace; none of them has a prefix. -/
def properAttributes (attributes : List (String × String)) : List (QName × String) :=
  (attributes.filter fun a => (declaredLabel? a.1).isNone).map fun a => (⟨"", a.1⟩, a.2)

/-- An element that is what a tag stands for, whatever text is between the tags. -/
inductive Element.Mirrors (label : String) : Tree → Element → Prop where
  | intro {name : String} {attributes : List (String × String)} {words : String} {children : List Tree}
      {text : Option String} {scope : Scope} {inner : List Element}
      (hscope : scope.find? label = some xsdSpace)
      (hinner : List.Forall₂ (Mirrors label) children inner) :
      Mirrors label (.mk (label ++ ":" ++ name) attributes words children)
        (.mk (xsd name) (properAttributes attributes) text scope inner)

section Mirrors

variable {label name key : String} {attributes : List (String × String)} {children : List Tree} {e : Element}

theorem Element.Mirrors.parts (h : Element.Mirrors label (Writer.tag label name attributes children) e) :
    e.tag = xsd name ∧ e.attributes = properAttributes attributes ∧ e.scope.find? label = some xsdSpace ∧
      List.Forall₂ (Element.Mirrors label) children e.children := by
  rw [Writer.tag] at h
  generalize hwritten : label ++ ":" ++ name = written at h
  cases h with
  | intro hscope hinner =>
    have hname := (String.append_right_inj _).1 hwritten
    exact ⟨by rw [hname]; rfl, rfl, hscope, hinner⟩

theorem lookup_properAttributes (hkey : isPlainName key) :
    (properAttributes attributes).lookup ⟨"", key⟩ = attributes.lookup key := by
  have hdeclared := declaredLabel?_plain hkey
  induction attributes with
  | nil => rfl
  | cons a attributes ih =>
    rw [properAttributes] at ih ⊢
    by_cases ha : key = a.1
    · have hnone : (declaredLabel? a.1).isNone := by rw [← ha, hdeclared]; rfl
      rw [List.filter_cons, if_pos hnone, List.map_cons, List.lookup_cons, List.lookup_cons, ha]
      simp
    · rw [List.lookup_cons, beq_false_of_ne ha, List.filter_cons]
      split
      · rw [List.map_cons, List.lookup_cons, beq_false_of_ne (by simpa using ha)]
        exact ih
      · exact ih

end Mirrors

end PayloadSchema.Xml

namespace PayloadSchema.Schema.Writer

open Xml (Element Tree)

/-! ## Attributes that are given -/

section Given

variable {ok : Char → Prop} {key other : String} {value : Option String} {attributes rest : Attributes}

theorem lookup_given : (given key value).lookup other = if other = key then value else none := by
  cases value with
  | none => simp [given]
  | some v =>
    by_cases h : other = key
    · simp [given, h]
    · simp [given, List.lookup_cons, h, beq_false_of_ne h]

theorem flag_eq_given (key : String) (b : Bool) : flag key b = given key (if b then some "true" else none) := by
  cases b <;> rfl

def boundText (unbounded : String) : Option Int → Option String
  | none => some unbounded
  | some n => if n = 1 then none else some (toString n)

theorem occurs_eq_given (o : Occurs) :
    occurs o = given "minOccurs" (boundText "None" o.min) ++ given "maxOccurs" (boundText "unbounded" o.max) := by
  obtain ⟨min, max⟩ := o
  have hsplit (key : String) (n : Int) : (if n = 1 then [] else [(key, toString n)]) =
      given key (if n = 1 then none else some (toString n)) := by
    split <;> rfl
  cases min <;> cases max <;> simp only [occurs, boundText, hsplit] <;> rfl

theorem keys_given : ((given key value).map (·.1)).Sublist [key] := by
  cases value with
  | none => exact List.nil_sublist [key]
  | some v => exact .refl _

theorem keys_append {keys more : List String} (h : (attributes.map (·.1)).Sublist keys)
    (hrest : (rest.map (·.1)).Sublist more) : ((attributes ++ rest).map (·.1)).Sublist (keys ++ more) := by
  rw [List.map_append]
  exact h.append hrest

theorem lookup_append : (attributes ++ rest).lookup key = (attributes.lookup key).or (rest.lookup key) :=
  List.lookup_append

theorem carried_append (h : ∀ a ∈ attributes, Carried ok a.2) (hrest : ∀ a ∈ rest, Carried ok a.2) :
    ∀ a ∈ attributes ++ rest, Carried ok a.2 :=
  List.forall_mem_append.2 ⟨h, hrest⟩

theorem carried_given (h : ∀ v ∈ value, Carried ok v) : ∀ a ∈ given key value, Carried ok a.2 := by
  cases value with
  | none => simp [given]
  | some v => simpa [given] using h

end Given

end PayloadSchema.Schema.Writer
