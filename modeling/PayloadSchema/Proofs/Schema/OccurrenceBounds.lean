import PayloadSchema.Proofs.Schema.Reading
import PayloadSchema.Proofs.Written.Attributes

/-!
# Occurrence bounds from source to document

Every pair of bounds in a schema that is read is what one element of the document gives.  Such a pair is written so
that it is read again, if its lower bound is a number.  The reader takes a lower bound that is not a number as well,
and then the written text of it cannot be read.
-/

namespace PayloadSchema.Schema

open Reader

/-! ## Bounds that are given -/

section Given

variable {e x : Xml.Element} {o : Occurs} {s : Schema} {log log' : Array Log.Entry}

theorem bound_eq_none {value : Option String} {r : Option Int} (h : bound value = .ok r) :
    r = none ↔ value = some "unbounded" := by
  rw [bound.eq_def] at h
  split at h
  · cases h
    simp
  · cases h
    simp
  · rename_i text hother
    split at h
    · cases h
      simpa using hother
    · cases h

theorem min_eq_none (h : occurs x = .ok o) : o.min = none ↔ x.attribute? "minOccurs" = some "unbounded" := by
  rw [occurs] at h
  obtain ⟨min, hmin, h⟩ := bind_eq_ok.1 h
  obtain ⟨max, -, h⟩ := bind_eq_ok.1 h
  cases h
  exact bound_eq_none hmin

/-- An element with the two attributes that are written for some bounds. -/
structure Writes (o : Occurs) (x : Xml.Element) : Prop where
  min : x.attribute? "minOccurs" = (Writer.occurs o).lookup "minOccurs"
  max : x.attribute? "maxOccurs" = (Writer.occurs o).lookup "maxOccurs"

/-- Bounds that are written are read again if the lower one is a number, and otherwise its text is refused. -/
theorem Writes.occurs_eq (h : Writes o x) (hshort : o.Short) :
    occurs x = if o.min.isSome then .ok o else .error (.badValue (.integer (.malformed "None"))) := by
  have hmin : x.attribute? "minOccurs" = Writer.boundText "None" o.min := by
    rw [h.min, Writer.occurs_eq_given, Writer.lookup_append, Writer.lookup_given, Writer.lookup_given]
    simp
  have hmax : x.attribute? "maxOccurs" = Writer.boundText "unbounded" o.max := by
    rw [h.max, Writer.occurs_eq_given, Writer.lookup_append, Writer.lookup_given, Writer.lookup_given]
    simp
  by_cases hsome : o.min.isSome
  · rw [if_pos hsome]
    exact Writer.occurs_of_written hmin hmax hshort hsome
  · have hnone : o.min = none := by simpa using hsome
    have hrefused : bound (some "None") = .error (.badValue (.integer (.malformed "None"))) := rfl
    rw [if_neg hsome, occurs, hmin, hnone, Writer.boundText, hrefused]
    rfl

/-- Every pair of bounds in a schema that is read is given by an element of the document.  Written and read again it
is the same pair, unless the element calls the lower bound unbounded: then its text is refused. -/
theorem bounds_reread (h : (ofElement e).run.run log = (.ok s, log')) :
    ∀ n ∈ s.nodes, ∀ o ∈ n.shape.occurs?, ∃ x ∈ e.preorder, occurs x = .ok o ∧ ∀ y, Writes o y →
      occurs y = if x.attribute? "minOccurs" = some "unbounded" then
        .error (.badValue (.integer (.malformed "None"))) else .ok o := by
  intro n hn o ho
  obtain ⟨x, hx, hmade⟩ := made_of_mem_nodes h n hn
  have hread : occurs x = .ok o := hmade.occurs_eq ho
  refine ⟨x, hx, hread, fun y hy => ?_⟩
  rw [hy.occurs_eq (short_occurs hread)]
  by_cases hmin : x.attribute? "minOccurs" = some "unbounded"
  · rw [if_pos hmin, (min_eq_none hread).2 hmin]
    rfl
  · have hsome : o.min.isSome := by
      rw [Option.isSome_iff_ne_none]
      exact fun hnone => hmin ((min_eq_none hread).1 hnone)
    rw [if_neg hmin, if_pos hsome]

/-- In a document that calls no lower bound unbounded, all lower bounds are numbers, and all bounds are written so that
they are read again. -/
theorem bounds_survive (h : (ofElement e).run.run log = (.ok s, log'))
    (hmin : ∀ x ∈ e.preorder, x.attribute? "minOccurs" ≠ some "unbounded") :
    ∀ n ∈ s.nodes, ∀ o ∈ n.shape.occurs?, o.min.isSome ∧ ∀ y, Writes o y → occurs y = .ok o := by
  intro n hn o ho
  obtain ⟨x, hx, hread, hagain⟩ := bounds_reread h n hn o ho
  refine ⟨?_, fun y hy => ?_⟩
  · rw [Option.isSome_iff_ne_none]
    exact fun hnone => hmin x hx ((min_eq_none hread).1 hnone)
  · rw [hagain y hy, if_neg (hmin x hx)]

end Given

/-- A document with a sequence that is repeated without end and an element in it that may be missing. -/
def boundedDocument : Xml.Element :=
  sampleTag "schema" [] [sampleTag "group" [("name", "g")] [sampleTag "sequence" [("maxOccurs", "unbounded")]
    [sampleTag "element" [("name", "a"), ("type", "xs:int"), ("minOccurs", "0"), ("maxOccurs", "12")] []]]]

def boundedElement : Node :=
  ⟨.element ⟨some "a", false⟩ ⟨some (xsd "int"), none, ⟨some 0, some 12⟩, false, false, none, none, none⟩ none⟩

def boundedSchema : Schema :=
  { SchemaOf.empty "" defaultForm defaultForm with
    groups := [(some "g", ⟨.group ⟨some "g", true⟩ (some ⟨.modelGroup .sequence ⟨some 1, none⟩ [boundedElement]⟩)⟩)] }

theorem bounds_survive_sample :
    boundedElement ∈ boundedSchema.nodes ∧ boundedElement.shape.occurs? = some ⟨some 0, some 12⟩ ∧
      ∀ n ∈ boundedSchema.nodes, ∀ o ∈ n.shape.occurs?, o.min.isSome ∧ ∀ y, Writes o y → occurs y = .ok o := by
  have hread : (ofElement boundedDocument).run.run #[] = (.ok boundedSchema, #[]) := rfl
  have hmin : ∀ x ∈ boundedDocument.preorder, x.attribute? "minOccurs" ≠ some "unbounded" := by decide
  refine ⟨?_, rfl, bounds_survive hread hmin⟩
  simp [Schema.nodes, SchemaOf.roots, boundedSchema, SchemaOf.empty, Table.values, walk, Node.children, Node.shape,
    Shape.children]

/-! ## A lower bound that is no number -/

/-- A document with a sequence whose lower bound is called unbounded. -/
def unboundedDocument : Xml.Element :=
  sampleTag "schema" [] [sampleTag "group" [("name", "g")] [sampleTag "sequence" [("minOccurs", "unbounded")] []]]

def unboundedSequence : Node :=
  ⟨.modelGroup .sequence ⟨none, some 1⟩ []⟩

/-- What is read of the document. -/
def unboundedSchema : Schema :=
  { SchemaOf.empty "" defaultForm defaultForm with
    groups := [(some "g", ⟨.group ⟨some "g", true⟩ (some unboundedSequence)⟩)] }

/-- The document is read, but what is written of the bounds of its sequence is refused. -/
theorem unboundedSchema_not_reread :
    (ofElement unboundedDocument).run.run #[] = (.ok unboundedSchema, #[]) ∧
      unboundedSequence ∈ unboundedSchema.nodes ∧ unboundedSequence.shape.occurs? = some ⟨none, some 1⟩ ∧
      ∀ y, Writes ⟨none, some 1⟩ y → occurs y = .error (.badValue (.integer (.malformed "None"))) := by
  have hshort : Occurs.Short ⟨none, some 1⟩ := by
    rintro n (⟨⟨⟩⟩ | hn)
    exact Occurs.short_once n (.inr hn)
  refine ⟨rfl, ?_, rfl, fun y hy => hy.occurs_eq hshort⟩
  simp [Schema.nodes, SchemaOf.roots, unboundedSchema, SchemaOf.empty, Table.values, walk, Node.children, Node.shape,
    Shape.children]

end PayloadSchema.Schema
