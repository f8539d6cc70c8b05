import Mathlib.Data.List.Nodup
import PayloadSchema.Proofs.Written.Repetition

/-!
# Writing and reading agree

A schema of settled elements is written as a tag, and what is read of an element that mirrors the tag is the same
schema, but for names that are missing.  Unless a missing name and an empty one fall together, the schema that has been
read is written as the same text.
-/

namespace PayloadSchema.Table

variable {κ α : Type} [DecidableEq κ]

theorem put_of_not_mem {t : Table κ α} {k : κ} {a : α} (h : k ∉ t.map (·.1)) : t.put k a = t ++ [(k, a)] := by
  induction t with
  | nil => rfl
  | cons e t ih =>
    rw [List.map_cons, List.mem_cons, not_or] at h
    rw [put, if_neg (Ne.symm h.1), ih h.2]
    rfl

theorem foldl_put {key : α → κ} {values : List α} {t : Table κ α}
    (h : (t.map (·.1) ++ values.map key).Nodup) :
    values.foldl (fun t a => t.put (key a) a) t = t ++ values.map fun a => (key a, a) := by
  induction values generalizing t with
  | nil => simp
  | cons a values ih =>
    have hfresh : key a ∉ t.map (·.1) := by
      rw [List.map_cons, List.nodup_append] at h
      exact fun hmem => h.2.2 _ hmem _ List.mem_cons_self rfl
    rw [List.foldl_cons, put_of_not_mem hfresh, ih (by simpa using h), List.map_cons, List.append_assoc,
      List.singleton_append]

theorem ofValues_of_nodup {key : α → κ} {values : List α} (h : (values.map key).Nodup) :
    ofValues key values = values.map fun a => (key a, a) := by
  have hfold := foldl_put (t := []) h
  rwa [List.nil_append] at hfold

end PayloadSchema.Table

namespace PayloadSchema.Schema

open Xml (Element Tree)

/-- The name of a node, if it has one. -/
def Node.name? (n : Node) : Option String :=
  n.shape.component?.bind (·.name)

/-- A schema of elements as it is read after it has been written. -/
def asRead (s : Schema) : Schema :=
  { s with elements := Table.ofValues Node.name? (s.elements.values.map Node.asRead) }

/-- A schema of elements of which writing loses nothing. -/
structure Settled (ok : Char → Prop) (s : Schema) : Prop where
  kind : ∀ e ∈ s.elements, e.2.shape.kind = .element
  component : ∀ e ∈ s.elements, e.2.shape.component? = some ⟨e.1, true⟩
  built : ∀ e ∈ s.elements, e.2.Built (Shape.Settled ok)
  keyed : (s.elements.map (·.1)).Nodup
  attributes : s.attributes = []
  types : s.types = []
  groups : s.groups = []
  attributeGroups : s.attributeGroups = []
  space : Carried ok s.space
  elementForm : Carried ok s.elementForm
  attributeForm : Carried ok s.attributeForm

variable {ok : Char → Prop} {label : String} {s : Schema}

/-- An element of a table, read again, stands at the top under its name or under the empty one. -/
theorem Settled.component_asRead (h : s.Settled ok) {e : Option String × Node} (he : e ∈ s.elements) :
    e.2.asRead.shape.component? = some ⟨some (e.1.getD ""), true⟩ := by
  have hkind := h.kind e he
  have hcomponent := h.component e he
  obtain ⟨name, ⟨s⟩⟩ := e
  obtain ⟨c, d, own, rfl⟩ := Shape.exists_of_kind_element hkind
  obtain rfl : c = ⟨name, true⟩ := Option.some.inj hcomponent
  rw [Node.asRead_eq]
  rfl

theorem Settled.elements_asRead (h : s.Settled ok)
    (hnames : ¬ (none ∈ s.elements.map (·.1) ∧ some "" ∈ s.elements.map (·.1))) :
    s.asRead.elements = s.elements.map fun e => (some (e.1.getD ""), e.2.asRead) := by
  have hname : ∀ e ∈ s.elements, e.2.asRead.name? = some (e.1.getD "") := fun e he => by
    rw [Node.name?, h.component_asRead he]
    rfl
  have hkeys : (s.elements.values.map Node.asRead).map Node.name? =
      (s.elements.map (·.1)).map fun name => some (name.getD "") := by
    simp only [Table.values, List.map_map]
    exact List.map_congr_left hname
  have hnodup : ((s.elements.values.map Node.asRead).map Node.name?).Nodup := by
    rw [hkeys]
    refine List.Nodup.map_on (fun a ha b hb hab => ?_) h.keyed
    cases a <;> cases b <;> simp_all
  rw [asRead]
  dsimp only
  rw [Table.ofValues_of_nodup hnodup]
  simp only [Table.values, List.map_map]
  exact List.map_congr_left fun e he => by simp [hname e he]

/-! ## Reading -/

theorem run_addElements {es : List Element} {ns : List Node}
    (hes : List.Forall₂ (Reader.ReadsAs .element (Reader.element true)) es ns)
    (hns : ∀ n ∈ ns, ∃ name, n.shape.component? = some ⟨name, true⟩) (s : Schema) (log : Array Log.Entry) :
    (es.foldlM Reader.addConstruct s).run.run log =
      (.ok { s with elements := ns.foldl (fun t n => t.put n.name? n) s.elements }, log) := by
  induction hes generalizing s with
  | nil => rfl
  | @cons e n es ns he _ ih =>
    obtain ⟨⟨name, hname⟩, hrest⟩ := List.forall_mem_cons.1 hns
    have hself : (⟨n.shape.withComponent ⟨name, true⟩⟩ : Node) = n := by
      obtain ⟨shape⟩ := n
      cases shape <;> cases hname <;> rfl
    have hadd : s.add .elements n = .ok { s with elements := s.elements.put n.name? n } := by
      rw [Schema.add, hname]
      dsimp only
      rw [hself, Node.name?, hname]
      rfl
    have hfirst : Reader.addConstruct s e = pure { s with elements := s.elements.put n.name? n } := by
      rw [Reader.addConstruct, he.1]
      dsimp only
      rw [he.2]
      show Run.ofExcept (s.add .elements n) = _
      rw [hadd]
      rfl
    rw [List.foldlM_cons, hfirst, pure_bind, ih hrest, List.foldl_cons]

/-- The attributes of the tag of a schema, without the declaration of the prefix. -/
def rootAttributes (s : Schema) : Writer.Attributes :=
  Writer.given "targetNamespace" (if s.space = "" then none else some s.space) ++
    (Writer.given "elementFormDefault" (some s.elementForm) ++
      Writer.given "attributeFormDefault" (some s.attributeForm))

section Root

variable {ts : List Tree}

def rootTag (label : String) (s : Schema) (ts : List Tree) : Tree :=
  Writer.tag label "schema" (("xmlns:" ++ label, xsdSpace) :: s.rootAttributes) ts

theorem Settled.toTree_eq (h : s.Settled ok) (hts : s.elements.values.mapM (Writer.elementDecl label) = .ok ts) :
    s.toTree label = .ok (s.rootTag label ts) := by
  have hspace : (if s.space = "" then [] else [("targetNamespace", s.space)]) =
      Writer.given "targetNamespace" (if s.space = "" then none else some s.space) := by
    split <;> rfl
  rw [toTree, hts, h.attributes, h.types, h.groups, h.attributeGroups, hspace]
  simp only [rootTag, rootAttributes, Table.values, List.map_nil, List.mapM_nil, bind, Except.bind, pure, Except.pure,
    List.append_nil]
  rfl

theorem Settled.root (h : s.Settled ok) (hclean : ∀ t ∈ ts, t.Clean ok label) : (s.rootTag label ts).Root ok label := by
  have hkeys : Writer.Distinct (["targetNamespace"] ++ (["elementFormDefault"] ++ ["attributeFormDefault"])) := by
    decide
  have hsublist : (s.rootAttributes.map (·.1)).Sublist
      (["targetNamespace"] ++ (["elementFormDefault"] ++ ["attributeFormDefault"])) :=
    Writer.keys_append Writer.keys_given (Writer.keys_append Writer.keys_given Writer.keys_given)
  refine .tag (.tag (by decide) (fun a ha => ?_) (hkeys.1.sublist hsublist) ?_ hclean)
  · exact hkeys.2 _ (hsublist.subset (List.mem_map_of_mem ha))
  · refine Writer.carried_append (Writer.carried_given fun v hv => ?_)
      (Writer.carried_append (Writer.carried_given ?_) (Writer.carried_given ?_))
    · obtain rfl : s.space = v := by
        split at hv <;> simp_all
      exact h.space
    · simpa using h.elementForm
    · simpa using h.attributeForm

theorem Settled.run_ofElement (h : s.Settled ok) {e : Element} (he : Element.Mirrors label (s.rootTag label ts) e)
    (hreads : List.Forall₂ (Reader.ReadsAs .element (Reader.element true)) e.children
      (s.elements.values.map Node.asRead)) (log : Array Log.Entry) :
    (ofElement e).run.run log = (.ok s.asRead, log) := by
  obtain ⟨-, hattributes, -, -⟩ := he.parts
  have hvalue (key : String) (hkey : Xml.isPlainName key) : e.attribute? key = s.rootAttributes.lookup key := by
    have hne : key ≠ "xmlns:" ++ label := by
      rintro rfl
      exact Xml.colon_not_mem hkey (by simp)
    rw [Element.attribute?, hattributes, Xml.lookup_properAttributes hkey, List.lookup_cons, beq_false_of_ne hne]
  simp only [rootAttributes, Writer.lookup_append, Writer.lookup_given] at hvalue
  have hspace : (e.attribute? "targetNamespace").getD "" = s.space := by
    rw [hvalue _ rfl]
    by_cases hs : s.space = "" <;> simp [hs]
  have helement : (e.attribute? "elementFormDefault").getD defaultForm = s.elementForm := by
    rw [hvalue _ rfl]
    simp
  have hattribute : (e.attribute? "attributeFormDefault").getD defaultForm = s.attributeForm := by
    rw [hvalue _ rfl]
    simp
  have htops : ∀ n ∈ s.elements.values.map Node.asRead, ∃ name, n.shape.component? = some ⟨name, true⟩ := by
    intro n hn
    simp only [Table.values, List.map_map, List.mem_map] at hn
    obtain ⟨entry, hentry, rfl⟩ := hn
    exact ⟨_, h.component_asRead hentry⟩
  rw [ofElement, hspace, helement, hattribute, run_addElements hreads htops]
  obtain ⟨space, elementForm, attributeForm, elements, attributes, types, groups, attributeGroups⟩ := s
  obtain rfl : attributes = [] := h.attributes
  obtain rfl : types = [] := h.types
  obtain rfl : groups = [] := h.groups
  obtain rfl : attributeGroups = [] := h.attributeGroups
  rfl

end Root

/-- A schema is written as a tag, and an element that mirrors the tag is read as the same schema. -/
theorem Settled.rereads (hlabel : Writer.Usable ok label) (h : s.Settled ok) :
    ∃ t, s.toTree label = .ok t ∧ t.Root ok label ∧ ∀ e, Element.Mirrors label t e → e.tag = xsd "schema" ∧
      ∀ log, (ofElement e).run.run log = (.ok s.asRead, log) := by
  have hone : ∀ n ∈ s.elements.values, Writer.Rereads ok label (Writer.elementDecl label n) fun e =>
      Reader.ReadsAs .element (Reader.element true) e n.asRead := by
    intro n hn
    obtain ⟨e, he, rfl⟩ := List.mem_map.1 hn
    have hread := Writer.rereads_element hlabel (h.kind e he) (h.built e he)
    rwa [Shape.isTopLevel, h.component e he] at hread
  obtain ⟨ts, hts, hclean, hreads⟩ := Writer.rereadsAll_mapM hone
  refine ⟨s.rootTag label ts, h.toTree_eq hts, h.root hclean, fun e he => ?_⟩
  obtain ⟨htag, -, -, hchildren⟩ := he.parts
  exact ⟨htag, h.run_ofElement he (hreads _ hchildren)⟩

theorem Settled.toTree_asRead (h : s.Settled ok)
    (hnames : ¬ (none ∈ s.elements.map (·.1) ∧ some "" ∈ s.elements.map (·.1))) :
    s.asRead.toTree label = s.toTree label := by
  have hvalues : s.asRead.elements.values = s.elements.values.map Node.asRead := by
    rw [h.elements_asRead hnames]
    simp [Table.values]
  have hdecls : s.asRead.elements.values.mapM (Writer.elementDecl label) =
      s.elements.values.mapM (Writer.elementDecl label) := by
    rw [hvalues]
    refine Writer.mapM_asRead fun n hn => ?_
    obtain ⟨e, he, rfl⟩ := List.mem_map.1 hn
    exact Writer.elementDecl_asRead (h.kind e he) (h.built e he)
  rw [toTree, toTree, hdecls]
  rfl

end PayloadSchema.Schema
