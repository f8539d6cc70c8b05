import PayloadSchema.Proofs.Schema.PrefixedNames
import PayloadSchema.Proofs.Wsdl.DocumentFaults
import PayloadSchema.Proofs.Xml.PrintedDocuments

/-!
# Inherited declarations

A prefix is looked up in the declarations of the element and of all elements around it.  An element that is taken out
of its document stands for the same if the declarations that it has inherited are repeated on it.  So a schema inside
of a service description is the schema that is read of it alone.
-/

namespace PayloadSchema.Xml

open Schema.Reader

/-! ## Scopes -/

namespace Scope

variable {s s' : Scope} {label key space : String} {declared : List (String × String)}

/-- Two scopes that bind the same prefixes to the same namespaces. -/
def Agrees (s s' : Scope) : Prop :=
  ∀ label, s.find? label = s'.find? label

theorem find?_bind : (s.bind label space).find? key = if key = label then some space else s.find? key := by
  rw [bind, find?, find?, List.lookup_cons]
  split
  · rename_i h
    rw [if_pos (by simpa using h)]
  · rename_i h
    have hne : key ≠ label := by simpa using h
    rw [if_neg hne]
    induction s.bindings with
    | nil => rfl
    | cons b bs ih =>
      rw [List.filter_cons]
      split
      · rw [List.lookup_cons, List.lookup_cons, ih]
      · rename_i hb
        have hb : b.1 = label := by simpa using hb
        rw [List.lookup_cons, ih, hb, beq_false_of_ne hne]

/-- The last declaration of a prefix counts, and without one the scope around. -/
theorem find?_extend : (s.extend declared).find? key = (declared.reverse.lookup key).or (s.find? key) := by
  induction declared generalizing s with
  | nil => rfl
  | cons d declared ih =>
    have hlast : List.lookup key [d] = if key = d.1 then some d.2 else none := by
      by_cases h : key = d.1
      · rw [if_pos h, List.lookup_cons, h, BEq.rfl]
      · rw [if_neg h, List.lookup_cons, beq_false_of_ne h]
        rfl
    rw [extend, List.foldl_cons, ← extend, ih, find?_bind, List.reverse_cons, List.lookup_append, hlast,
      Option.or_assoc]
    split <;> rfl

theorem Agrees.extend (h : s.Agrees s') (declared : List (String × String)) :
    (s.extend declared).Agrees (s'.extend declared) := by
  intro label
  rw [find?_extend, find?_extend, h label]

theorem Agrees.elementName? (h : s.Agrees s') (written : String) :
    s.elementName? written = s'.elementName? written := by
  rw [Scope.elementName?, Scope.elementName?]
  split
  · rw [h]
  · rw [h]

theorem Agrees.attributes? (h : s.Agrees s') (written : List (String × String)) :
    s.attributes? written = s'.attributes? written := by
  have hname : s.attributeName? = s'.attributeName? := by
    funext written
    rw [Scope.attributeName?, Scope.attributeName?]
    split
    · rw [h]
    · rfl
  rw [Scope.attributes?, Scope.attributes?, hname]

theorem Agrees.resolve (h : s.Agrees s') (value : String) : resolve s value = resolve s' value := by
  rw [Schema.Reader.resolve, Schema.Reader.resolve]
  split
  · rw [h]
  · rw [h]

/-- A scope that binds each prefix once, the one that is always bound to its namespace, and the others to namespaces
that they may be bound to. -/
structure Standard (s : Scope) : Prop where
  nodup : (s.bindings.map (·.1)).Nodup
  xml : s.find? "xml" = some xmlSpace
  bindable : ∀ b ∈ s.bindings, b.1 ≠ "xml" → isBindable b.1 b.2

theorem standard_base : base.Standard :=
  ⟨by decide, rfl, by simp [base]⟩

theorem Standard.bind (h : s.Standard) (hbindable : isBindable label space) : (s.bind label space).Standard := by
  refine ⟨?_, ?_, ?_⟩
  · rw [Scope.bind, List.map_cons, List.nodup_cons]
    exact ⟨by simp, h.nodup.sublist (List.filter_sublist.map _)⟩
  · rw [find?_bind]
    split
    · rename_i heq
      simp only [isBindable, ← heq, Bool.and_eq_true, beq_iff_eq] at hbindable
      have hspace := hbindable.1.1.2
      simp only [BEq.rfl] at hspace
      rw [beq_iff_eq.1 hspace.symm]
    · exact h.xml
  · exact List.forall_mem_cons.2 ⟨fun _ => hbindable, fun b hb => h.bindable b (List.mem_of_mem_filter hb)⟩

theorem Standard.extend (h : s.Standard) (hbindable : ∀ d ∈ declared, isBindable d.1 d.2) :
    (s.extend declared).Standard := by
  induction declared generalizing s with
  | nil => exact h
  | cons d declared ih =>
    obtain ⟨hd, hrest⟩ := List.forall_mem_cons.1 hbindable
    exact ih (h.bind hd) hrest

end Scope

/-! ## Trees in scopes -/

section Trees

variable {outer outer' : Scope} {name text : String} {attributes : List (String × String)} {children : List Tree}
  {e e' : Element} {c : Construct}

theorem ofTree?_eq_some :
    Element.ofTree? outer (.mk name attributes text children) = some e ↔
      ∃ declared tag resolved inner, declarations? attributes = some declared ∧
        (outer.extend declared).elementName? name = some tag ∧
        (outer.extend declared).attributes? attributes = some resolved ∧
        Element.ofTrees? (outer.extend declared) children = some inner ∧
        e = .mk tag resolved (if text = "" then none else some text) (outer.extend declared) inner := by
  rw [Element.ofTree?]
  simp only [Option.bind_eq_bind, Option.bind_eq_some_iff, Option.some.injEq]
  constructor
  · rintro ⟨declared, hdeclared, tag, htag, resolved, hresolved, inner, hinner, rfl⟩
    exact ⟨declared, tag, resolved, inner, hdeclared, htag, hresolved, hinner, rfl⟩
  · rintro ⟨declared, tag, resolved, inner, hdeclared, htag, hresolved, hinner, rfl⟩
    exact ⟨declared, hdeclared, tag, htag, resolved, hresolved, inner, hinner, rfl⟩

theorem ofTrees?_cons_eq_some {t : Tree} {ts : List Tree} {es : List Element} :
    Element.ofTrees? outer (t :: ts) = some es ↔
      ∃ e rest, Element.ofTree? outer t = some e ∧ Element.ofTrees? outer ts = some rest ∧ es = e :: rest := by
  rw [Element.ofTrees?]
  simp only [Option.bind_eq_bind, Option.bind_eq_some_iff, Option.some.injEq]
  constructor
  · rintro ⟨e, he, rest, hrest, rfl⟩
    exact ⟨e, rest, he, hrest, rfl⟩
  · rintro ⟨e, rest, he, hrest, rfl⟩
    exact ⟨e, he, rest, hrest, rfl⟩

theorem declarations?_eq_some {declared : List (String × String)} :
    declarations? attributes = some declared ↔
      declared = attributes.filterMap (fun a => (declaredLabel? a.1).map (·, a.2)) ∧
        ∀ d ∈ declared, isBindable d.1 d.2 := by
  rw [declarations?]
  generalize attributes.filterMap (fun a => (declaredLabel? a.1).map (·, a.2)) = ds
  induction ds generalizing declared with
  | nil =>
    constructor
    · rintro ⟨rfl⟩
      exact ⟨rfl, by simp⟩
    · rintro ⟨rfl, -⟩
      rfl
  | cons d ds ih =>
    rw [List.mapM_cons]
    simp only [Option.bind_eq_bind, Option.bind_eq_some_iff, ih]
    constructor
    · rintro ⟨d', hd, rest, ⟨rfl, hall⟩, h⟩
      cases h
      split at hd
      · rename_i hbindable
        cases hd
        exact ⟨rfl, List.forall_mem_cons.2 ⟨hbindable, hall⟩⟩
      · cases hd
    · rintro ⟨rfl, hall⟩
      obtain ⟨hd, hds⟩ := List.forall_mem_cons.1 hall
      exact ⟨d, if_pos hd, ds, ⟨rfl, hds⟩, rfl⟩

theorem length_eraseDups_le {α : Type} [BEq α] [LawfulBEq α] (l : List α) : l.eraseDups.length ≤ l.length := by
  induction hn : l.length using Nat.strong_induction_on generalizing l with
  | _ n ih =>
    cases l with
    | nil => simp
    | cons a l =>
      have hfilter := List.length_filter_le (fun b => !b == a) l
      rw [List.length_cons] at hn
      have hle := ih _ (by omega) (l.filter fun b => !b == a) rfl
      rw [List.eraseDups_cons, List.length_cons]
      omega

/-- A list without duplicates is one that is as long as it is without its duplicates. -/
theorem length_eraseDups_eq {α : Type} [BEq α] [LawfulBEq α] {l : List α} :
    l.eraseDups.length = l.length ↔ l.Nodup := by
  refine ⟨fun h => ?_, fun h => by rw [eraseDups_eq_self h]⟩
  induction l with
  | nil => exact List.nodup_nil
  | cons a l ih =>
    have hle := length_eraseDups_le (l.filter fun b => !b == a)
    have hfilter := List.length_filter_le (fun b => !b == a) l
    rw [List.eraseDups_cons, List.length_cons, List.length_cons] at h
    have hall : l.filter (fun b => !b == a) = l :=
      List.length_filter_eq_length_iff.1 (by omega) |> List.filter_eq_self.2
    rw [hall] at h
    refine List.nodup_cons.2 ⟨fun hmem => ?_, ih (by omega)⟩
    have hne := List.filter_eq_self.1 hall a hmem
    simp at hne

theorem length_eraseDups_map {α β : Type} [BEq β] [LawfulBEq β] {f : α → β} {l : List α} :
    (l.map f).eraseDups.length = l.length ↔ (l.map f).Nodup := by
  rw [← length_eraseDups_eq, List.length_map]

/-- The attributes of an element that declare nothing are resolved one by one, and no name stands twice. -/
theorem attributes?_eq_some {s : Scope} {resolved : List (QName × String)} :
    s.attributes? attributes = some resolved ↔
      (attributes.filter fun a => (declaredLabel? a.1).isNone).mapM (fun a => (s.attributeName? a.1).map (·, a.2)) =
        some resolved ∧ (attributes.map (·.1)).Nodup ∧ (resolved.map (·.1)).Nodup := by
  rw [Scope.attributes?]
  simp only [Option.bind_eq_bind, Option.bind_eq_some_iff]
  constructor
  · rintro ⟨resolved', hresolved, h⟩
    split at h
    · rename_i hlengths
      cases h
      rw [length_eraseDups_map, length_eraseDups_map] at hlengths
      exact ⟨hresolved, hlengths⟩
    · cases h
  · rintro ⟨hresolved, hnames⟩
    refine ⟨resolved, hresolved, if_pos ?_⟩
    rw [length_eraseDups_map, length_eraseDups_map]
    exact hnames

theorem sayAlike_of_agrees (hattributes : e.attributes = e'.attributes) (hscope : e.scope.Agrees e'.scope) :
    SayAlike c e e' := by
  have htext : ∀ key, e.attribute? key = e'.attribute? key := fun key => by
    rw [Element.attribute?, Element.attribute?, hattributes]
  refine ⟨fun key _ _ => ?_, fun _ => ?_, fun key _ => htext key⟩
  · rw [name?, name?, htext]
    split
    · rfl
    · rw [hscope.resolve]
  · rw [memberNames, memberNames, htext]
    exact List.map_congr_left fun word _ => hscope.resolve word

mutual

theorem alike_of_ofTree? : ∀ {t : Tree} {outer outer' : Scope} {e : Element}, outer.Agrees outer' →
    Element.ofTree? outer t = some e → ∃ e', Element.ofTree? outer' t = some e' ∧ Alike e e'
  | .mk name attributes text children, outer, outer', e, h, he => by
    obtain ⟨declared, tag, resolved, inner, hdeclared, htag, hresolved, hinner, rfl⟩ := ofTree?_eq_some.1 he
    have hscope := h.extend declared
    obtain ⟨inner', hinner', hchildren⟩ := alike_of_ofTrees? hscope hinner
    rw [hscope.elementName?] at htag
    rw [hscope.attributes?] at hresolved
    refine ⟨_, ofTree?_eq_some.2 ⟨declared, tag, resolved, inner', hdeclared, htag, hresolved, hinner', rfl⟩, ?_⟩
    generalize (if text = "" then none else some text) = words
    cases hc : construct? (.mk tag resolved words (outer.extend declared) inner) with
    | none => exact .foreign rfl hc
    | some c => exact .construct rfl hc (fun _ => sayAlike_of_agrees rfl hscope) hchildren

theorem alike_of_ofTrees? : ∀ {ts : List Tree} {outer outer' : Scope} {es : List Element}, outer.Agrees outer' →
    Element.ofTrees? outer ts = some es → ∃ es', Element.ofTrees? outer' ts = some es' ∧ List.Forall₂ Alike es es'
  | [], outer, outer', es, h, hes => by
    rw [Element.ofTrees?] at hes
    cases hes
    exact ⟨[], by rw [Element.ofTrees?], .nil⟩
  | t :: ts, outer, outer', es, h, hes => by
    obtain ⟨e, rest, he, hrest, rfl⟩ := ofTrees?_cons_eq_some.1 hes
    obtain ⟨e', he', halike⟩ := alike_of_ofTree? h he
    obtain ⟨rest', hrest', hall⟩ := alike_of_ofTrees? h hrest
    exact ⟨e' :: rest', ofTrees?_cons_eq_some.2 ⟨e', rest', he', hrest', rfl⟩, .cons halike hall⟩

end

theorem standard_of_ofTree? (h : outer.Standard) {t : Tree} (he : Element.ofTree? outer t = some e) :
    e.scope.Standard := by
  obtain ⟨name, attributes, text, children⟩ := t
  obtain ⟨declared, tag, resolved, inner, hdeclared, -, -, -, rfl⟩ := ofTree?_eq_some.1 he
  exact h.extend (declarations?_eq_some.1 hdeclared).2

theorem exists_tree_of_child {t : Tree} (he : Element.ofTree? outer t = some e) :
    ∀ x ∈ e.children, ∃ t', Element.ofTree? e.scope t' = some x := by
  obtain ⟨name, attributes, text, children⟩ := t
  obtain ⟨declared, tag, resolved, inner, -, -, -, hinner, rfl⟩ := ofTree?_eq_some.1 he
  change ∀ x ∈ inner, ∃ t', Element.ofTree? (outer.extend declared) t' = some x
  clear he
  induction children generalizing inner with
  | nil =>
    rw [Element.ofTrees?] at hinner
    cases hinner
    simp
  | cons t ts ih =>
    obtain ⟨first, rest, hfirst, hrest, rfl⟩ := ofTrees?_cons_eq_some.1 hinner
    exact List.forall_mem_cons.2 ⟨⟨t, hfirst⟩, ih rest hrest⟩

end Trees

/-! ## Declarations that are repeated -/

def declarationName (label : String) : String :=
  if label = "" then "xmlns" else "xmlns:" ++ label

/-- The declarations that an element with some attributes inherits: those of the prefixes that it does not declare
itself. -/
def Scope.inherited (outer : Scope) (attributes : List (String × String)) : List (String × String) :=
  (outer.bindings.filter fun b => b.1 ≠ "xml" ∧ ∀ a ∈ attributes, declaredLabel? a.1 ≠ some b.1).map fun b =>
    (declarationName b.1, b.2)

/-- A tree with the declarations that it inherits repeated on its root. -/
def Tree.redeclaring (outer : Scope) : Tree → Tree
  | .mk name attributes text children => .mk name (outer.inherited attributes ++ attributes) text children

section Redeclaring

variable {outer : Scope} {attributes : List (String × String)} {label : String}

@[simp] theorem declaredLabel?_declarationName (label : String) :
    declaredLabel? (declarationName label) = some label := by
  rw [declarationName]
  split
  · rename_i h
    rw [h]
    decide
  · exact declaredLabel?_xmlns label

theorem filterMap_inherited (outer : Scope) (attributes : List (String × String)) :
    (outer.inherited attributes).filterMap (fun a => (declaredLabel? a.1).map (·, a.2)) =
      outer.bindings.filter fun b => b.1 ≠ "xml" ∧ ∀ a ∈ attributes, declaredLabel? a.1 ≠ some b.1 := by
  rw [Scope.inherited, List.filterMap_map]
  simp

theorem filter_inherited (outer : Scope) (attributes : List (String × String)) :
    (outer.inherited attributes ++ attributes).filter (fun a => (declaredLabel? a.1).isNone) =
      attributes.filter fun a => (declaredLabel? a.1).isNone := by
  rw [List.filter_append, List.filter_eq_nil_iff.2, List.nil_append]
  intro a ha
  obtain ⟨b, -, rfl⟩ := List.mem_map.1 ha
  simp

theorem lookup_eq_some_iff {l : List (String × String)} (h : (l.map (·.1)).Nodup) {key value : String} :
    l.lookup key = some value ↔ (key, value) ∈ l := by
  induction l with
  | nil => simp
  | cons b l ih =>
    obtain ⟨hfresh, hrest⟩ := List.nodup_cons.1 h
    rw [List.lookup_cons, List.mem_cons]
    by_cases hkey : key = b.1
    · rw [hkey, BEq.rfl]
      constructor
      · rintro ⟨rfl⟩
        exact .inl rfl
      · rintro (heq | hmem)
        · rw [← heq]
        · exact absurd (List.mem_map_of_mem hmem) hfresh
    · rw [beq_false_of_ne hkey, ih hrest]
      constructor
      · exact .inr
      · rintro (heq | hmem)
        · exact absurd (congrArg Prod.fst heq) hkey
        · exact hmem

/-- The declarations of an element after those that it inherits bind what its own declarations bind in their scope. -/
theorem agrees_inherited (h : outer.Standard) (attributes : List (String × String)) :
    let own := attributes.filterMap fun a => (declaredLabel? a.1).map (·, a.2)
    let repeated := outer.bindings.filter fun b => b.1 ≠ "xml" ∧ ∀ a ∈ attributes, declaredLabel? a.1 ≠ some b.1
    (outer.extend own).Agrees (Scope.base.extend (repeated ++ own)) := by
  intro own repeated key
  rw [Scope.find?_extend, Scope.find?_extend, List.reverse_append, List.lookup_append, Option.or_assoc]
  cases hown : own.reverse.lookup key with
  | some space => rfl
  | none =>
    rw [Option.none_or, Option.none_or]
    have hundeclared : ∀ a ∈ attributes, declaredLabel? a.1 ≠ some key := by
      intro a ha heq
      rw [List.lookup_eq_none_iff] at hown
      refine absurd (hown (key, a.2) ?_) (by simp)
      exact List.mem_reverse.2 (List.mem_filterMap.2 ⟨a, ha, by rw [heq]; rfl⟩)
    have hnodup : (repeated.reverse.map (·.1)).Nodup := by
      rw [List.map_reverse, List.nodup_reverse]
      exact h.nodup.sublist (List.filter_sublist.map _)
    by_cases hxml : key = "xml"
    · have hfresh : repeated.reverse.lookup key = none := by
        refine List.lookup_eq_none_iff.2 fun b hb => ?_
        have hb := (List.mem_filter.1 (List.mem_reverse.1 hb)).2
        simp only [decide_eq_true_eq] at hb
        simpa [hxml] using Ne.symm hb.1
      rw [hfresh, hxml, h.xml]
      rfl
    · have hbase : Scope.base.find? key = none := by
        rw [Scope.find?, Scope.base, List.lookup_cons, beq_false_of_ne hxml]
        rfl
      rw [hbase, Option.or_none]
      refine Option.ext fun space => ?_
      rw [Scope.find?, lookup_eq_some_iff h.nodup, lookup_eq_some_iff hnodup, List.mem_reverse, List.mem_filter]
      simp only [decide_eq_true_eq]
      exact ⟨fun hmem => ⟨hmem, hxml, hundeclared⟩, And.left⟩

theorem declarations?_redeclaring (h : outer.Standard) {declared : List (String × String)}
    (hdeclared : declarations? attributes = some declared) :
    declarations? (outer.inherited attributes ++ attributes) =
      some (outer.bindings.filter (fun b => b.1 ≠ "xml" ∧ ∀ a ∈ attributes, declaredLabel? a.1 ≠ some b.1) ++ declared) := by
  obtain ⟨hown, hbindable⟩ := declarations?_eq_some.1 hdeclared
  refine declarations?_eq_some.2 ⟨?_, List.forall_mem_append.2 ⟨fun b hb => ?_, hbindable⟩⟩
  · rw [List.filterMap_append, filterMap_inherited, hown]
  · obtain ⟨hmem, hb⟩ := List.mem_filter.1 hb
    simp only [decide_eq_true_eq] at hb
    exact h.bindable b hmem hb.1

theorem nodup_redeclaring (h : outer.Standard) (hnodup : (attributes.map (·.1)).Nodup) :
    ((outer.inherited attributes ++ attributes).map (·.1)).Nodup := by
  rw [List.map_append, List.nodup_append]
  refine ⟨?_, hnodup, fun written hinherited name hname heq => ?_⟩
  · rw [Scope.inherited, List.map_map]
    refine List.Nodup.of_map declaredLabel? ?_
    rw [List.map_map]
    have hlabels : (declaredLabel? ∘ (fun a : String × String => a.1) ∘ fun b : String × String => (declarationName b.1, b.2)) =
        some ∘ (·.1) := by
      funext b
      simp
    rw [hlabels, ← List.map_map]
    exact (h.nodup.sublist (List.filter_sublist.map _)).map fun _ _ => Option.some.inj
  · rw [Scope.inherited, List.map_map] at hinherited
    obtain ⟨b, hb, rfl⟩ := List.mem_map.1 hinherited
    obtain ⟨a, ha, rfl⟩ := List.mem_map.1 hname
    have hfresh := (List.mem_filter.1 hb).2
    simp only [decide_eq_true_eq] at hfresh
    refine hfresh.2 a ha ?_
    rw [← heq]
    exact declaredLabel?_declarationName b.1

/-- An element that is taken out of its document holds the same schema, if the declarations that it has inherited are
repeated on it. -/
theorem holdAlike_redeclaring (h : outer.Standard) {t : Tree} {e : Element} (he : Element.ofTree? outer t = some e) :
    ∃ e', Element.ofTree? .base (t.redeclaring outer) = some e' ∧ HoldAlike e e' := by
  obtain ⟨name, attributes, text, children⟩ := t
  obtain ⟨declared, tag, resolved, inner, hdeclared, htag, hresolved, hinner, rfl⟩ := ofTree?_eq_some.1 he
  have hscope := agrees_inherited h attributes
  dsimp only at hscope
  rw [← (declarations?_eq_some.1 hdeclared).1] at hscope
  obtain ⟨inner', hinner', hchildren⟩ := alike_of_ofTrees? hscope hinner
  rw [hscope.elementName?] at htag
  rw [hscope.attributes?] at hresolved
  obtain ⟨hproper, hnodup, hnames⟩ := attributes?_eq_some.1 hresolved
  have hresolved' := attributes?_eq_some.2 ⟨(filter_inherited outer attributes).symm ▸ hproper,
    nodup_redeclaring h hnodup, hnames⟩
  exact ⟨_, ofTree?_eq_some.2 ⟨_, tag, resolved, inner', declarations?_redeclaring h hdeclared, htag, hresolved',
    hinner', rfl⟩, rfl, fun _ _ => rfl, hchildren⟩

end Redeclaring

/-! ## Documents -/

/-- The tree of a document, in which the names are as they are written. -/
def Tree.ofBytes (bytes : List UInt8) : Except Fault Tree := do
  let d ← decodeDocument bytes
  let prolog ← Prolog.read d.rule d.standalone d.chars
  match pieces? ⟨d.rule, prolog.outside && !d.standalone⟩ prolog.rest >>= Tree.ofMarkup? prolog.rules with
  | some t => pure t
  | none => throw (.problem .notWellFormed)

theorem ofBytes_eq_ok {bytes : List UInt8} {e : Element} :
    Element.ofBytes bytes = .ok e ↔ ∃ t, Tree.ofBytes bytes = .ok t ∧ Element.ofTree? .base t = some e := by
  rw [Element.ofBytes, Tree.ofBytes]
  cases decodeDocument bytes with
  | error f => simp [bind, Except.bind]
  | ok d =>
    change Element.ofChars d = _ ↔ _
    rw [Element.ofChars, bind_eq_ok]
    cases hprolog : Prolog.read d.rule d.standalone d.chars with
    | error f => simp [bind, Except.bind, hprolog]
    | ok prolog =>
      cases hpieces : pieces? ⟨d.rule, prolog.outside && !d.standalone⟩ prolog.rest with
      | none => simp [bind, Except.bind, hprolog, hpieces, throw, throwThe, MonadExceptOf.throw]
      | some pieces =>
        cases htree : Tree.ofMarkup? prolog.rules pieces with
        | none => simp [bind, Except.bind, hprolog, hpieces, htree, throw, throwThe, MonadExceptOf.throw]
        | some t =>
          cases he : Element.ofTree? .base t with
          | none =>
            simp [bind, Except.bind, hprolog, hpieces, htree, he, throw, throwThe, MonadExceptOf.throw, pure,
              Except.pure]
          | some e => simp [bind, Except.bind, hprolog, hpieces, htree, he, pure, Except.pure]

end PayloadSchema.Xml

namespace PayloadSchema

open Xml Wsdl Schema.Reader

/-- The schemas in a service description, each with the scope around it. -/
def Wsdl.embedded (root : Element) : List (Scope × Element) :=
  (Reader.children root "types").flatMap fun types =>
    (types.children.filter (·.tag = xsd "schema")).map (types.scope, ·)

theorem map_embedded (root : Element) : (embedded root).map (·.2) = embeddedSchemas root := by
  simp [embedded, embeddedSchemas, List.map_flatMap, Function.comp_def]

theorem exists_tree_of_embedded {wsdl : List UInt8} {root : Element} (hroot : Element.ofBytes wsdl = .ok root) :
    ∀ p ∈ embedded root, p.1.Standard ∧ p.2.tag = xsd "schema" ∧ ∃ t, Element.ofTree? p.1 t = some p.2 := by
  obtain ⟨tree, -, htree⟩ := ofBytes_eq_ok.1 hroot
  intro p hp
  obtain ⟨types, htypes, hp⟩ := List.mem_flatMap.1 hp
  obtain ⟨e, he, rfl⟩ := List.mem_map.1 hp
  obtain ⟨he, htag⟩ := List.mem_filter.1 he
  obtain ⟨t, ht⟩ := exists_tree_of_child htree types (List.mem_of_mem_filter htypes)
  have hscope := standard_of_ofTree? (standard_of_ofTree? Scope.standard_base htree) ht
  exact ⟨hscope, by simpa using htag, exists_tree_of_child ht e he⟩

theorem forall₂_embeddedSchemas {wsdl : List UInt8} {root : Element} {d : Definition}
    (hroot : Element.ofBytes wsdl = .ok root) (hd : (Definition.ofBytes wsdl).result.1 = .ok d) :
    List.Forall₂ (fun e s => (Schema.ofElement e).result.1 = .ok s) (embeddedSchemas root) d.schemas := by
  have hread : (Definition.ofBytes wsdl).run.run #[] = (.ok d, (Definition.ofBytes wsdl).result.2) := Prod.ext hd rfl
  rw [Definition.ofBytes, hroot] at hread
  obtain ⟨_, log₁, hsame, hread⟩ := Run.run_bind_eq_ok.1 hread
  cases hsame
  split at hread
  · rw [Definition.ofElement] at hread
    obtain ⟨schemas, log₂, hschemas, hread⟩ := Run.run_bind_eq_ok.1 hread
    obtain ⟨messages, log₃, -, hread⟩ := Run.run_bind_eq_ok.1 hread
    obtain ⟨portTypes, log₄, -, hread⟩ := Run.run_bind_eq_ok.1 hread
    obtain ⟨bindings, log₅, -, hread⟩ := Run.run_bind_eq_ok.1 hread
    obtain ⟨services, log₆, -, hread⟩ := Run.run_bind_eq_ok.1 hread
    cases hread
    exact Run.forall₂_of_mapM Schema.steady_ofElement hschemas
  · cases hread

theorem Schema.ofBytes_eq {bytes : List UInt8} {e : Element} (h : Element.ofBytes bytes = .ok e) :
    Schema.ofBytes bytes =
      if e.tag = xsd "schema" then Schema.ofElement e else throw (.problem (.notSchema e.tag)) := by
  rw [Schema.ofBytes, h]
  rfl

/-- Two elements of whatever documents, of which each construct and each name that they use stands for the same, are
read as the same schema; only the prefixes differ.  So are two documents with such roots.  And each schema in a service
description is the schema that is read of a document that holds it alone, with the declarations repeated that it
inherits. -/
theorem reading_follows_names :
    (∀ e e' : Element, HoldAlike e e' → Schema.ofElement e = Schema.ofElement e') ∧
    (∀ (bytes bytes' : List UInt8) (e e' : Element), Element.ofBytes bytes = .ok e → Element.ofBytes bytes' = .ok e' →
      HoldAlike e e' → Schema.ofBytes bytes = Schema.ofBytes bytes') ∧
    ∀ (wsdl : List UInt8) (root : Element) (d : Definition), Element.ofBytes wsdl = .ok root →
      (Definition.ofBytes wsdl).result.1 = .ok d →
      List.Forall₂ (fun p s => (∃ t, Element.ofTree? p.1 t = some p.2) ∧
        ∀ t bytes, Element.ofTree? p.1 t = some p.2 → Tree.ofBytes bytes = .ok (t.redeclaring p.1) →
          (Schema.ofBytes bytes).result.1 = .ok s)
        (embedded root) d.schemas := by
  refine ⟨fun e e' h => h.ofElement_eq, fun bytes bytes' e e' he he' h => ?_, fun wsdl root d hroot hd => ?_⟩
  · rw [Schema.ofBytes_eq he, Schema.ofBytes_eq he', h.tag, h.ofElement_eq]
  · have hschemas := forall₂_embeddedSchemas hroot hd
    rw [← map_embedded, List.forall₂_map_left_iff] at hschemas
    refine ((List.forall₂_and_left _ _).2 ⟨exists_tree_of_embedded hroot, hschemas⟩).imp ?_
    rintro ⟨scope, e⟩ s ⟨⟨hscope, htag, htree⟩, hs⟩
    refine ⟨htree, fun t bytes ht hbytes => ?_⟩
    obtain ⟨e', he', hsame⟩ := holdAlike_redeclaring hscope ht
    rw [Schema.ofBytes_eq (ofBytes_eq_ok.2 ⟨_, hbytes, he'⟩), if_pos (hsame.tag ▸ htag), ← hsame.ofElement_eq]
    exact hs

def describedSample : List UInt8 :=
  ("<w:definitions xmlns:w='http://schemas.xmlsoap.org/wsdl/' xmlns:x='http://www.w3.org/2001/XMLSchema' xmlns='urn:t'>" ++
    "<w:types><x:schema targetNamespace='urn:t'><x:element name='a' type='b'/></x:schema></w:types>" ++
    "</w:definitions>").toUTF8.toList

def aloneSample : List UInt8 :=
  ("<x:schema xmlns='urn:t' xmlns:x='http://www.w3.org/2001/XMLSchema' xmlns:w='http://schemas.xmlsoap.org/wsdl/' " ++
    "targetNamespace='urn:t'><x:element name='a' type='b'/></x:schema>").toUTF8.toList

def renamedSample : List UInt8 :=
  ("<schema xmlns='http://www.w3.org/2001/XMLSchema' targetNamespace='urn:t'>" ++
    "<element xmlns:q='urn:t' name='a' type='q:b'/></schema>").toUTF8.toList

def innerTree : Tree :=
  .mk "x:schema" [("targetNamespace", "urn:t")] "" [.mk "x:element" [("name", "a"), ("type", "b")] "" []]

/-- A schema with one element, in a scope, with a scope for the element and with its type as it is written. -/
def holdingElement (outer inner : Scope) (type : String) : Element :=
  .mk (xsd "schema") [(⟨"", "targetNamespace"⟩, "urn:t")] none outer
    [.mk (xsd "element") [(⟨"", "name"⟩, "a"), (⟨"", "type"⟩, type)] none inner []]

def describedScope : Scope :=
  ⟨[("", "urn:t"), ("x", xsdSpace), ("w", Reader.wsdlSpace), ("xml", xmlSpace)]⟩

def aloneScope : Scope :=
  ⟨[("w", Reader.wsdlSpace), ("x", xsdSpace), ("", "urn:t"), ("xml", xmlSpace)]⟩

def renamedScope : Scope :=
  ⟨[("", xsdSpace), ("xml", xmlSpace)]⟩

/-- The schema with other prefixes says the same: the name of the type stands for the same. -/
theorem holdAlike_renamed : HoldAlike (holdingElement aloneScope aloneScope "b")
    (holdingElement renamedScope (renamedScope.bind "q" "urn:t") "q:b") := by
  refine ⟨rfl, fun _ _ => rfl, .cons (.construct rfl rfl (fun _ => ⟨?_, nofun, ?_⟩) .nil) .nil⟩
  · intro key hkey _
    have hkeys : key ∈ ["ref", "type", "substitutionGroup"] := hkey
    simp only [List.mem_cons, List.not_mem_nil, or_false] at hkeys
    rcases hkeys with rfl | rfl | rfl
    · rfl
    · rfl
    · rfl
  · intro key hkey
    have htype : (⟨"", key⟩ : QName) ≠ ⟨"", "type"⟩ := by
      rintro ⟨rfl⟩
      exact hkey (.tail _ (.head _))
    have hlookup (type : String) : List.lookup (⟨"", key⟩ : QName) [(⟨"", "name"⟩, "a"), (⟨"", "type"⟩, type)] =
        List.lookup (⟨"", key⟩ : QName) [(⟨"", "name"⟩, "a")] := by
      simp only [List.lookup_cons, beq_false_of_ne htype, List.lookup_nil]
    exact (hlookup "b").trans (hlookup "q:b").symm

/-- The schema of the sample description is that of its own document, and that of a document with other prefixes. -/
theorem reading_follows_names_sample :
    ∃ d s, (Definition.ofBytes describedSample).result.1 = .ok d ∧ d.schemas = [s] ∧
      (Schema.ofBytes aloneSample).result.1 = .ok s ∧ Schema.ofBytes aloneSample = Schema.ofBytes renamedSample := by
  have hdescribed : (Tree.ofBytes describedSample).toOption = some (.mk "w:definitions"
      [("xmlns:w", Reader.wsdlSpace), ("xmlns:x", xsdSpace), ("xmlns", "urn:t")] "" [.mk "w:types" [] "" [innerTree]]) := by
    decide +kernel
  have hredeclared : innerTree.redeclaring describedScope = .mk "x:schema"
      [("xmlns", "urn:t"), ("xmlns:x", xsdSpace), ("xmlns:w", Reader.wsdlSpace), ("targetNamespace", "urn:t")] ""
      [.mk "x:element" [("name", "a"), ("type", "b")] "" []] := by decide +kernel
  have halone : (Tree.ofBytes aloneSample).toOption = some (innerTree.redeclaring describedScope) := by decide +kernel
  have hrenamed : (Tree.ofBytes renamedSample).toOption = some (.mk "schema"
      [("xmlns", xsdSpace), ("targetNamespace", "urn:t")] ""
      [.mk "element" [("xmlns:q", "urn:t"), ("name", "a"), ("type", "q:b")] "" []]) := by decide +kernel
  obtain ⟨-, hdocuments, hembedded⟩ := reading_follows_names
  have hinner : Element.ofTree? describedScope innerTree = some (holdingElement describedScope describedScope "b") := rfl
  have htypes : Element.ofTree? describedScope (.mk "w:types" [] "" [innerTree]) =
      some (.mk ⟨Reader.wsdlSpace, "types"⟩ [] none describedScope [holdingElement describedScope describedScope "b"]) :=
    ofTree?_eq_some.2 ⟨[], _, _, _, rfl, rfl, rfl, ofTrees?_cons_eq_some.2 ⟨_, _, hinner, rfl, rfl⟩, rfl⟩
  have hroot : Element.ofBytes describedSample = .ok (.mk ⟨Reader.wsdlSpace, "definitions"⟩ [] none describedScope
      [.mk ⟨Reader.wsdlSpace, "types"⟩ [] none describedScope [holdingElement describedScope describedScope "b"]]) :=
    ofBytes_eq_ok.2 ⟨_, eq_ok_of_toOption hdescribed, ofTree?_eq_some.2
      ⟨[("w", Reader.wsdlSpace), ("x", xsdSpace), ("", "urn:t")], _, _, _, rfl, rfl, rfl,
        ofTrees?_cons_eq_some.2 ⟨_, _, htypes, rfl, rfl⟩, rfl⟩⟩
  have he : Element.ofBytes aloneSample = .ok (holdingElement aloneScope aloneScope "b") :=
    ofBytes_eq_ok.2 ⟨_, eq_ok_of_toOption (halone.trans (congrArg some hredeclared)), ofTree?_eq_some.2
      ⟨[("", "urn:t"), ("x", xsdSpace), ("w", Reader.wsdlSpace)], _, _, _, rfl, rfl, rfl,
        ofTrees?_cons_eq_some.2 ⟨_, _, rfl, rfl, rfl⟩, rfl⟩⟩
  have he' : Element.ofBytes renamedSample = .ok (holdingElement renamedScope (renamedScope.bind "q" "urn:t") "q:b") :=
    ofBytes_eq_ok.2 ⟨_, eq_ok_of_toOption hrenamed, rfl⟩
  have hd : ∃ d, (Definition.ofBytes describedSample).result.1 = .ok d := by
    rw [Definition.ofBytes, hroot]
    exact ⟨_, rfl⟩
  obtain ⟨d, hd⟩ := hd
  have hschemas := hembedded describedSample _ d hroot hd
  change List.Forall₂ _ [(describedScope, holdingElement describedScope describedScope "b")] d.schemas at hschemas
  obtain ⟨s, rest, ⟨-, hs⟩, hrest, hsome⟩ := List.forall₂_cons_left_iff.1 hschemas
  cases hrest
  exact ⟨d, s, hd, hsome, hs innerTree aloneSample hinner (eq_ok_of_toOption halone),
    hdocuments _ _ _ _ he he' holdAlike_renamed⟩

end PayloadSchema
