import Mathlib.Data.List.Nodup
import PayloadSchema.Proofs.Xml.PrintedTags

/-!
# Printed documents are read

The pieces of a printed tree nest into the tree again, but for the text between its tags, and the names of a clean tree
are resolved as they are meant.  So a document that is printed is read as an element that mirrors its tree.
-/

namespace PayloadSchema.Xml

/-! ## Nesting -/

inductive Tree.Resembles : Tree → Tree → Prop where
  | intro {name : String} {attributes : List (String × String)} {words words' : String}
      {children children' : List Tree} (h : List.Forall₂ Resembles children children') :
      Resembles (.mk name attributes words children) (.mk name attributes words' children')

section Nesting

variable {name : String} {attributes : List (String × String)}

@[simp] theorem ruledAttributes_spelled (element : List Char) :
    ruledAttributes [] element (spelled attributes) = attributes := by
  simp [ruledAttributes, spelled, Function.comp_def]

/-- The text between two tags counts at most as text of the element that is open. -/
theorem nest?_blank (indent : Option Nat) (inner : OpenTree) (outer : List OpenTree) (pieces : List Markup) :
    ∃ texts, nest? [] inner outer (blankPieces indent ++ pieces) =
      nest? [] { inner with texts := texts } outer pieces := by
  cases indent with
  | none => exact ⟨inner.texts, rfl⟩
  | some level =>
    have hstep : nest? [] inner outer (blankPieces (some level) ++ pieces) =
        nest? [] (inner.addText (lineStart (some level)).toList) outer pieces := by
      rw [blankPieces, Option.isSome_some, if_pos rfl, List.singleton_append, nest?]
    rw [hstep, OpenTree.addText]
    split
    · exact ⟨_, rfl⟩
    · exact ⟨inner.texts, rfl⟩

theorem nest?_stop (outer : List OpenTree) (texts : List (List Char)) (children : List Tree) (pieces : List Markup) :
    nest? [] ⟨name.toList, attributes, texts, children⟩ outer (.stop name.toList :: pieces) =
      match outer with
      | [] => some (.mk name attributes (String.ofList texts.reverse.flatten) children.reverse, pieces)
      | parent :: outer => nest? []
          (parent.addChild (.mk name attributes (String.ofList texts.reverse.flatten) children.reverse)) outer
          pieces := by
  cases outer <;> rw [nest?, if_pos rfl, OpenTree.closed, String.ofList_toList]

mutual

theorem nest?_pieces (indent : Option Nat) (inner : OpenTree) (outer : List OpenTree) (more : List Markup) :
    ∀ t : Tree, ∃ t', t.Resembles t' ∧
      nest? [] inner outer (t.pieces indent ++ more) = nest? [] (inner.addChild t') outer more
  | .mk name attributes words [] => by
    refine ⟨.mk name attributes "" [], .intro .nil, ?_⟩
    rw [Tree.pieces, List.singleton_append, nest?, if_pos rfl, ruledAttributes_spelled, OpenTree.closed,
      String.ofList_toList]
    rfl
  | .mk name attributes words (child :: children) => by
    obtain ⟨inside, texts, hinside, hnest⟩ := nest?_piecesAll (indent.map (· + 1)) ⟨name.toList, attributes, [], []⟩
      (inner :: outer) (blankPieces indent ++ (.stop name.toList :: more)) (child :: children)
    obtain ⟨texts', hblank⟩ :=
      nest?_blank indent ⟨name.toList, attributes, texts, inside.reverse ++ []⟩ (inner :: outer)
      (.stop name.toList :: more)
    refine ⟨.mk name attributes (String.ofList texts'.reverse.flatten) inside, .intro hinside, ?_⟩
    rw [Tree.pieces, List.cons_append, nest?, if_neg Bool.false_ne_true, ruledAttributes_spelled]
    simp only [List.append_assoc, List.singleton_append]
    rw [hnest, hblank, nest?_stop]
    simp

/-- The pieces of trees side by side add them to the element that is open, in their order. -/
theorem nest?_piecesAll (indent : Option Nat) (inner : OpenTree) (outer : List OpenTree) (more : List Markup) :
    ∀ ts : List Tree, ∃ ts' texts, List.Forall₂ Tree.Resembles ts ts' ∧
      nest? [] inner outer (Tree.piecesAll indent ts ++ more) =
        nest? [] { inner with texts := texts, children := ts'.reverse ++ inner.children } outer more
  | [] => ⟨[], inner.texts, .nil, rfl⟩
  | t :: ts => by
    obtain ⟨texts, hblank⟩ := nest?_blank indent inner outer (t.pieces indent ++ (Tree.piecesAll indent ts ++ more))
    obtain ⟨t', ht, hfirst⟩ :=
      nest?_pieces indent { inner with texts := texts } outer (Tree.piecesAll indent ts ++ more) t
    obtain ⟨ts', texts', hts, hrest⟩ := nest?_piecesAll indent (({ inner with texts := texts } : OpenTree).addChild t')
      outer more ts
    refine ⟨t' :: ts', texts', .cons ht hts, ?_⟩
    rw [Tree.piecesAll, List.append_assoc, List.append_assoc, hblank, hfirst, hrest]
    simp [OpenTree.addChild]

end

theorem ofMarkup?_pieces (indent : Option Nat) (t : Tree) :
    ∃ t', t.Resembles t' ∧ Tree.ofMarkup? [] (t.pieces indent) = some t' := by
  obtain ⟨name, attributes, words, children⟩ := t
  cases children with
  | nil =>
    refine ⟨.mk name attributes "" [], .intro .nil, ?_⟩
    rw [Tree.pieces, Tree.ofMarkup?, ruledAttributes_spelled, if_pos rfl, OpenTree.closed, String.ofList_toList]
    rfl
  | cons child children =>
    obtain ⟨inside, texts, hinside, hnest⟩ := nest?_piecesAll (indent.map (· + 1)) ⟨name.toList, attributes, [], []⟩ []
      (blankPieces indent ++ [.stop name.toList]) (child :: children)
    obtain ⟨texts', hblank⟩ := nest?_blank indent ⟨name.toList, attributes, texts, inside.reverse ++ []⟩ []
      [.stop name.toList]
    refine ⟨.mk name attributes (String.ofList texts'.reverse.flatten) inside, .intro hinside, ?_⟩
    rw [Tree.pieces, Tree.ofMarkup?, ruledAttributes_spelled, if_neg Bool.false_ne_true, hnest, hblank, nest?_stop]
    simp

end Nesting

/-! ## Names -/

section Resolving

variable {ok : Char → Prop} {label : String} {attributes : List (String × String)} {t t' : Tree} {outer scope : Scope}

theorem eraseDups_eq_self {α : Type} [BEq α] [LawfulBEq α] {l : List α} (h : l.Nodup) : l.eraseDups = l := by
  induction l with
  | nil => rfl
  | cons a l ih =>
    obtain ⟨ha, hl⟩ := List.nodup_cons.1 h
    have hfilter : l.filter (fun b => !b == a) = l := by
      refine List.filter_eq_self.2 fun b hb => ?_
      have hne : b ≠ a := fun heq => ha (heq ▸ hb)
      simpa using hne
    rw [List.eraseDups_cons, hfilter, ih hl]

private theorem mapM_eq_some {α β : Type} {f : α → Option β} {g : α → β} {l : List α} (h : ∀ a ∈ l, f a = some (g a)) :
    l.mapM f = some (l.map g) := by
  induction l with
  | nil => rfl
  | cons a l ih =>
    obtain ⟨ha, hl⟩ := List.forall_mem_cons.1 h
    rw [List.mapM_cons, ha, ih hl]
    rfl

theorem filterMap_declared (h : ∀ a ∈ attributes, isPlainName a.1) :
    attributes.filterMap (fun a => (declaredLabel? a.1).map (·, a.2)) = [] := by
  refine List.filterMap_eq_nil_iff.2 fun a ha => ?_
  rw [declaredLabel?_plain (h a ha)]
  rfl

theorem declarations?_plain (h : ∀ a ∈ attributes, isPlainName a.1) : declarations? attributes = some [] := by
  rw [declarations?, filterMap_declared h]
  rfl

theorem declaredLabel?_xmlns (label : String) : declaredLabel? ("xmlns:" ++ label) = some label := by
  have hsplit : splitName ("xmlns" ++ ":" ++ label) = (some "xmlns", label) := splitName_prefixed (by decide)
  have hname : "xmlns:" ++ label = "xmlns" ++ ":" ++ label := rfl
  rw [declaredLabel?, hname, hsplit]
  rfl

theorem attributes?_proper (hproper : ∀ a ∈ attributes, isPlainName a.1 ∨ (declaredLabel? a.1).isSome)
    (hdistinct : (attributes.map (·.1)).Nodup) : scope.attributes? attributes = some (properAttributes attributes) := by
  have hresolve : ∀ a ∈ attributes.filter (fun a => (declaredLabel? a.1).isNone),
      (scope.attributeName? a.1).map (·, a.2) = some (⟨"", a.1⟩, a.2) := by
    intro a ha
    obtain ⟨ha, hnone⟩ := List.mem_filter.1 ha
    rcases hproper a ha with hplain | hdeclared
    · rw [Scope.attributeName?, splitName_plain (colon_not_mem hplain)]
      rfl
    · rw [Option.isNone_iff_eq_none.1 hnone] at hdeclared
      cases hdeclared
  have hkeys : ((properAttributes attributes).map (·.1)).Nodup := by
    have hnames : (properAttributes attributes).map (·.1) =
        ((attributes.filter fun a => (declaredLabel? a.1).isNone).map (·.1)).map (QName.mk "") := by
      simp [properAttributes]
    rw [hnames]
    refine List.Nodup.map (fun a b hab => (QName.mk.inj hab).2) ?_
    exact hdistinct.sublist (List.filter_sublist.map _)
  rw [Scope.attributes?, mapM_eq_some hresolve]
  show (if _ ∧ _ then _ else _) = _
  rw [← properAttributes, eraseDups_eq_self hdistinct, eraseDups_eq_self hkeys, List.length_map, List.length_map]
  simp

theorem ofTrees?_forall₂ {ts ts' : List Tree} (hts : ∀ t ∈ ts, ∀ {t'}, t.Resembles t' →
      ∃ e, Element.ofTree? scope t' = some e ∧ Element.Mirrors label t e)
    (hsame : List.Forall₂ Tree.Resembles ts ts') :
    ∃ es, Element.ofTrees? scope ts' = some es ∧ List.Forall₂ (Element.Mirrors label) ts es := by
  induction hsame with
  | nil => exact ⟨[], by rw [Element.ofTrees?], .nil⟩
  | cons hfirst _ ih =>
    obtain ⟨ht, hts⟩ := List.forall_mem_cons.1 hts
    obtain ⟨e, he, hmirrors⟩ := ht hfirst
    obtain ⟨es, hes, hrest⟩ := ih hts
    refine ⟨e :: es, ?_, .cons hmirrors hrest⟩
    rw [Element.ofTrees?, he, hes]
    rfl

/-- A tag is resolved where its prefix is bound, after the namespaces that it declares itself. -/
theorem ofTree?_tag {name words : String} {children inner : List Tree} {declared : List (String × String)}
    {es : List Element} (hlabel : ':' ∉ label.toList) (hdeclared : declarations? attributes = some declared)
    (hscope : (scope.extend declared).find? label = some xsdSpace)
    (hproper : ∀ a ∈ attributes, isPlainName a.1 ∨ (declaredLabel? a.1).isSome)
    (hdistinct : (attributes.map (·.1)).Nodup) (hes : Element.ofTrees? (scope.extend declared) inner = some es)
    (hmirrors : List.Forall₂ (Element.Mirrors label) children es) :
    ∃ e, Element.ofTree? scope (.mk (label ++ ":" ++ name) attributes words inner) = some e ∧
      Element.Mirrors label (Schema.Writer.tag label name attributes children) e := by
  have hname : (scope.extend declared).elementName? (label ++ ":" ++ name) = some (xsd name) := by
    rw [Scope.elementName?, splitName_prefixed hlabel]
    dsimp only
    rw [hscope]
    rfl
  refine ⟨.mk (xsd name) (properAttributes attributes) (if words = "" then none else some words)
    (scope.extend declared) es, ?_, .intro hscope hmirrors⟩
  rw [Element.ofTree?, hdeclared]
  show ((scope.extend declared).elementName? (label ++ ":" ++ name)).bind _ = _
  rw [hname]
  show ((scope.extend declared).attributes? attributes).bind _ = _
  rw [attributes?_proper hproper hdistinct]
  show (Element.ofTrees? (scope.extend declared) inner).bind _ = _
  rw [hes]
  rfl

theorem Tree.Clean.mirrors (ht : t.Clean ok label) (hlabel : ':' ∉ label.toList) (hsame : t.Resembles t')
    (hscope : scope.find? label = some xsdSpace) :
    ∃ e, Element.ofTree? scope t' = some e ∧ Element.Mirrors label t e := by
  induction ht generalizing t' with
  | tag _ hkeys hdistinct _ _ ih =>
    cases hsame with
    | intro hinner =>
      obtain ⟨es, hes, hmirrors⟩ := ofTrees?_forall₂ (fun t ht _ h => ih t ht h) hinner
      exact ofTree?_tag hlabel (declarations?_plain hkeys) hscope (fun a ha => .inl (hkeys a ha))
        hdistinct hes hmirrors

theorem Tree.Clean.parts {name : String} {children : List Tree}
    (h : Tree.Clean ok label (Schema.Writer.tag label name attributes children)) :
    isPlainName name ∧ (∀ a ∈ attributes, isPlainName a.1) ∧ (attributes.map (·.1)).Nodup ∧
      (∀ a ∈ attributes, Carried ok a.2) ∧ ∀ t ∈ children, t.Clean ok label := by
  generalize htag : Schema.Writer.tag label name attributes children = t at h
  cases h with
  | tag hname hkeys hdistinct hvalues hchildren =>
    obtain ⟨hwritten, rfl, -, rfl⟩ := Tree.mk.inj htag
    obtain rfl := (String.append_right_inj _).1 hwritten
    exact ⟨hname, hkeys, hdistinct, hvalues, hchildren⟩

/-- What resembles the tree of a document is resolved to an element that mirrors it, if its prefix is not reserved. -/
theorem Tree.Root.mirrors (ht : t.Root ok label) (hlabel : ':' ∉ label.toList) (hxml : label ≠ "xml")
    (hxmlns : label ≠ "xmlns") (hsame : t.Resembles t') :
    ∃ e, Element.ofTree? .base t' = some e ∧ Element.Mirrors label t e := by
  cases ht with
  | @tag name attributes children hclean =>
    obtain ⟨-, hkeys, hdistinct, -, hchildren⟩ := hclean.parts
    have hbound := declaredLabel?_xmlns label
    have hbindable : isBindable label xsdSpace := by
      have hspace : (xsdSpace == xmlSpace) = false ∧ xsdSpace ≠ "" ∧ xsdSpace ≠ declarationSpace ∧
          '\x7d' ∉ xsdSpace.toList := by decide
      simp [isBindable, hxmlns, hxml, hspace]
    have hdeclared : declarations? (("xmlns:" ++ label, xsdSpace) :: attributes) = some [(label, xsdSpace)] := by
      rw [declarations?, List.filterMap_cons, hbound, filterMap_declared hkeys]
      simp [hbindable]
    have hfresh : "xmlns:" ++ label ∉ attributes.map (·.1) := by
      intro hmem
      obtain ⟨a, ha, heq⟩ := List.mem_map.1 hmem
      exact colon_not_mem (hkeys a ha) (by simp [heq])
    have hscope : (Scope.base.extend [(label, xsdSpace)]).find? label = some xsdSpace := by
      simp [Scope.extend, Scope.bind, Scope.find?]
    cases hsame with
    | intro hinner =>
      obtain ⟨es, hes, hmirrors⟩ := ofTrees?_forall₂ (fun t ht _ h => (hchildren t ht).mirrors hlabel h hscope) hinner
      refine ofTree?_tag hlabel hdeclared hscope ?_ (List.nodup_cons.2 ⟨hfresh, hdistinct⟩) hes hmirrors
      exact List.forall_mem_cons.2 ⟨.inr (by rw [hbound]; rfl), fun a ha => .inl (hkeys a ha)⟩

end Resolving

/-! ## Documents -/

section Documents

variable {rule : NameRule} {label : String} {t : Tree}

/-- Whether a text can be the prefix of a document: a name without a colon that is not reserved. -/
structure IsPrefix (rule : NameRule) (label : String) : Prop where
  name : rule.isName label.toList
  xml : label ≠ "xml"
  xmlns : label ≠ "xmlns"

theorem NameRule.isStart_of_isAlpha {c : Char} (h : c.isAlpha) : rule.isStart c := by
  have hlt : c.toNat < 0x80 := by
    rcases Bool.or_eq_true_iff.1 h with hupper | hlower
    · have hrange : 'A'.val ≤ c.val ∧ c.val ≤ 'Z'.val := of_decide_eq_true hupper
      exact Nat.lt_of_le_of_lt (UInt32.le_iff_toNat_le.1 hrange.2) (by decide)
    · have hhigh : c.val ≤ 'z'.val := of_decide_eq_true (Bool.and_eq_true_iff.1 hlower).2
      exact Nat.lt_of_le_of_lt (UInt32.le_iff_toNat_le.1 hhigh) (by decide)
  rw [isStart, if_pos hlt, h]
  rfl

theorem isName_of_plain {s : String} (h : isPlainName s) : rule.isName s.toList := by
  simp only [isPlainName, Bool.and_eq_true, List.all_eq_true, bne_iff_ne] at h
  obtain ⟨⟨hall, hne⟩, -⟩ := h
  cases hs : s.toList with
  | nil => exact absurd (String.toList_eq_nil_iff.1 hs) hne
  | cons c cs =>
    rw [hs] at hall
    obtain ⟨hc, hcs⟩ := List.forall_mem_cons.1 hall
    simp only [NameRule.isName, Bool.and_eq_true, List.all_eq_true]
    exact ⟨NameRule.isStart_of_isAlpha hc,
      fun d hd => NameRule.isPart_of_isStart (NameRule.isStart_of_isAlpha (hcs d hd))⟩

theorem NameRule.isPart_of_isName {name : List Char} (h : rule.isName name) : ∀ c ∈ name, rule.isPart c := by
  cases name with
  | nil => simp
  | cons c cs =>
    simp only [isName, Bool.and_eq_true, List.all_eq_true] at h
    exact List.forall_mem_cons.2 ⟨isPart_of_isStart h.1, h.2⟩

theorem IsPrefix.colon (h : IsPrefix rule label) : ':' ∉ label.toList := by
  intro hcolon
  cases NameRule.isPart_of_isName h.name ':' hcolon

theorem Tree.Clean.isPrintable (h : t.Clean (fun c => isChar c) label) (hlabel : rule.isName label.toList) :
    t.IsPrintable rule := by
  induction h with
  | @tag name attributes children hname hkeys _ hvalues _ ih =>
    refine .intro ?_ (fun a ha => ⟨.plain (isName_of_plain (hkeys a ha)), hvalues a ha⟩) ih
    have hprefixed := NameRule.IsWritten.prefixed hlabel (isName_of_plain hname)
    simpa using hprefixed

theorem Tree.Root.isPrintable (h : t.Root (fun c => isChar c) label) (hlabel : rule.isName label.toList) :
    t.IsPrintable rule := by
  cases h with
  | @tag name attributes children hclean =>
    obtain ⟨hname, hkeys, -, hvalues, hchildren⟩ := hclean.parts
    refine .intro ?_ (List.forall_mem_cons.2 ⟨⟨?_, ?_⟩, fun a ha => ?_⟩) fun t ht => (hchildren t ht).isPrintable hlabel
    · have hprefixed := NameRule.IsWritten.prefixed hlabel (isName_of_plain hname)
      simpa using hprefixed
    · have hxmlns : rule.isName "xmlns".toList := rfl
      have hprefixed := NameRule.IsWritten.prefixed hxmlns hlabel
      simpa using hprefixed
    · have hspace : isPrintableText xsdSpace := by decide
      exact allowsPrintable_isChar.carried hspace
    · exact ⟨.plain (isName_of_plain (hkeys a ha)), hvalues a ha⟩

theorem ofBytes_tag {s : String} {c : Char} {cs : List Char} (hs : s.toList = '<' :: c :: cs)
    (hc : (⟨false⟩ : NameRule).isStart c) :
    Element.ofBytes s.toUTF8.toList =
      match (pieces? ⟨⟨false⟩, false⟩ s.toList).bind fun pieces => (Tree.ofMarkup? [] pieces).bind
        (Element.ofTree? .base) with
      | some e => .ok e
      | none => .error (.problem .notWellFormed) := by
  have hprolog : Prolog.read ⟨false⟩ false s.toList = .ok ⟨s.toList, false, true, []⟩ := by
    rw [hs, prolog_tag hc]
  rw [Element.ofBytes, decodeDocument_tag hs hc]
  show Element.ofChars ⟨⟨false⟩, false, s.toList⟩ = _
  rw [Element.ofChars]
  dsimp only
  rw [hprolog]
  rfl

/-- The document that is printed for a tree is read as an element that mirrors the tree. -/
theorem ofBytes_print (ht : t.Root (fun c => isChar c) label) (hlabel : IsPrefix ⟨false⟩ label) (indent : Option Nat) :
    ∃ e, Element.ofBytes (t.print indent).toUTF8.toList = .ok e ∧ Element.Mirrors label t e := by
  have hprintable := ht.isPrintable hlabel.name
  obtain ⟨c, cs, hcs, hc⟩ := hprintable.print_eq_cons indent
  obtain ⟨t', hsame, hnest⟩ := ofMarkup?_pieces indent t
  obtain ⟨e, he, hmirrors⟩ := ht.mirrors hlabel.colon hlabel.xml hlabel.xmlns hsame
  have hcuts : Cuts ⟨⟨false⟩, false⟩ (t.print indent).toList (t.pieces indent) := by
    have hall : Cuts ⟨⟨false⟩, false⟩ ((t.print indent).toList ++ []) (t.pieces indent ++ []) :=
      hprintable.cuts cuts_nil
    simpa using hall
  have hpieces : pieces? ⟨⟨false⟩, false⟩ (t.print indent).toList = some (t.pieces indent) := hcuts _ (Nat.le_refl _)
  refine ⟨e, ?_, hmirrors⟩
  rw [ofBytes_tag hcs hc, hpieces, Option.bind_some, hnest, Option.bind_some, he]

end Documents

end PayloadSchema.Xml
