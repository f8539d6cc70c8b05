import PayloadSchema.Proofs.Schema.Reading
import PayloadSchema.Proofs.Written.FinishedTrees

/-!
# Prefixes of written documents

All tags that are written have the one prefix in front of their names, and no attribute has an expanded name.  So a
document has a text exactly if the prefix does not open a brace that it leaves open, and where the prefix opens none the
names stand in the text as they are.
-/

namespace PayloadSchema.Xml

variable {label name own : String} {t : Tree} {ts : List Tree}

/-! ## Names that are not expanded -/

/-- A name that is not expanded. -/
def IsBare (name : String) : Prop := name.toList.head? ≠ some '\x7b'

instance (name : String) : Decidable (IsBare name) := inferInstanceAs (Decidable (_ ≠ _))

theorem IsBare.isUnclosed (h : IsBare name) : isUnclosed name = false := by
  rw [Xml.isUnclosed]
  split
  · rename_i heq
    exact absurd (by rw [heq]; rfl) h
  · rfl

theorem IsBare.expanded? (h : IsBare name) : expanded? name = none := by
  rw [Xml.expanded?]
  split
  · rename_i heq
    exact absurd (by rw [heq]; rfl) h
  · rfl

theorem IsBare.prefixed (h : IsBare label) (own : String) : IsBare (label ++ ":" ++ own) := by
  rw [IsBare, String.toList_append, String.toList_append]
  cases hlabel : label.toList with
  | nil => simp
  | cons c cs =>
    rw [IsBare, hlabel] at h
    simpa using h

/-- A brace that a prefix opens is closed in a name with the prefix if it is closed in the prefix or behind it. -/
theorem isUnclosed_prefixed :
    isUnclosed (label ++ ":" ++ own) = (isUnclosed label && !own.toList.contains '\x7d') := by
  by_cases h : IsBare label
  · rw [(h.prefixed own).isUnclosed, h.isUnclosed, Bool.false_and]
  · rw [IsBare, not_not] at h
    obtain ⟨cs, hcs⟩ := List.head?_eq_some_iff.1 h
    simp [isUnclosed, hcs]

/-! ## Trees under one prefix -/

def Tree.Under (label : String) (t : Tree) : Prop :=
  ∀ name ∈ t.names, IsBare name ∨ ∃ own, name = label ++ ":" ++ own

theorem Tree.mem_namesAll : name ∈ Tree.namesAll ts ↔ ∃ t ∈ ts, name ∈ t.names := by
  induction ts with
  | nil => simp [Tree.namesAll]
  | cons t ts ih => simp [Tree.namesAll, ih]

theorem Tree.under_tag {attributes : List (String × String)} (hkeys : ∀ a ∈ attributes, IsBare a.1)
    (hchildren : ∀ t ∈ ts, t.Under label) : (Schema.Writer.tag label name attributes ts).Under label := by
  intro other hother
  rw [Schema.Writer.tag, Tree.names, List.mem_cons, List.mem_append] at hother
  rcases hother with rfl | hother | hother
  · exact .inr ⟨name, rfl⟩
  · obtain ⟨a, ha, rfl⟩ := List.mem_map.1 hother
    exact .inl (hkeys a ha)
  · obtain ⟨t, ht, hother⟩ := Tree.mem_namesAll.1 hother
    exact hchildren t ht other hother

mutual

theorem Tree.respell_eq_self {spell : String → String} (t : Tree) (h : ∀ name ∈ t.names, spell name = name) :
    t.respell spell = t := by
  match t with
  | .mk name attributes text children =>
    rw [Tree.names, List.forall_mem_cons, List.forall_mem_append] at h
    obtain ⟨hname, hkeys, hchildren⟩ := h
    have hattributes : attributes.map (fun a => (spell a.1, a.2)) = attributes.map id := by
      refine List.map_congr_left fun a ha => ?_
      rw [hkeys a.1 (List.mem_map_of_mem ha), id]
    rw [Tree.respell, hname, hattributes, List.map_id, Tree.respellAll_eq_self children hchildren]

theorem Tree.respellAll_eq_self {spell : String → String} (ts : List Tree)
    (h : ∀ name ∈ Tree.namesAll ts, spell name = name) : Tree.respellAll spell ts = ts := by
  match ts with
  | [] => rfl
  | t :: ts =>
    rw [Tree.namesAll, List.forall_mem_append] at h
    rw [Tree.respellAll, Tree.respell_eq_self t h.1, Tree.respellAll_eq_self ts h.2]

end

theorem Labels.foldl_enter_bare {names : List String} (h : ∀ name ∈ names, IsBare name) (labels : Labels) :
    names.foldl Labels.enter labels = labels := by
  induction names with
  | nil => rfl
  | cons name names ih =>
    obtain ⟨hname, hnames⟩ := List.forall_mem_cons.1 h
    rw [List.foldl_cons, Labels.enter, hname.expanded?]
    exact ih hnames

theorem Tree.labelled_of_bare (h : ∀ name ∈ t.names, IsBare name) : t.labelled = .ok t := by
  have hclosed : t.names.any isUnclosed = false :=
    List.any_eq_false.2 fun name hname => by simp [(h name hname).isUnclosed]
  have hspell : t.respell (Labels.spell []) = t :=
    t.respell_eq_self fun name hname => by rw [Labels.spell, (h name hname).expanded?]
  rw [Tree.labelled, hclosed, Labels.foldl_enter_bare h, if_neg Bool.false_ne_true]
  dsimp only
  rw [hspell]
  cases t
  rfl

theorem Tree.Under.labelled_of_bare (h : t.Under label) (hlabel : IsBare label) : t.labelled = .ok t := by
  refine Tree.labelled_of_bare fun name hname => ?_
  rcases h name hname with hbare | ⟨own, rfl⟩
  · exact hbare
  · exact hlabel.prefixed own

/-- A tree under a prefix has a text unless the prefix opens a brace that it leaves open. -/
theorem Tree.Under.exists_labelled (h : t.Under label) (hlabel : isUnclosed label = false) :
    ∃ t', t.labelled = .ok t' := by
  have hclosed : t.names.any isUnclosed = false := by
    refine List.any_eq_false.2 fun name hname => ?_
    rcases h name hname with hbare | ⟨own, rfl⟩
    · simp [hbare.isUnclosed]
    · simp [isUnclosed_prefixed, hlabel]
  exact ⟨_, by rw [Tree.labelled, hclosed, if_neg Bool.false_ne_true]⟩

theorem Tree.labelled_tag_of_unclosed (hlabel : isUnclosed label) (hname : '\x7d' ∉ name.toList)
    (attributes : List (String × String)) (children : List Tree) :
    (Schema.Writer.tag label name attributes children).labelled = .error (.badValue .unclosedName) := by
  have hroot : isUnclosed (label ++ ":" ++ name) := by
    rw [isUnclosed_prefixed, hlabel]
    simpa using hname
  rw [Schema.Writer.tag, Tree.labelled, if_pos]
  rw [Tree.names, List.any_cons, hroot, Bool.true_or]

end PayloadSchema.Xml

namespace PayloadSchema.Schema.Writer

open Xml (Tree IsBare)
open Reader (bind_eq_ok pure_eq_ok)

variable {label key : String} {t : Tree} {ts : List Tree} {ns members : List Node} {own any : Option Node} {n : Node}

/-! ## Attributes -/

theorem bare_given {value : Option String} (hkey : IsBare key) : ∀ a ∈ given key value, IsBare a.1 := by
  cases value <;> simp [given, hkey]

theorem bare_flag {value : Bool} (hkey : IsBare key) : ∀ a ∈ flag key value, IsBare a.1 := by
  cases value <;> simp [flag, hkey]

theorem bare_occurs (o : Occurs) : ∀ a ∈ occurs o, IsBare a.1 := by
  have hmin : IsBare "minOccurs" := by decide
  have hmax : IsBare "maxOccurs" := by decide
  rw [occurs]
  refine List.forall_mem_append.2 ⟨?_, ?_⟩
  · split
    · simpa using hmin
    · split <;> simp [hmin]
  · split
    · simpa using hmax
    · split <;> simp [hmax]

theorem bare_wildcard (w : Wildcard) : ∀ a ∈ wildcard w, IsBare a.1 :=
  List.forall_mem_append.2 ⟨bare_given (by decide), bare_given (by decide)⟩

theorem bare_typeAttribute {q : Option QName} {attributes : Attributes} (hkey : IsBare key)
    (h : typeAttribute label key q = .ok attributes) : ∀ a ∈ attributes, IsBare a.1 := by
  cases q with
  | none =>
    cases h
    simp
  | some q =>
    obtain ⟨value, -, h⟩ := bind_eq_ok.1 h
    cases h
    simpa using hkey

/-! ## Constructs -/

def AllUnder (label : String) (written : Except Fault (List Tree)) : Prop :=
  ∀ ts, written = .ok ts → ∀ t ∈ ts, t.Under label

/-- A node of which only trees under the prefix are written, whatever place it has. -/
structure Prefixes (label : String) (n : Node) : Prop where
  simpleType : ∀ t, simpleType label n = .ok t → t.Under label
  simpleTypeContent : AllUnder label (simpleTypeContent label (some n))
  attributeDecl : ∀ t, attributeDecl label n = .ok t → t.Under label
  simpleDerivation : AllUnder label (simpleDerivation label (some n))
  elementDecl : ∀ t, elementDecl label n = .ok t → t.Under label
  elementType : AllUnder label (elementType label (some n))
  typeContent : ∀ own, AllUnder label (ownParticle label own) → AllUnder label (typeContent label (some n) own)
  complexDerivation : AllUnder label (complexDerivation label (some n))
  particle : ∀ t, particle label n = .ok t → t.Under label

section Parts

theorem allUnder_mapM {α : Type} {f : α → Except Fault Tree} {l : List α}
    (h : ∀ a ∈ l, ∀ t, f a = .ok t → t.Under label) : AllUnder label (l.mapM f) := by
  induction l with
  | nil =>
    rintro _ ⟨⟩
    simp
  | cons a l ih =>
    obtain ⟨ha, hrest⟩ := List.forall_mem_cons.1 h
    intro ts hts
    rw [List.mapM_cons] at hts
    obtain ⟨t, ht, hts⟩ := bind_eq_ok.1 hts
    obtain ⟨rest, hmore, hts⟩ := bind_eq_ok.1 hts
    cases hts
    exact List.forall_mem_cons.2 ⟨ha t ht, ih hrest rest hmore⟩

theorem allUnder_facets : AllUnder label (facets label ns) := by
  refine allUnder_mapM fun n _ t ht => ?_
  split at ht
  · cases ht
    have hvalue : IsBare "value" := by decide
    exact Tree.under_tag (List.forall_mem_cons.2 ⟨hvalue, bare_flag (by decide)⟩) (by simp)
  · cases ht

theorem allUnder_anyAttribute : AllUnder label (anyAttribute label any) := by
  intro ts hts
  rw [anyAttribute.eq_def] at hts
  split at hts
  · cases hts
    simp
  · split at hts
    · cases hts
      simpa using Tree.under_tag (bare_wildcard _) (by simp)
    · cases hts

theorem allUnder_attributes (h : ∀ m ∈ members, Prefixes label m) : AllUnder label (attributes label members any) := by
  intro ts hts
  obtain ⟨written, hwritten, hts⟩ := bind_eq_ok.1 hts
  obtain ⟨anyWritten, hany, hts⟩ := bind_eq_ok.1 hts
  cases hts
  refine List.forall_mem_append.2 ⟨?_, allUnder_anyAttribute _ hany⟩
  refine allUnder_mapM (fun m hm t ht => ?_) _ hwritten
  split at ht
  · exact (h m hm).attributeDecl t ht
  · cases ht

theorem allUnder_ownSimpleType (h : ∀ m ∈ own, Prefixes label m) : AllUnder label (ownSimpleType label own) := by
  intro ts hts
  cases own with
  | none =>
    cases hts
    simp
  | some m =>
    obtain ⟨t, ht, hts⟩ := bind_eq_ok.1 hts
    cases hts
    simpa using (h m rfl).simpleType t ht

theorem allUnder_simpleTypes (h : ∀ m ∈ ns, Prefixes label m) : AllUnder label (simpleTypes label ns) := by
  induction ns with
  | nil =>
    rintro _ ⟨⟩
    simp
  | cons m ns ih =>
    obtain ⟨hm, hrest⟩ := List.forall_mem_cons.1 h
    intro ts hts
    obtain ⟨t, ht, hts⟩ := bind_eq_ok.1 hts
    obtain ⟨rest, hmore, hts⟩ := bind_eq_ok.1 hts
    cases hts
    exact List.forall_mem_cons.2 ⟨hm.simpleType t ht, ih hrest rest hmore⟩

theorem allUnder_ownParticle (h : ∀ m ∈ own, Prefixes label m) : AllUnder label (ownParticle label own) := by
  intro ts hts
  cases own with
  | none =>
    rw [ownParticle] at hts
    cases hts
    simp
  | some m =>
    rw [ownParticle] at hts
    obtain ⟨t, ht, hts⟩ := bind_eq_ok.1 hts
    cases hts
    simpa using (h m rfl).particle t ht

theorem allUnder_particles (h : ∀ m ∈ ns, Prefixes label m) : AllUnder label (particles label ns) := by
  induction ns with
  | nil =>
    intro ts hts
    rw [particles] at hts
    cases hts
    simp
  | cons m ns ih =>
    obtain ⟨hm, hrest⟩ := List.forall_mem_cons.1 h
    intro ts hts
    rw [particles] at hts
    obtain ⟨t, ht, hts⟩ := bind_eq_ok.1 hts
    obtain ⟨rest, hmore, hts⟩ := bind_eq_ok.1 hts
    cases hts
    exact List.forall_mem_cons.2 ⟨hm.particle t ht, ih hrest rest hmore⟩

theorem allUnder_simpleTypeContent (h : ∀ m ∈ own, Prefixes label m) :
    AllUnder label (simpleTypeContent label own) := by
  cases own with
  | none =>
    rintro _ ⟨⟩
    simp
  | some m => exact (h m rfl).simpleTypeContent

theorem allUnder_elementType (h : ∀ m ∈ own, Prefixes label m) : AllUnder label (elementType label own) := by
  cases own with
  | none =>
    intro ts hts
    rw [elementType] at hts
    cases hts
    simp
  | some m => exact (h m rfl).elementType

theorem allUnder_complexDerivation (h : ∀ m ∈ own, Prefixes label m) :
    AllUnder label (complexDerivation label own) := by
  cases own with
  | none =>
    intro ts hts
    rw [complexDerivation.eq_def] at hts
    cases hts
    simp
  | some m => exact (h m rfl).complexDerivation

theorem under_simpleContent {t : Tree} (h : ∀ m ∈ own, Prefixes label m) (ht : simpleContent label own = .ok t) :
    t.Under label := by
  rw [simpleContent_eq] at ht
  obtain ⟨ts, hts, ht⟩ := bind_eq_ok.1 ht
  cases ht
  refine Tree.under_tag (by simp) ?_
  cases own with
  | none =>
    cases hts
    simp
  | some m => exact (h m rfl).simpleDerivation ts hts

theorem allUnder_typeContent (hmodel : ∀ m ∈ any, Prefixes label m) (hown : ∀ m ∈ own, Prefixes label m) :
    AllUnder label (typeContent label any own) := by
  cases any with
  | none => exact allUnder_ownParticle hown
  | some m => exact (hmodel m rfl).typeContent own (allUnder_ownParticle hown)

end Parts

/-! ## One function of the writer after the other -/

section Functions

variable {ts : List Tree} {t : Tree}

theorem forall_mem_own (h : ∀ m ∈ own.toList, Prefixes label m) : ∀ m ∈ own, Prefixes label m :=
  fun m hm => h m (Option.mem_toList.2 hm)

theorem under_simpleType (h : ∀ m ∈ n.children, Prefixes label m) (ht : simpleType label n = .ok t) :
    t.Under label := by
  have hcontent {content : Option Node} (hcontent : ∀ m ∈ content, m ∈ n.children)
      (ht : (do pure (tag label "simpleType" [] (← simpleTypeContent label content))) = Except.ok t) :
      t.Under label := by
    obtain ⟨ts, hts, ht⟩ := bind_eq_ok.1 ht
    cases ht
    exact Tree.under_tag (by simp) (allUnder_simpleTypeContent (fun m hm => h m (hcontent m hm)) ts hts)
  rw [simpleType.eq_def] at ht
  split at ht
  · exact hcontent (fun m hm => Option.mem_toList.2 hm) ht
  · exact hcontent (fun m hm => Option.mem_toList.2 hm) ht
  · exact hcontent (fun m hm => Option.mem_toList.2 hm) ht
  · cases ht

theorem allUnder_simpleVariety (h : ∀ m ∈ n.children, Prefixes label m) :
    AllUnder label (simpleTypeContent label (some n)) := by
  intro ts hts
  rw [simpleTypeContent.eq_def] at hts
  split at hts
  · rename_i base baseType fs heq
    cases heq
    obtain ⟨attributes, hattributes, hts⟩ := bind_eq_ok.1 hts
    obtain ⟨inner, hinner, hts⟩ := bind_eq_ok.1 hts
    obtain ⟨limits, hlimits, hts⟩ := bind_eq_ok.1 hts
    cases hts
    have hinner := allUnder_ownSimpleType (forall_mem_own (List.forall_mem_append.1 h).1) _ hinner
    simpa using Tree.under_tag (bare_typeAttribute (by decide) hattributes)
      (List.forall_mem_append.2 ⟨hinner, allUnder_facets _ hlimits⟩)
  · rename_i item itemType heq
    cases heq
    obtain ⟨attributes, hattributes, hts⟩ := bind_eq_ok.1 hts
    obtain ⟨inner, hinner, hts⟩ := bind_eq_ok.1 hts
    cases hts
    have hinner := allUnder_ownSimpleType (forall_mem_own h) _ hinner
    simpa using Tree.under_tag (bare_typeAttribute (by decide) hattributes) hinner
  · rename_i members memberTypes heq
    cases heq
    obtain ⟨names, -, hts⟩ := bind_eq_ok.1 hts
    obtain ⟨inner, hinner, hts⟩ := bind_eq_ok.1 hts
    cases hts
    have hinner := allUnder_simpleTypes h _ hinner
    have hmembers : IsBare "memberTypes" := by decide
    refine List.forall_mem_singleton.2 (Tree.under_tag ?_ hinner)
    split <;> simp [hmembers]
  · cases hts
    simp

theorem under_attributeDecl (h : ∀ m ∈ n.children, Prefixes label m) (ht : attributeDecl label n = .ok t) :
    t.Under label := by
  have hname : IsBare "name" := by decide
  rw [attributeDecl.eq_def] at ht
  split at ht
  · obtain ⟨typeName, htypeName, ht⟩ := bind_eq_ok.1 ht
    obtain ⟨inner, hinner, ht⟩ := bind_eq_ok.1 ht
    cases ht
    refine Tree.under_tag ?_ (allUnder_ownSimpleType (forall_mem_own h) _ hinner)
    simp only [List.cons_append, List.forall_mem_cons, List.forall_mem_append]
    refine ⟨hname, ⟨⟨bare_typeAttribute (by decide) htypeName, ?_⟩, bare_given (by decide)⟩, bare_given (by decide)⟩
    split
    · simp
    · exact List.forall_mem_append.2 ⟨bare_given (by decide), bare_given (by decide)⟩
  · obtain ⟨typeName, htypeName, ht⟩ := bind_eq_ok.1 ht
    obtain ⟨inner, hinner, ht⟩ := bind_eq_ok.1 ht
    cases ht
    refine Tree.under_tag ?_ (allUnder_ownSimpleType (forall_mem_own h) _ hinner)
    simp only [List.cons_append, List.forall_mem_cons, List.forall_mem_append]
    exact ⟨hname, ⟨bare_typeAttribute (by decide) htypeName, bare_given (by decide)⟩, bare_given (by decide)⟩
  · cases ht

theorem allUnder_derivation (h : ∀ m ∈ n.children, Prefixes label m) :
    AllUnder label (simpleDerivation label (some n)) := by
  obtain ⟨s⟩ := n
  intro ts hts
  rw [simpleDerivation.eq_def] at hts
  split at hts
  · rename_i base members any heq
    cases heq
    obtain ⟨written, hwritten, hts⟩ := bind_eq_ok.1 hts
    obtain ⟨inner, hinner, hts⟩ := bind_eq_ok.1 hts
    cases hts
    have hinner := allUnder_attributes (List.forall_mem_append.1 h).1 _ hinner
    simpa using Tree.under_tag (bare_typeAttribute (by decide) hwritten) hinner
  · rename_i base baseType fs members any heq
    cases heq
    obtain ⟨written, hwritten, hts⟩ := bind_eq_ok.1 hts
    obtain ⟨own, hown, hts⟩ := bind_eq_ok.1 hts
    obtain ⟨limits, hlimits, hts⟩ := bind_eq_ok.1 hts
    obtain ⟨inner, hinner, hts⟩ := bind_eq_ok.1 hts
    cases hts
    obtain ⟨hparts, -⟩ := List.forall_mem_append.1 h
    obtain ⟨hparts, hmembers⟩ := List.forall_mem_append.1 hparts
    have hown := allUnder_ownSimpleType (forall_mem_own (List.forall_mem_append.1 hparts).1) _ hown
    have hinner := allUnder_attributes hmembers _ hinner
    refine List.forall_mem_singleton.2 (Tree.under_tag (bare_typeAttribute (by decide) hwritten) ?_)
    exact List.forall_mem_append.2 ⟨List.forall_mem_append.2 ⟨hown, allUnder_facets _ hlimits⟩, hinner⟩
  · cases hts
    simp

theorem under_elementDecl (h : ∀ m ∈ n.children, Prefixes label m) (ht : elementDecl label n = .ok t) :
    t.Under label := by
  have hname : IsBare "name" := by decide
  rw [elementDecl.eq_def] at ht
  split at ht
  · obtain ⟨typeName, htypeName, ht⟩ := bind_eq_ok.1 ht
    obtain ⟨inner, hinner, ht⟩ := bind_eq_ok.1 ht
    cases ht
    refine Tree.under_tag ?_ (allUnder_elementType (forall_mem_own h) _ hinner)
    simp only [List.cons_append, List.forall_mem_cons, List.forall_mem_append]
    refine ⟨hname, ⟨⟨⟨bare_typeAttribute (by decide) htypeName, ?_⟩, bare_flag (by decide)⟩, bare_given (by decide)⟩,
      bare_given (by decide)⟩
    split
    · exact bare_flag (by decide)
    · exact List.forall_mem_append.2 ⟨bare_given (by decide), bare_occurs _⟩
  · obtain ⟨typeName, -, ht⟩ := bind_eq_ok.1 ht
    cases ht
  · cases ht

theorem allUnder_type (h : ∀ m ∈ n.children, Prefixes label m) : AllUnder label (elementType label (some n)) := by
  obtain ⟨s⟩ := n
  intro ts hts
  cases s with
  | complexType c d members any model own =>
    rw [elementType_complexType] at hts
    obtain ⟨content, hcontent, hts⟩ := bind_eq_ok.1 hts
    obtain ⟨declared, hdeclared, hts⟩ := bind_eq_ok.1 hts
    cases hts
    obtain ⟨hparts, -⟩ := List.forall_mem_append.1 h
    obtain ⟨hparts, hmembers⟩ := List.forall_mem_append.1 hparts
    obtain ⟨hmodel, hown⟩ := List.forall_mem_append.1 hparts
    have hcontent := allUnder_typeContent (forall_mem_own hmodel) (forall_mem_own hown) _ hcontent
    have hdeclared := allUnder_attributes hmembers _ hdeclared
    simpa using Tree.under_tag (bare_flag (by decide)) (List.forall_mem_append.2 ⟨hcontent, hdeclared⟩)
  | simpleType c content =>
    rw [elementType] at hts
    obtain ⟨t, ht, hts⟩ := bind_eq_ok.1 hts
    cases hts
    exact List.forall_mem_singleton.2 (under_simpleType h ht)
  | _ =>
    rw [elementType.eq_def] at hts
    cases hts

theorem allUnder_model (h : ∀ m ∈ n.children, Prefixes label m) (own : Option Node)
    (hown : AllUnder label (ownParticle label own)) : AllUnder label (typeContent label (some n) own) := by
  intro ts hts
  rw [typeContent.eq_def] at hts
  split at hts
  · rename_i content heq
    cases heq
    obtain ⟨t, ht, hts⟩ := bind_eq_ok.1 hts
    cases hts
    have hcontent := under_simpleContent (forall_mem_own h) ht
    exact List.forall_mem_singleton.2 hcontent
  · rename_i mixed content heq
    cases heq
    obtain ⟨inner, hinner, hts⟩ := bind_eq_ok.1 hts
    cases hts
    have hinner := allUnder_complexDerivation (forall_mem_own h) _ hinner
    exact List.forall_mem_singleton.2 (Tree.under_tag (bare_given (by decide)) hinner)
  · exact hown ts hts

theorem allUnder_content (h : ∀ m ∈ n.children, Prefixes label m) :
    AllUnder label (complexDerivation label (some n)) := by
  intro ts hts
  rw [complexDerivation.eq_def] at hts
  split at hts
  · rename_i how base own members any heq
    cases heq
    obtain ⟨written, hwritten, hts⟩ := bind_eq_ok.1 hts
    obtain ⟨content, hcontent, hts⟩ := bind_eq_ok.1 hts
    obtain ⟨declared, hdeclared, hts⟩ := bind_eq_ok.1 hts
    cases hts
    obtain ⟨hparts, -⟩ := List.forall_mem_append.1 h
    obtain ⟨hown, hmembers⟩ := List.forall_mem_append.1 hparts
    have hcontent := allUnder_ownParticle (forall_mem_own hown) _ hcontent
    have hdeclared := allUnder_attributes hmembers _ hdeclared
    exact List.forall_mem_singleton.2 (Tree.under_tag (bare_typeAttribute (by decide) hwritten)
      (List.forall_mem_append.2 ⟨hcontent, hdeclared⟩))
  · cases hts
    simp

theorem under_particle (h : ∀ m ∈ n.children, Prefixes label m) (ht : particle label n = .ok t) : t.Under label := by
  rw [particle.eq_def] at ht
  split at ht
  · exact under_elementDecl h ht
  · split at ht
    · cases ht
    · obtain ⟨inner, hinner, ht⟩ := bind_eq_ok.1 ht
      cases ht
      exact Tree.under_tag (bare_occurs _) (allUnder_particles h _ hinner)
  · cases ht
    exact Tree.under_tag (List.forall_mem_append.2 ⟨bare_wildcard _, bare_occurs _⟩) (by simp)
  · split at ht <;> cases ht

end Functions

theorem prefixes (label : String) (n : Node) : Prefixes label n := by
  induction n using Node.induction with
  | step n ih =>
    exact ⟨fun _ => under_simpleType ih, allUnder_simpleVariety ih, fun _ => under_attributeDecl ih,
      allUnder_derivation ih, fun _ => under_elementDecl ih, allUnder_type ih, allUnder_model ih, allUnder_content ih,
      fun _ => under_particle ih⟩

end PayloadSchema.Schema.Writer

/-! ## Documents of schemas -/

namespace PayloadSchema.Schema

open Xml (Tree IsBare isUnclosed)
open Writer (Written)

variable {label : String} {s : Schema} {t : Tree} {settings : Settings}

theorem toTree_eq_tag (h : s.toTree label = .ok t) :
    ∃ attributes children, t = Writer.tag label "schema" (("xmlns:" ++ label, xsdSpace) :: attributes) children ∧
      t.Under label := by
  rw [toTree] at h
  obtain ⟨elements, helements, h⟩ := Reader.bind_eq_ok.1 h
  obtain ⟨attributes, hattributes, h⟩ := Reader.bind_eq_ok.1 h
  have helements := Writer.allUnder_mapM (fun n _ => (Writer.prefixes label n).elementDecl) _ helements
  have hattributes := Writer.allUnder_mapM (fun n _ => (Writer.prefixes label n).attributeDecl) _ hattributes
  dsimp only at h
  split at h
  · refine ⟨_, _, (Reader.pure_eq_ok.1 h).symm, ?_⟩
    rw [← Reader.pure_eq_ok.1 h]
    refine Xml.Tree.under_tag ?_ (List.forall_mem_append.2 ⟨helements, hattributes⟩)
    have hkeys : IsBare "targetNamespace" ∧ IsBare "elementFormDefault" ∧ IsBare "attributeFormDefault" := by decide
    have hdeclaration : IsBare ("xmlns:" ++ label) := by simp [IsBare]
    split <;> simp [hkeys, hdeclaration]
  · cases h

theorem write_of_bare (hlabel : IsBare settings.schemaPrefix) (h : s.toTree settings.schemaPrefix = .ok t) :
    s.write settings = .ok (t.print (if settings.prettyPrint then some 0 else none)) := by
  obtain ⟨-, -, -, hunder⟩ := toTree_eq_tag h
  rw [write, h]
  change t.toText settings.prettyPrint = _
  rw [Tree.toText, hunder.labelled_of_bare hlabel]
  rfl

/-- Where the prefix opens a brace that it leaves open, nothing is written. -/
theorem write_of_unclosed (hlabel : isUnclosed settings.schemaPrefix) (h : s.toTree settings.schemaPrefix = .ok t) :
    s.write settings = .error (.badValue .unclosedName) := by
  obtain ⟨attributes, children, rfl, -⟩ := toTree_eq_tag h
  rw [write, h]
  change Tree.toText settings.prettyPrint _ = _
  rw [Tree.toText, Xml.Tree.labelled_tag_of_unclosed hlabel (by decide)]
  rfl

theorem write_cases (h : Written (s.toTree settings.schemaPrefix)) :
    isUnclosed settings.schemaPrefix = false ∧ Written (s.write settings) ∨
      isUnclosed settings.schemaPrefix ∧ s.write settings = .error (.badValue .unclosedName) := by
  obtain ⟨t, ht⟩ := h
  cases hlabel : isUnclosed settings.schemaPrefix with
  | true => exact .inr ⟨rfl, write_of_unclosed hlabel ht⟩
  | false =>
    obtain ⟨-, -, -, hunder⟩ := toTree_eq_tag ht
    obtain ⟨t', ht'⟩ := hunder.exists_labelled hlabel
    refine .inl ⟨rfl, t'.print (if settings.prettyPrint then some 0 else none), ?_⟩
    rw [write, ht]
    change t.toText settings.prettyPrint = _
    rw [Tree.toText, ht']
    rfl

theorem written_iff (h : Written (s.toTree settings.schemaPrefix)) :
    Written (s.write settings) ↔ isUnclosed settings.schemaPrefix = false := by
  rcases write_cases h with ⟨hlabel, hwritten⟩ | ⟨hlabel, hwrite⟩
  · exact iff_of_true hwritten hlabel
  · rw [hwrite, hlabel]
    simp [Written]

end PayloadSchema.Schema
