import Mathlib.Order.WellFounded
import PayloadSchema.Proofs.Extraction.FinishedTrees
import PayloadSchema.Proofs.Inlining.Inliner
import PayloadSchema.Proofs.Rules.LawfulRules

/-!
# The inliner always comes to an end

Every step of the inliner goes down: into a component that is not on the path yet, and there are only so
many of them, or below the node that is copied.  What it comes to is a finished tree or a fault.
-/

namespace PayloadSchema.Extraction

open Schema

/-! ## Keys that are not on a path -/

def tableKeys (space : String) (kind : ComponentKind) (t : Components Node) : List ComponentKey :=
  t.filterMap fun e => e.1.map fun name => ⟨kind, ⟨space, name⟩⟩

def sourceKeys (s : Schema) : List ComponentKey :=
  [ComponentKind.element, .attribute, .type, .group].flatMap fun kind =>
    tableKeys s.space kind (s.table kind.table)

def ahead (s : Schema) (path : List ComponentKey) : Nat :=
  ((sourceKeys s).filter (· ∉ path)).length

section Ahead

variable {s : Schema} {k : ComponentKey} {path inside : List ComponentKey} {key : Option ComponentKey}
  {n m t : Node}

theorem mem_sourceKeys (h : s.find? k.component.table (some k.component.name) = some t) :
    k ∈ sourceKeys s := by
  obtain ⟨kind, q⟩ := k
  obtain ⟨hspace, hentry⟩ := SchemaOf.mem_of_find? h
  have hkey : (⟨kind, q⟩ : ComponentKey) ∈ tableKeys s.space kind (s.table kind.table) := by
    refine List.mem_filterMap.2 ⟨_, hentry, ?_⟩
    simp [ComponentKey.component, ← hspace]
  refine List.mem_flatMap.2 ⟨kind, ?_, hkey⟩
  cases kind <;> simp

theorem ahead_lt (hk : k ∈ sourceKeys s) (hnew : k ∉ path) : ahead s (path ++ [k]) < ahead s path := by
  have hfilter : (sourceKeys s).filter (· ∉ path ++ [k]) =
      ((sourceKeys s).filter (· ∉ path)).filter (· ≠ k) := by
    rw [List.filter_filter]
    refine List.filter_congr fun x _ => ?_
    simp [and_comm]
  rw [ahead, ahead, hfilter]
  exact List.length_filter_lt_length_iff_exists.2 ⟨k, by simp [hk, hnew], by simp⟩

theorem enter_eq_ok (h : enter path key = .ok inside) :
    inside = path ++ key.toList ∧ ∀ k, key = some k → k ∉ path := by
  cases key with
  | none =>
    cases h
    simp
  | some k =>
    rw [enter] at h
    split at h
    · cases h
    · rename_i hk
      cases h
      exact ⟨rfl, by rintro _ ⟨⟩; exact hk⟩

/-- How far a copy can still go down. -/
noncomputable def depth (s : Schema) (path : List ComponentKey) (n : Node) : Nat ×ₗ (Nat ×ₗ Nat) :=
  toLex (ahead s path, n.rank)

theorem depth_lt (h : Descends s n key m) (henter : enter path key = .ok inside) :
    depth s inside m < depth s path n := by
  obtain ⟨rfl, hnew⟩ := enter_eq_ok henter
  rw [depth, depth, Prod.Lex.toLex_lt_toLex]
  cases key with
  | none => exact .inr ⟨by simp, h.lower rfl⟩
  | some k =>
    obtain ⟨⟨t, ht⟩, -⟩ := h.keyed k rfl
    exact .inl (ahead_lt (mem_sourceKeys ht) (hnew k rfl))

end Ahead

/-! ## Results -/

namespace Copying

variable {α β : Type} {m : Copying α} {next : α → Copying β} {p : α → Prop} {q : β → Prop}

/-- A copy that comes to an end, and whose result has a property if it has one. -/
def Yields (m : Copying α) (p : α → Prop) : Prop :=
  m.Ends ∧ ∀ a, m.Gives a → p a

theorem yields_pure {a : α} (h : p a) : Yields (pure a) p :=
  ⟨by simp [Ends], by simpa using h⟩

theorem yields_throw {f : Fault} : Yields (throw f : Copying α) p :=
  ⟨by simp [Ends], by simp⟩

theorem yields_lift {e : Except Fault α} (h : ∀ a, e = .ok a → p a) : Yields (liftM e) p := by
  refine ⟨?_, fun a ha => h a (gives_lift.1 ha)⟩
  change (some e : Option (Except Fault α)) ≠ none
  simp

theorem Yields.bind (hm : Yields m p) (hnext : ∀ a, p a → Yields (next a) q) :
    Yields (m >>= next) q := by
  obtain ⟨hends, hgives⟩ := hm
  constructor
  · unfold Ends at *
    rw [ExceptT.run_bind]
    match hrun : m.run with
    | none => exact absurd hrun hends
    | some (.error f) => simp
    | some (.ok a) => exact (hnext a (hgives a hrun)).1
  · intro b hb
    obtain ⟨a, ha, hb⟩ := gives_bind.1 hb
    exact (hnext a (hgives a ha)).2 b hb

end Copying

/-! ## The inliner -/

section Inliner

open Copying

variable {c : Context} {path : List ComponentKey} {n : Node} {target kind : Kind} {shape : Shape Node}

/-- A finished construct of a kind, at the top of its schema or not. -/
structure Complete (target : Kind) (topLevel : Bool) (shape : Shape Node) : Prop where
  kind : shape.kind = target
  topLevel : shape.isTopLevel = topLevel
  finished : Node.Finished ⟨shape⟩

def Inlines (c : Context) (path : List ComponentKey) (n : Node) : Prop :=
  ∀ target topLevel shape, n.shape.kind.copy? = some target → Complete target topLevel shape →
    (inlineNode c path n shape).Yields (Complete target topLevel)

variable {topLevel : Bool}

theorem complete_outline {child : Child} (hproper : child.origin.Proper)
    (hcopy : child.origin.shape.kind.copy? = some kind) :
    ∃ s, child.outline = .ok s ∧ Complete kind false s := by
  obtain ⟨s, hs, hkind, htop, hfinished⟩ := finished_outline hproper hcopy
  rw [Child.outline, hs]
  cases child.bounds with
  | none => exact ⟨s, rfl, hkind, htop, hfinished⟩
  | some o =>
    exact ⟨s.withOccurs o, rfl, by simpa using hkind, by simpa using htop,
      finished_withOccurs hfinished⟩

private theorem yields_child {child : Child} (hproper : child.origin.Proper)
    (hcopy : child.origin.shape.kind.copy? = some kind)
    (ih : ∀ inside, enter path (child.key? c.source.space) = .ok inside →
      Inlines c inside child.origin) :
    (inlineChild c path child).Yields fun m => Complete kind false m.shape := by
  obtain ⟨s, hs, hcomplete⟩ := complete_outline hproper hcopy
  rw [inlineChild, hs]
  refine (yields_lift (p := fun a => a = s) fun a ha => (Except.ok.inj ha).symm).bind fun a ha => ?_
  refine (yields_lift (p := fun inside => enter path (child.key? c.source.space) = .ok inside)
    fun _ h => h).bind fun inside henter => ?_
  rw [ha]
  exact (ih inside henter kind false s hcopy hcomplete).bind fun r hr => yields_pure hr

private theorem fits_of_complete {m : Node} {role : Role} (hadmits : role.admits kind)
    (h : Complete kind false m.shape) : Fits Shape.Plain role m := by
  obtain ⟨s⟩ := m
  exact ⟨by rwa [h.kind], h.topLevel, h.finished⟩

/-- Lawful edits lead from a finished construct to a finished one, and what follows goes on from there. -/
private theorem yields_edits {es last : List Edit}
    (ih : ∀ key inside m, Descends c.source n key m → enter path key = .ok inside → Inlines c inside m)
    (hes : AllLawful c.source target n es)
    (hlast : ∀ shape, Complete target topLevel shape →
      (inlineEdits c path last shape).Yields (Complete target topLevel))
    (hshape : Complete target topLevel shape) :
    (inlineEdits c path (es ++ last) shape).Yields (Complete target topLevel) := by
  induction es generalizing shape with
  | nil => exact hlast shape hshape
  | cons e es ihes =>
    have hchild {child : Child} {kind : Kind} (h : child.Apt c.source n kind) :
        (inlineChild c path child).Yields fun m => Complete kind false m.shape :=
      yields_child h.descends.proper h.copy fun inside henter => ih _ inside _ h.descends henter
    have hrest (shape : Shape Node) (h : Complete target topLevel shape) :
        (inlineEdits c path (es ++ last) shape).Yields (Complete target topLevel) :=
      ihes (fun e' he' => hes e' (List.mem_cons_of_mem e he')) h
    have he := hes e List.mem_cons_self
    rw [List.cons_append]
    cases he with
    | attach hslot hadmits hapt =>
      rw [inlineEdits]
      refine (hchild hapt).bind fun m hm => hrest _ ⟨?_, ?_, ?_⟩
      · rw [Slot.kind_fill, hshape.kind]
      · rw [isTopLevel_fill, hshape.topLevel]
      · exact finished_fill hshape.finished (by rw [hshape.kind, hslot]) (fits_of_complete hadmits hm)
    | attachSequence hslot ha hb hfirst hsecond =>
      rw [inlineEdits]
      refine (hchild hfirst).bind fun a hca => (hchild hsecond).bind fun b hcb =>
        hrest _ ⟨?_, ?_, ?_⟩
      · rw [Slot.kind_fill, hshape.kind]
      · rw [isTopLevel_fill, hshape.topLevel]
      · refine finished_fill hshape.finished (by rw [hshape.kind, hslot]) ⟨rfl, rfl, built_iff.2 ⟨?_, ?_⟩⟩
        · exact ⟨rfl, by simp [Shape.kind, Kind.isType], by simp [Shape.typeNames]⟩
        · simpa [Shape.parts] using ⟨fits_of_complete ha hca, fits_of_complete hb hcb⟩
    | discard hapt =>
      rw [inlineEdits]
      exact (hchild hapt).bind fun _ _ => hrest _ hshape
    | change h =>
      rw [inlineEdits_change]
      refine hrest _ ⟨?_, ?_, finished_change hshape.finished h.builtin⟩
      · rw [Change.kind_apply, hshape.kind]
      · rw [isTopLevel_change, hshape.topLevel]
    | wildcard =>
      rw [inlineEdits_wildcard]
      refine hrest _ ⟨?_, ?_, finished_wildcard hshape.finished⟩
      · rw [Shape.kind_withAny, hshape.kind]
      · rw [isTopLevel_withAny, hshape.topLevel]
    | warn =>
      rw [inlineEdits_warn]
      exact hrest _ hshape
    | stop h =>
      rw [inlineEdits_stop]
      exact yields_throw

/-- The inliner makes a finished construct of every well-formed node that can be copied, or stops. -/
theorem inlines (hs : c.source.Proper) (path : List ComponentKey) (hn : n.Proper) :
    Inlines c path n := by
  induction hd : depth c.source path n using WellFoundedLT.induction generalizing path n with
  | ind d ih =>
    subst hd
    have hbelow : ∀ key inside m, Descends c.source n key m → enter path key = .ok inside →
        Inlines c inside m :=
      fun key inside m hdesc henter => ih _ (depth_lt hdesc henter) inside hdesc.proper rfl
    intro target topLevel shape hcopy hshape
    obtain ⟨front, last, hedits, hfront, hlast⟩ := lawful_edits hs hn hcopy
    rw [inlineNode, hshape.kind, hedits]
    refine yields_edits hbelow hfront (fun shape hshape => ?_) hshape
    rcases hlast with rfl | ⟨m, rfl, hcopy', hdesc⟩
    · rw [inlineEdits_nil]
      exact yields_pure hshape
    · rw [inlineEdits]
      refine (yields_lift (p := fun inside => enter path (m.shape.key? c.source.space) = .ok inside)
        fun _ h => h).bind fun inside henter => ?_
      refine (hbelow _ inside m hdesc henter target topLevel shape hcopy' hshape).bind fun r hr => ?_
      rw [inlineEdits_nil]
      exact yields_pure hr

/-! ## Seeds -/

/-- Whether a seed is an element or a type of a schema, at the top of it or inside. -/
def Seed.IsFrom (s : Schema) : Seed → Prop
  | element n _ => Contains s n ∧ n.shape.kind = .element
  | type _ n _ => Contains s n ∧ n.shape.kind.isType

theorem Seed.IsFrom.proper {s : Schema} {seed : Seed} (hs : s.Proper) (h : seed.IsFrom s) : seed.origin.Proper := by
  cases seed <;> exact h.1.built fun table e he => (hs.entry table e he).proper

theorem Seed.IsGlobal.entry {s : Schema} {seed : Seed} (hs : s.Proper) (h : seed.IsGlobal s) :
    match seed with
    | .element n _ => ∃ name, ProperEntry .elements name n
    | .type _ n _ => ∃ name, ProperEntry .types name n := by
  cases seed with
  | element n _ =>
    obtain ⟨⟨name, n⟩, he, rfl⟩ := List.mem_map.1 h
    exact ⟨name, hs.entry .elements _ he⟩
  | type _ n _ =>
    obtain ⟨⟨name, n⟩, he, rfl⟩ := List.mem_map.1 h
    exact ⟨name, hs.entry .types _ he⟩

theorem complete_blank (c : Context) (seed : Seed) :
    Complete .element seed.topLevel (seed.blank c) := by
  have hplain {name : Option String} {topLevel : Bool} {form : Option String} :
      Node.Finished ⟨blankElement name topLevel form⟩ :=
    built_iff.2 ⟨⟨rfl, by simp [blankElement, Shape.kind, Kind.isType],
      by simp [blankElement, Shape.typeNames]⟩, by simp [blankElement, Shape.parts]⟩
  cases seed <;> exact ⟨rfl, rfl, hplain⟩

theorem copy?_of_isType {k : Kind} (h : k.isType) : k.copy? = some k ∧ Role.elementType.admits k := by
  revert h
  cases k <;> decide

theorem Seed.IsGlobal.isFrom {s : Schema} {seed : Seed} (hs : s.Proper) (h : seed.IsGlobal s) : seed.IsFrom s := by
  cases seed with
  | element n _ =>
    obtain ⟨e, he, rfl⟩ := List.mem_map.1 h
    obtain ⟨own, d, type, hn⟩ := (hs.entry .elements e he).element
    exact ⟨.entry .elements he, by rw [hn]; rfl⟩
  | type _ n _ =>
    obtain ⟨e, he, rfl⟩ := List.mem_map.1 h
    refine ⟨.entry .types he, ?_⟩
    have hadmits := (hs.entry .types e he).admits
    revert hadmits
    cases e.2.shape.kind <;> decide

theorem Seed.yields {seed : Seed} (hs : c.source.Proper) (hseed : seed.IsFrom c.source) :
    (seed.inline c).Yields fun n => Complete .element seed.topLevel n.shape := by
  have hproper := hseed.proper hs
  have hblank := complete_blank c seed
  rw [Seed.inline]
  refine Yields.bind (p := Complete .element seed.topLevel) ?_ fun r hr => yields_pure hr
  cases seed with
  | element n topLevel =>
    have hinlines := fun inside => inlines hs inside hproper
    obtain ⟨s⟩ := n
    obtain ⟨own, d, type, rfl⟩ := Shape.exists_of_kind_element hseed.2
    have hfollow : Seed.edits (.element ⟨.element own d type⟩ topLevel) =
        [.change (.element d), .follow ⟨.element own d type⟩] := rfl
    rw [hfollow, inlineEdits_change, inlineEdits]
    refine (yields_lift (p := fun _ => True) fun _ _ => trivial).bind fun inside _ => ?_
    refine (hinlines inside .element topLevel _ rfl ⟨?_, ?_, ?_⟩).bind fun r hr => ?_
    · rw [Change.kind_apply, hblank.kind]
    · rw [isTopLevel_change]
      exact hblank.topLevel
    · exact finished_change hblank.finished trivial
    · rw [inlineEdits_nil]
      exact yields_pure hr
  | type name n topLevel =>
    obtain ⟨hcopy, hadmits⟩ := copy?_of_isType hseed.2
    have hchild : (inlineChild c [] (.plain n)).Yields fun m => Complete n.shape.kind false m.shape :=
      yields_child hproper hcopy fun inside _ => inlines hs inside hproper
    rw [Seed.edits, inlineEdits]
    refine hchild.bind fun m hm => ?_
    rw [inlineEdits_nil]
    refine yields_pure ⟨?_, ?_, ?_⟩
    · rw [Slot.kind_fill, hblank.kind]
    · rw [isTopLevel_fill, hblank.topLevel]
    · exact finished_fill hblank.finished (by rw [hblank.kind]; rfl) (fits_of_complete hadmits hm)

end Inliner

end PayloadSchema.Extraction
