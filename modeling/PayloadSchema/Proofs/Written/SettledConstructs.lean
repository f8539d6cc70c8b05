import PayloadSchema.Proofs.Extraction.FinishedTrees
import PayloadSchema.Proofs.Schema.LegibleConstructs

/-!
# Settled constructs

A construct is settled when writing loses nothing of it: it is plain and legible, has a lower bound wherever it has
bounds, and says nothing that its place in a document has no attribute for.  Apart from what it refers to this holds
of every construct of a copy, from the start of the copy on, and edits keep it so.
-/

namespace PayloadSchema.Schema

variable {α β : Type} {ok : Char → Prop}

/-- Whether a construct says only what a document can say in its place.  Bounds and forms are left out at the top, and
abstractness below it, where all attributes and complex types stand. -/
def Shape.Explicit : Shape α → Prop
  | .element c d _ => d.substitutionGroup = none ∧
      if c.topLevel then d.occurs = .once ∧ d.form = none else d.abstract = false
  | .attribute c _ _ => c.topLevel = false
  | .complexType _ d _ _ _ _ => d.abstract = false
  | _ => True

structure Shape.Definite (ok : Char → Prop) (s : Shape α) : Prop extends s.Legible ok where
  bounded : ∀ o ∈ s.occurs?, o.min.isSome

/-- A construct of which writing loses nothing but perhaps what it refers to. -/
structure Shape.Lasting (ok : Char → Prop) (s : Shape α) : Prop extends s.Definite ok where
  explicit : s.Explicit

/-- A construct of which writing loses nothing. -/
structure Shape.Settled (ok : Char → Prop) (s : Shape α) : Prop extends s.Plain, s.Lasting ok

theorem Shape.Settled.typeName {s : Shape α} (h : s.Settled ok) {q : Option QName} (hq : ∀ r ∈ q, r ∈ s.typeNames) :
    ∀ r ∈ q, r.isBuiltin ∧ Spellable ok r :=
  fun r hr => ⟨h.builtin r (hq r hr), h.names r (hq r hr)⟩

theorem Shape.lasting_map {f : α → β} {s : Shape α} : (s.map f).Lasting ok ↔ s.Lasting ok := by
  have hoccurs : (s.map f).occurs? = s.occurs? := by
    cases s <;> rfl
  have hexplicit : (s.map f).Explicit ↔ s.Explicit := by
    cases s <;> exact Iff.rfl
  constructor
  · exact fun h => ⟨⟨Shape.legible_map.1 h.toLegible, hoccurs ▸ h.bounded⟩, hexplicit.1 h.explicit⟩
  · exact fun h => ⟨⟨Shape.legible_map.2 h.toLegible, hoccurs ▸ h.bounded⟩, hexplicit.2 h.explicit⟩

/-- A construct that says no more than a lasting one is lasting, whatever is inside of it. -/
theorem Shape.Lasting.congr {s : Shape α} {s' : Shape β} (h : s.Lasting ok) (htexts : ∀ t ∈ s'.texts, t ∈ s.texts)
    (hnames : ∀ q ∈ s'.typeNames, q ∈ s.typeNames) (hmembers : s'.members = s.members)
    (hbounds : s'.occurs? = s.occurs?) (hfacet : s'.facet? = s.facet?) (hexplicit : s.Explicit → s'.Explicit) :
    s'.Lasting ok :=
  ⟨⟨h.toLegible.congr htexts hnames hmembers hbounds hfacet, hbounds ▸ h.bounded⟩, hexplicit h.explicit⟩

def Shape.title? (s : Shape α) : Option (Option String) :=
  (s.component?.filter (·.topLevel)).map (·.name)

inductive Node.Throughout (good : Shape Node → Prop) : Node → Prop where
  | intro (n : Node) (here : good n.shape) (inside : ∀ m ∈ n.children, Throughout good m) : Throughout good n

section Throughout

variable {good better : Shape Node → Prop} {n : Node} {s : Shape Node}

theorem throughout_iff : Node.Throughout good ⟨s⟩ ↔ good s ∧ ∀ m ∈ s.children, m.Throughout good := by
  constructor
  · rintro ⟨_, here, inside⟩
    exact ⟨here, inside⟩
  · rintro ⟨here, inside⟩
    exact .intro _ here inside

theorem Node.Built.throughout {both : Shape Node → Prop} (hboth : ∀ s, better s → good s → both s)
    (hn : n.Built better) (h : n.Throughout good) : n.Built both := by
  induction hn with
  | intro n here fits _ ih =>
    obtain ⟨_, hgood, inside⟩ := h
    refine .intro n (hboth _ here hgood) fits fun part hpart => ?_
    exact ih part hpart (inside part.2 (Shape.mem_children_of_mem_parts hpart))

end Throughout

end PayloadSchema.Schema
