import PayloadSchema.Proofs.Schema.References
import PayloadSchema.Proofs.Text.WrittenTexts
import PayloadSchema.Schema.Reader

/-!
# Legible constructs

What a construct says is legible when it can be written so that it is read again: its texts have only
characters that are allowed, names do not end in a blank, the names of the members of a union hold no blank
at all, bounds are not too long, and a facet has one of the known names.
-/

namespace PayloadSchema

def Carried (ok : Char → Prop) (s : String) : Prop := ∀ c ∈ s.toList, ok c

def AllowsPrintable (ok : Char → Prop) : Prop := ∀ c : Char, 0x20 ≤ c.toNat → c.toNat < 0x7F → ok c

def isPrintableText (s : String) : Bool := s.toList.all fun c => 0x20 ≤ c.toNat && c.toNat < 0x7F

theorem AllowsPrintable.carried {ok : Char → Prop} (h : AllowsPrintable ok) {s : String} (hs : isPrintableText s) :
    Carried ok s := by
  intro c hc
  have hprintable := List.all_eq_true.1 hs c hc
  rw [Bool.and_eq_true, decide_eq_true_eq, decide_eq_true_eq] at hprintable
  exact h c hprintable.1 hprintable.2

theorem Carried.append {ok : Char → Prop} {s t : String} (hs : Carried ok s) (ht : Carried ok t) :
    Carried ok (s ++ t) := by
  intro c hc
  rw [String.toList_append, List.mem_append] at hc
  exact hc.elim (hs c) (ht c)

theorem Carried.intercalate {ok : Char → Prop} {separator : String} {names : List String}
    (hseparator : Carried ok separator) (h : ∀ s ∈ names, Carried ok s) :
    Carried ok (separator.intercalate names) := by
  induction names with
  | nil => simp [Carried]
  | cons name names ih =>
    obtain ⟨hname, hnames⟩ := List.forall_mem_cons.1 h
    cases names with
    | nil => simpa using hname
    | cons next names =>
      rw [String.intercalate_cons_cons]
      exact (hname.append hseparator).append (ih hnames)

end PayloadSchema

namespace PayloadSchema.Schema

/-- The occurrence bounds of a construct that has any. -/
def Shape.occurs? {α : Type} : Shape α → Option Occurs
  | wildcard _ o | modelGroup _ o _ | groupRef _ o | elementRef _ o => some o
  | element _ d _ => some d.occurs
  | _ => none

def AttributeUse.texts (u : AttributeUse) : List String :=
  u.use.toList ++ u.default.toList ++ u.fixed.toList

def ElementDecl.texts (d : ElementDecl) : List String :=
  d.default.toList ++ d.fixed.toList ++ d.form.toList

def Wildcard.texts (w : Wildcard) : List String :=
  w.space.toList ++ w.processing.toList

/-- The texts of a construct, without the names that it refers to and without the name of a type. -/
def Shape.texts {α : Type} : Shape α → List String
  | facet f => [f.value]
  | anyAttribute w | wildcard w _ => w.texts
  | .attribute c d _ => c.name.toList ++ d.usage.texts ++ d.form.toList
  | attributeRef _ u => u.texts
  | element c d _ => c.name.toList ++ d.texts
  | _ => []

/-- The names of the members of a union. -/
def Shape.members {α : Type} : Shape α → List QName
  | simpleUnion members _ => members
  | _ => []

def Occurs.Short (o : Occurs) : Prop :=
  ∀ n, o.min = some n ∨ o.max = some n → n.natAbs < 10 ^ Text.maxDigits

def Spellable (ok : Char → Prop) (q : QName) : Prop :=
  Carried ok q.name ∧ Text.EndsClean q.name.toList

structure Shape.Legible {α : Type} (ok : Char → Prop) (s : Shape α) : Prop where
  texts : ∀ t ∈ s.texts, Carried ok t
  names : ∀ q ∈ s.typeNames, Spellable ok q
  members : ∀ q ∈ s.members, Text.NoBlank q.name.toList
  bounds : ∀ o ∈ s.occurs?, o.Short
  facet : ∀ f ∈ s.facet?, f.kind ∈ Reader.facetNames

section Legible

variable {α β : Type} {ok : Char → Prop} {s : Shape α}

theorem Occurs.short_once : Occurs.once.Short := by
  intro n hn
  have hone : n = 1 := by
    rcases hn with hn | hn <;> exact (Option.some.inj hn).symm
  subst hone
  exact Nat.one_lt_pow (by decide) (by decide)

theorem Shape.legible_silent (htexts : s.texts = []) (hnames : s.typeNames = []) (hmembers : s.members = [])
    (hbounds : s.occurs? = none) (hfacet : s.facet? = none) : s.Legible ok := by
  constructor <;> simp [htexts, hnames, hmembers, hbounds, hfacet]

/-- A construct that says no more than a legible one is legible, whatever is inside of it. -/
theorem Shape.Legible.congr {s : Shape α} {s' : Shape β} (h : s.Legible ok) (htexts : ∀ t ∈ s'.texts, t ∈ s.texts)
    (hnames : ∀ q ∈ s'.typeNames, q ∈ s.typeNames) (hmembers : s'.members = s.members)
    (hbounds : s'.occurs? = s.occurs?) (hfacet : s'.facet? = s.facet?) : s'.Legible ok where
  texts t ht := h.texts t (htexts t ht)
  names q hq := h.names q (hnames q hq)
  members := by rw [hmembers]; exact h.members
  bounds := by rw [hbounds]; exact h.bounds
  facet := by rw [hfacet]; exact h.facet

theorem Shape.legible_map {f : α → β} : (s.map f).Legible ok ↔ s.Legible ok := by
  have htexts : (s.map f).texts = s.texts := by
    cases s <;> rfl
  have hnames : (s.map f).typeNames = s.typeNames := by
    cases s <;> rfl
  have hmembers : (s.map f).members = s.members := by
    cases s <;> rfl
  have hbounds : (s.map f).occurs? = s.occurs? := by
    cases s <;> rfl
  have hfacet : (s.map f).facet? = s.facet? := by
    cases s <;> rfl
  constructor
  · exact fun h => h.congr (by simp [htexts]) (by simp [hnames]) hmembers.symm hbounds.symm hfacet.symm
  · exact fun h => h.congr (by simp [htexts]) (by simp [hnames]) hmembers hbounds hfacet

end Legible

abbrev Node.Legible (ok : Char → Prop) (n : Node) : Prop := n.Built (Shape.Legible ok)

/-- Trees that are built of constructs with a property are built of constructs with a weaker one. -/
theorem Node.Built.mono {good better : Shape Node → Prop} (h : ∀ s, better s → good s) {n : Node}
    (hn : n.Built better) : n.Built good := by
  induction hn with
  | intro n here fits _ ih => exact .intro n (h _ here) fits ih

end PayloadSchema.Schema

namespace PayloadSchema.Xml.Element

open Schema

/-! ## Elements -/

/-- An element in which every element has a property. -/
def Everywhere (has : Element → Prop) (e : Element) : Prop :=
  ∀ x ∈ e.preorder, has x

/-- An element all of whose values are texts of characters that are allowed. -/
def Carries (ok : Char → Prop) (e : Element) : Prop :=
  ∀ x ∈ e.preorder, ∀ a ∈ x.attributes, Carried ok a.2

section Everywhere

variable {has : Element → Prop} {e x : Element} {es : List Element}

theorem mem_preorderAll (hx : x ∈ es) {y : Element} (hy : y ∈ x.preorder) : y ∈ preorderAll es := by
  induction es with
  | nil => cases hx
  | cons e es ih =>
    rw [preorderAll, List.mem_append]
    rcases List.mem_cons.1 hx with rfl | hx
    · exact .inl hy
    · exact .inr (ih hx)

theorem mem_preorder_self (e : Element) : e ∈ e.preorder := by
  obtain ⟨tag, attributes, text, scope, inner⟩ := e
  rw [preorder]
  exact List.mem_cons_self

theorem mem_preorder_of_child (hx : x ∈ e.children) {y : Element} (hy : y ∈ x.preorder) : y ∈ e.preorder := by
  obtain ⟨tag, attributes, text, scope, inner⟩ := e
  rw [preorder]
  exact List.mem_cons_of_mem _ (mem_preorderAll hx hy)

theorem Everywhere.here (h : e.Everywhere has) : has e :=
  h e e.mem_preorder_self

theorem Everywhere.child (h : e.Everywhere has) (hx : x ∈ e.children) : x.Everywhere has :=
  fun y hy => h y (mem_preorder_of_child hx hy)

end Everywhere

end PayloadSchema.Xml.Element
