import PayloadSchema.Proofs.Extraction.Circles
import PayloadSchema.Proofs.Extraction.Grafting

/-!
# No attribute is invented

Every attribute that an extraction makes is named like an attribute of the source, or not at all.
-/

namespace PayloadSchema.Extraction

open Schema

def Declares (s : Schema) (x : String) : Prop :=
  ∃ n, Contains s n ∧ n.shape.attributeName? = some x

def Store.Borrows (s : Store) (source : Schema) : Prop :=
  ∀ p x, (s.get p).attributeName? = some x → Declares source x

section Edits

variable {α : Type} {s : Shape α} {source : Schema} {x : String}

theorem attributeName?_fill (a : α) (slot : Slot) :
    (slot.fill a s).attributeName? = s.attributeName? := by
  cases slot <;> cases s <;> rfl

theorem attributeName?_withAny (a : Option α) : (s.withAny a).attributeName? = s.attributeName? := by
  cases s <;> rfl

/-- A change that a rule asks for gives an attribute no name but one of an attribute of the source. -/
theorem attributeName?_change {change : Change} (hchange : change.Lawful source s.kind)
    (h : (change.apply s).attributeName? = some x) :
    s.attributeName? = some x ∨ Declares source x := by
  cases change with
  | name own =>
    cases s with
    | «attribute» c d t =>
      obtain ⟨n, hn, hkind, rfl⟩ := hchange
      refine .inr ⟨n, hn, ?_⟩
      obtain ⟨m⟩ := n
      cases m with
      | «attribute» => exact h
      | modelGroup order _ _ => cases order <;> cases hkind
      | complexDerivation how _ _ _ _ => cases how <;> cases hkind
      | _ => cases hkind
    | _ => exact .inl h
  | _ => cases s <;> exact .inl h

end Edits

section Steps

variable {c : Context} {path : List ComponentKey} {source : Schema} {w w' : Workspace} {p q : Place}
  {n : Node} {e : Edit} {es : List Edit} {f : Shape Place → Shape Place} {shape : Shape Place}
  {s : Store}

theorem borrows_push (hs : s.Borrows source)
    (hshape : ∀ x, shape.attributeName? = some x → Declares source x) :
    (s.push shape).2.Borrows source := by
  intro p x hx
  rcases Nat.lt_trichotomy p s.size with hlt | rfl | hlt
  · rw [Store.get_push_lt hlt] at hx
    exact hs p x hx
  · rw [Store.get_push_size] at hx
    exact hshape x hx
  · rw [Store.get_of_size_le (by rw [Store.size_push]; exact hlt)] at hx
    cases hx

theorem borrows_update (hs : s.Borrows source) (hp : p < s.size)
    (hf : ∀ x, (f (s.get p)).attributeName? = some x →
      (s.get p).attributeName? = some x ∨ Declares source x) : (s.update p f).Borrows source := by
  intro q x hx
  by_cases hq : q = p
  · rw [hq, Store.get_update_self f hp] at hx
    exact (hf x hx).elim (hs p x) id
  · rw [Store.get_update_of_ne f hq] at hx
    exact hs q x hx

theorem Starts.borrows (h : Starts n w p w') (hw : w.store.Borrows source) (hn : Contains source n) :
    w'.store.Borrows source := by
  intro q x hx
  by_cases hq : q < w.store.size
  · rw [h.grown.get_eq q hq] at hx
    exact hw q x hx
  · exact ⟨n, hn, h.names q (Nat.not_lt.1 hq) x hx⟩

theorem borrows_perform (hp : p < w.store.size) (hw : w.store.Borrows c.source)
    (hcopies : ∀ a ∈ e.copies c.source.space, Contains c.source a.2)
    (hchange : ∀ change, e = .change change → change.Lawful c.source (w.store.get p).kind)
    (h : (perform c path p e).runIn w = (.ok (), w')) : w'.store.Borrows c.source := by
  cases e with
  | attach slot child =>
    obtain ⟨place, w₁, hcreate, hupdate⟩ := Work.runIn_bind_eq_ok.1 h
    have hstarts := starts_create hcreate
    have hw₁ := hstarts.borrows hw (hcopies _ (List.mem_singleton_self _))
    cases hupdate
    refine borrows_update hw₁ (hp.trans_le hstarts.grown.size_le) fun x hx => .inl ?_
    rwa [attributeName?_fill] at hx
  | attachSequence first second =>
    obtain ⟨a, w₁, hfirst, h⟩ := Work.runIn_bind_eq_ok.1 h
    obtain ⟨b, w₂, hsecond, h⟩ := Work.runIn_bind_eq_ok.1 h
    have ha := starts_create hfirst
    have hb := starts_create hsecond
    have hw₁ := ha.borrows hw (hcopies _ List.mem_cons_self)
    have hw₂ := hb.borrows hw₁ (hcopies (second.key? c.source.space, second.origin) (by simp [Edit.copies]))
    have hp₂ : p < w₂.store.size := hp.trans_le (ha.grown.trans hb.grown).size_le
    cases h
    refine borrows_update (borrows_push hw₂ (by rintro x ⟨⟩)) (hp₂.trans (Store.lt_size_push _ _))
      fun x hx => .inl ?_
    rwa [attributeName?_fill] at hx
  | discard child =>
    obtain ⟨place, w₁, hcreate, hpure⟩ := Work.runIn_bind_eq_ok.1 h
    have hw₁ := (starts_create hcreate).borrows hw (hcopies _ (List.mem_singleton_self _))
    cases hpure
    exact hw₁
  | follow n =>
    rw [perform, runIn_schedule] at h
    split at h
    · cases h
      exact hw
    · cases h
  | change change =>
    cases h
    exact borrows_update hw hp fun x => attributeName?_change (hchange change rfl)
  | wildcard wild =>
    cases h
    refine borrows_update (borrows_push hw (by rintro x ⟨⟩)) (hp.trans (Store.lt_size_push _ _))
      fun x hx => .inl ?_
    rwa [attributeName?_withAny] at hx
  | warn text =>
    cases h
    exact hw
  | stop f => cases h

theorem borrows_performAll (hp : p < w.store.size) (hw : w.store.Borrows c.source)
    (hcopies : ∀ a ∈ es.flatMap (Edit.copies c.source.space), Contains c.source a.2)
    (hchange : ∀ change, .change change ∈ es → change.Lawful c.source (w.store.get p).kind)
    (h : (performAll c path p es).runIn w = (.ok (), w')) : w'.store.Borrows c.source := by
  induction es generalizing w with
  | nil =>
    cases h
    exact hw
  | cons e es ih =>
    rw [performAll_cons, Work.runIn_bind_eq_ok] at h
    obtain ⟨_, w₁, hperform, h⟩ := h
    have hworks := works_perform hp hperform
    have hw₁ := borrows_perform hp hw (fun a ha => hcopies a (by simp [ha]))
      (fun change he => hchange change (by simp [he])) hperform
    refine ih (hp.trans_le hworks.grafts.size_le) hw₁ (fun a ha => hcopies a (by simp_all))
      (fun change hmem => ?_) h
    rw [hworks.kind]
    exact hchange change (List.mem_cons_of_mem e hmem)

end Steps

end PayloadSchema.Extraction
