import PayloadSchema.Xml.Document

/-!
# Refusals of a prolog

Whatever stands before the root of a document, it is read or refused with a problem: either the document is not
well-formed or it declares an entity.
-/

namespace PayloadSchema.Xml.Doctype

/-- A reader that refuses a document only with a problem. -/
def Refuses {α : Type} (m : PrologReader α) : Prop :=
  ∀ s f, m.run s = .error f → ∃ p, f = .problem p

section Refuses

variable {α β : Type} {ctx : Context}

theorem refuses_pure (a : α) : Refuses (pure a : PrologReader α) := nofun

theorem refuses_get : Refuses (get : PrologReader Prolog) := nofun

theorem refuses_set (s : Prolog) : Refuses (set s : PrologReader PUnit) := nofun

theorem refuses_modify (g : Prolog → Prolog) : Refuses (modify g : PrologReader PUnit) := nofun

theorem refuses_refuse : Refuses (refuse : PrologReader α) := by
  rintro s f ⟨⟩
  exact ⟨_, rfl⟩

theorem refuses_forbid (name : List Char) (systemId publicId : Option (List Char)) :
    Refuses (forbid name systemId publicId) := by
  rintro s f ⟨⟩
  exact ⟨_, rfl⟩

theorem Refuses.bind {m : PrologReader α} {k : α → PrologReader β} (hm : Refuses m) (hk : ∀ a, Refuses (k a)) :
    Refuses (m >>= k) := by
  intro s f hf
  rw [StateT.run_bind] at hf
  match hrun : m.run s with
  | .error g =>
    rw [hrun] at hf
    cases hf
    exact hm s f hrun
  | .ok (a, s') =>
    rw [hrun] at hf
    exact hk a s' f hf

theorem Refuses.ite {c : Prop} [Decidable c] {m k : PrologReader α} (hm : Refuses m) (hk : Refuses k) :
    Refuses (if c then m else k) := by
  split
  · exact hm
  · exact hk

theorem refuses_next : Refuses (next ctx) := by
  refine refuses_get.bind fun s => ?_
  split
  · exact (refuses_modify _).bind fun _ => refuses_pure _
  · exact refuses_refuse

theorem refuses_plainName : Refuses (plainName ctx) := by
  refine refuses_next.bind fun t => ?_
  split
  · exact refuses_pure _
  · exact refuses_refuse

theorem refuses_anyName : Refuses (anyName ctx) := by
  refine refuses_next.bind fun t => ?_
  split
  · exact refuses_refuse.ite (refuses_pure _)
  · exact refuses_refuse

theorem refuses_literal : Refuses (literal ctx) := by
  refine refuses_next.bind fun t => ?_
  split
  · exact refuses_pure _
  · exact refuses_refuse

theorem refuses_publicId : Refuses (publicId ctx) :=
  refuses_literal.bind fun _ => (refuses_pure _).ite refuses_refuse

theorem refuses_close : Refuses (close ctx) := by
  refine refuses_next.bind fun t => ?_
  split
  · exact refuses_pure _
  · exact refuses_refuse

theorem refuses_outsideEntity (general counts : Bool) (name systemId : List Char) (publicId : Option (List Char)) :
    Refuses (outsideEntity ctx general counts name systemId publicId) := by
  refine refuses_next.bind fun t => ?_
  have hforbid := refuses_forbid name systemId publicId
  split
  · exact hforbid.ite (refuses_pure _)
  · refine Refuses.ite (refuses_plainName.bind fun _ => ?_) refuses_refuse
    exact Refuses.ite (hforbid.bind fun _ => refuses_close) refuses_close
  · exact refuses_refuse

theorem refuses_entityDefinition (general counts : Bool) (name : List Char) :
    Refuses (entityDefinition ctx general counts name) := by
  refine refuses_next.bind fun t => ?_
  split
  · have hclose (c : Bool) : Refuses (if c = true then refuse >>= fun _ : Unit => close ctx else close ctx) :=
      (refuses_refuse.bind fun _ => refuses_close).ite refuses_close
    exact ((refuses_forbid _ _ _).bind fun _ => refuses_get.bind fun s => hclose _).ite
      (refuses_get.bind fun s => hclose _)
  · refine Refuses.ite (refuses_literal.bind fun _ => refuses_outsideEntity _ _ _ _ _) ?_
    refine Refuses.ite (refuses_publicId.bind fun _ => refuses_literal.bind fun _ => ?_) refuses_refuse
    exact refuses_outsideEntity _ _ _ _ _
  · exact refuses_refuse

theorem refuses_entityDeclaration : Refuses (entityDeclaration ctx) := by
  refine refuses_get.bind fun s => refuses_next.bind fun t => ?_
  split
  · exact refuses_plainName.bind fun _ => refuses_entityDefinition _ _ _
  · exact refuses_entityDefinition _ _ _
  · exact refuses_refuse

theorem refuses_alternatives (words : Bool) (fuel : Nat) : Refuses (alternatives ctx words fuel) := by
  induction fuel with
  | zero => exact refuses_refuse
  | succ fuel ih =>
    refine refuses_next.bind fun t => ?_
    split
    · refine (refuses_refuse.bind fun _ => refuses_next.bind fun t => ?_).ite (refuses_next.bind fun t => ?_)
      all_goals
        split
        · exact ih
        · exact refuses_pure _
        · exact refuses_refuse
    · refine refuses_refuse.bind fun _ => refuses_next.bind fun t => ?_
      split
      · exact ih
      · exact refuses_pure _
      · exact refuses_refuse

theorem refuses_remaining : Refuses remaining :=
  refuses_get.bind fun _ => refuses_pure _

theorem refuses_attributeType : Refuses (attributeType ctx) := by
  have hlisted (words : Bool) : Refuses (do
      alternatives ctx words (← remaining)
      pure (false, false)) :=
    refuses_remaining.bind fun fuel => (refuses_alternatives words fuel).bind fun _ => refuses_pure _
  refine refuses_next.bind fun t => ?_
  split
  · exact hlisted true
  · refine (refuses_pure _).ite ((refuses_pure _).ite (Refuses.ite ?_ ((refuses_pure _).ite refuses_refuse)))
    refine refuses_next.bind fun t => ?_
    split
    · exact hlisted false
    · exact refuses_refuse
  · exact refuses_refuse

theorem refuses_attributeDefault (isText : Bool) : Refuses (attributeDefault ctx isText) := by
  refine refuses_next.bind fun t => ?_
  split
  · refine refuses_get.bind fun s => Refuses.ite ?_ (refuses_pure _)
    split
    · exact refuses_pure _
    · exact refuses_refuse
  · refine Refuses.ite (refuses_literal.bind fun raw => refuses_get.bind fun s => Refuses.ite ?_ (refuses_pure _))
      ((refuses_pure _).ite refuses_refuse)
    split
    · exact refuses_pure _
    · exact refuses_refuse
  · exact refuses_refuse

theorem refuses_attributeRules (element : List Char) (fuel : Nat) : Refuses (attributeRules ctx element fuel) := by
  induction fuel with
  | zero => exact refuses_refuse
  | succ fuel ih =>
    have hrule (name : List Char) : Refuses (do
        let kind ← attributeType ctx
        let default ← attributeDefault ctx kind.1
        modify fun s =>
          if s.counting then { s with rules := addRule s.rules ⟨element, name, kind.1, default⟩ kind.2 } else s
        attributeRules ctx element fuel) :=
      refuses_attributeType.bind fun kind => (refuses_attributeDefault kind.1).bind fun default =>
        (refuses_modify _).bind fun _ => ih
    refine refuses_next.bind fun t => ?_
    split
    · exact refuses_pure _
    · exact (refuses_refuse.bind fun _ => hrule _).ite (hrule _)
    · exact refuses_refuse

theorem refuses_contentModel (fuel : Nat) (after : Bool) (stack : List (Option Char)) :
    Refuses (contentModel ctx fuel after stack) := by
  induction fuel generalizing after stack with
  | zero =>
    cases stack <;> exact refuses_refuse
  | succ fuel ih =>
    match after, stack with
    | _, [] => exact refuses_pure _
    | false, connector :: stack =>
      refine refuses_next.bind fun t => ?_
      split
      · exact ih false _
      · exact ih true _
      · exact refuses_refuse.ite (ih true _)
      · exact refuses_refuse
    | true, connector :: stack =>
      refine refuses_next.bind fun t => ?_
      split
      · exact ih true _
      · exact refuses_refuse.ite (ih false _)
      · exact refuses_refuse.ite (ih false _)
      · exact refuses_refuse

theorem refuses_mixedModel (fuel : Nat) (alternatives : Bool) : Refuses (mixedModel ctx alternatives fuel) := by
  induction fuel generalizing alternatives with
  | zero => exact refuses_refuse
  | succ fuel ih =>
    refine refuses_next.bind fun t => ?_
    split
    · exact refuses_refuse.ite (refuses_pure _)
    · exact refuses_anyName.bind fun _ => ih true
    · exact refuses_refuse

theorem refuses_elementDeclaration : Refuses (elementDeclaration ctx) := by
  refine refuses_anyName.bind fun _ => refuses_next.bind fun t => ?_
  split
  · exact (refuses_refuse.bind fun _ => refuses_close).ite refuses_close
  · refine refuses_get.bind fun before => refuses_next.bind fun t => ?_
    split
    · exact Refuses.ite (refuses_remaining.bind fun fuel =>
        (refuses_mixedModel fuel false).bind fun _ => refuses_close) (refuses_refuse.bind fun _ => refuses_close)
    · exact (refuses_set before).bind fun _ => (refuses_contentModel _ _ _).bind fun _ => refuses_close
  · exact refuses_refuse.bind fun _ => refuses_close

theorem refuses_notationDeclaration : Refuses (notationDeclaration ctx) := by
  refine refuses_plainName.bind fun _ => refuses_next.bind fun t => ?_
  split
  · refine Refuses.ite (refuses_literal.bind fun _ => refuses_close) (Refuses.ite ?_ refuses_refuse)
    refine refuses_publicId.bind fun _ => refuses_next.bind fun t => ?_
    split
    · exact refuses_close
    · exact refuses_pure _
    · exact refuses_refuse
  · exact refuses_refuse

theorem refuses_attributeDeclaration : Refuses (attributeDeclaration ctx) :=
  refuses_anyName.bind fun element => refuses_remaining.bind fun fuel => refuses_attributeRules element fuel

theorem refuses_subset (fuel : Nat) : Refuses (subset ctx fuel) := by
  induction fuel with
  | zero => exact refuses_refuse
  | succ fuel ih =>
    refine refuses_next.bind fun t => ?_
    split
    · exact refuses_pure _
    · exact ih
    · exact (refuses_modify _).bind fun _ => ih
    · refine Refuses.ite (refuses_entityDeclaration.bind fun _ => ih) ?_
      refine Refuses.ite (refuses_attributeDeclaration.bind fun _ => ih) ?_
      refine Refuses.ite (refuses_elementDeclaration.bind fun _ => ih) ?_
      exact Refuses.ite (refuses_notationDeclaration.bind fun _ => ih) (refuses_refuse.bind fun _ => ih)
    · exact refuses_refuse

theorem refuses_inside (t : Token) : Refuses (inside ctx t) := by
  rw [inside.eq_def]
  split
  · exact refuses_pure _
  · exact refuses_remaining.bind fun fuel => (refuses_subset fuel).bind fun _ => refuses_close
  · exact refuses_refuse

theorem refuses_doctype : Refuses (doctype ctx) := by
  have hinside : Refuses (do inside ctx (← next ctx)) := refuses_next.bind fun t => refuses_inside t
  refine refuses_anyName.bind fun _ => refuses_next.bind fun t => ?_
  split
  · refine Refuses.ite (refuses_literal.bind fun _ => (refuses_modify _).bind fun _ => hinside) (Refuses.ite ?_ ?_)
    · exact refuses_publicId.bind fun _ => refuses_literal.bind fun _ => (refuses_modify _).bind fun _ => hinside
    · exact refuses_refuse.bind fun _ => hinside
  · exact refuses_inside _

/-- The part of a document before its root is refused only with a problem. -/
theorem refuses_prolog (fuel : Nat) (seen : Bool) : Refuses (prolog ctx fuel seen) := by
  induction fuel generalizing seen with
  | zero => exact refuses_refuse
  | succ fuel ih =>
    have hrest : Refuses (do
        doctype ctx
        prolog ctx fuel true) := refuses_doctype.bind fun _ => ih true
    refine refuses_next.bind fun t => ?_
    split
    · exact ih seen
    · exact refuses_pure _
    · exact (refuses_refuse.bind fun _ => hrest).ite hrest
    · exact refuses_refuse

end Refuses

end PayloadSchema.Xml.Doctype
