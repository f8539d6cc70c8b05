import PayloadSchema.Proofs.Written.Tags

/-!
# Attributes that are written and read

What the attributes of a tag say is what is read of an element that has the same attributes: names of built-in types,
occurrence bounds, marks and the two sides of a wildcard.
-/

namespace PayloadSchema.Schema.Writer

open Xml (Element)

/-- A prefix that stands before names in texts of characters that are allowed. -/
structure Usable (ok : Char → Prop) (label : String) : Prop where
  carried : Carried ok label
  colon : ':' ∉ label.toList
  noBlank : Text.NoBlank label.toList
  printable : AllowsPrintable ok

variable {ok : Char → Prop} {label key : String} {e : Element}

/-! ## Attributes -/

section Attributes

theorem typeAttribute_eq {q : Option QName} (h : ∀ r ∈ q, r.isBuiltin) :
    typeAttribute label key q = .ok (given key (q.map fun r => label ++ ":" ++ r.name)) := by
  cases q with
  | none => rfl
  | some r =>
    rw [typeAttribute, typeName, if_pos (h r rfl)]
    rfl

theorem Usable.carried_typeName (h : Usable ok label) {q : Option QName} (hq : ∀ r ∈ q, Carried ok r.name) :
    ∀ v ∈ q.map fun r => label ++ ":" ++ r.name, Carried ok v := by
  intro v hv
  obtain ⟨r, hr, rfl⟩ := Option.map_eq_some_iff.1 hv
  exact (h.carried.append (h.printable.carried (by decide))).append (hq r hr)

theorem resolve_prefixed (h : Usable ok label) {scope : Xml.Scope} (hscope : scope.find? label = some xsdSpace)
    {q : QName} (hq : q.isBuiltin) : Reader.resolve scope (label ++ ":" ++ q.name) = .ok q := by
  have hspace : q.space = xsdSpace := by simpa [QName.isBuiltin] using hq
  rw [Reader.resolve, Xml.splitName_prefixed h.colon]
  dsimp only
  rw [hscope, ← hspace]

theorem name?_of_written (h : Usable ok label) (hscope : e.scope.find? label = some xsdSpace) {q : Option QName}
    (hvalue : e.attribute? key = q.map fun r => label ++ ":" ++ r.name)
    (hq : ∀ r ∈ q, r.isBuiltin ∧ Text.EndsClean r.name.toList) : Reader.name? e key = .ok q := by
  rw [Reader.name?, hvalue]
  cases q with
  | none => rfl
  | some r =>
    obtain ⟨hbuiltin, hclean⟩ := hq r rfl
    have hlist : (label ++ ":" ++ r.name).toList = label.toList ++ ':' :: r.name.toList := by
      simp
    have htrim : Text.trim (label ++ ":" ++ r.name) = label ++ ":" ++ r.name := by
      rw [Text.trim, Text.trimChars_eq_self, String.ofList_toList]
      · intro c hc
        rw [hlist] at hc
        cases hcs : label.toList with
        | nil => simp [hcs] at hc; subst hc; decide
        | cons d ds =>
          simp only [hcs, List.cons_append, List.head?_cons, Option.some.injEq] at hc
          exact hc ▸ h.noBlank d (hcs ▸ List.mem_cons_self)
      · intro c hc
        rw [hlist, List.getLast?_append, List.getLast?_cons] at hc
        cases hname : r.name.toList.getLast? with
        | none => simp [hname] at hc; subst hc; decide
        | some d =>
          simp only [hname, Option.getD_some, Option.some_or, Option.some.injEq] at hc
          exact hc ▸ hclean d hname
    rw [Option.map_some]
    dsimp only
    rw [htrim, resolve_prefixed h hscope hbuiltin]
    rfl

theorem flag_of_written {b : Bool} (hvalue : e.attribute? key = if b then some "true" else none) :
    Reader.flag e key = b := by
  rw [Reader.flag, hvalue]
  cases b <;> decide

theorem toList_toString_int (n : Int) : ∀ c ∈ (toString n).toList, c = '-' ∨ c.isDigit := by
  intro c hc
  rw [Int.toString_eq_repr, Int.repr_eq_if] at hc
  have hdigit {m : Nat} (h : c ∈ m.repr.toList) : c.isDigit := by
    rw [Nat.toList_repr] at h
    exact Nat.isDigit_of_mem_toDigits (by decide) (by decide) h
  split at hc
  · exact .inr (hdigit hc)
  · rw [String.toList_append, List.mem_append] at hc
    exact hc.imp (fun h => by simpa using h) hdigit

theorem Usable.carried_boundText (h : Usable ok label) {unbounded : String}
    (hunbounded : isPrintableText unbounded) (bound : Option Int) :
    ∀ v ∈ boundText unbounded bound, Carried ok v := by
  intro v hv
  cases bound with
  | none =>
    cases hv
    exact h.printable.carried hunbounded
  | some n =>
    by_cases hn : n = 1
    · simp [boundText, hn] at hv
    · obtain rfl : toString n = v := by simpa [boundText, hn] using hv
      refine h.printable.carried (List.all_eq_true.2 fun c hc => ?_)
      rw [Bool.and_eq_true, decide_eq_true_eq, decide_eq_true_eq]
      rcases toList_toString_int n c hc with rfl | hc
      · decide
      · have := Text.toNat_of_isDigit hc
        omega

theorem bound_of_written {unbounded : String} {bound : Option Int} (hshort : ∀ n, bound = some n →
    n.natAbs < 10 ^ Text.maxDigits) (hnone : bound = none → unbounded = "unbounded") :
    Reader.bound (boundText unbounded bound) = .ok bound := by
  cases bound with
  | none =>
    rw [hnone rfl]
    rfl
  | some n =>
    by_cases hn : n = 1
    · rw [boundText, if_pos hn, hn]
      rfl
    · have hread := Text.readInteger_toString (hshort n rfl)
      rw [boundText, if_neg hn, Reader.bound.eq_def]
      split
      · rename_i heq
        cases heq
      · rename_i heq
        rw [Option.some.inj heq] at hread
        have hbad : (Text.readInteger "unbounded").toOption = none := by decide
        rw [hread] at hbad
        cases hbad
      · rename_i heq
        rw [← Option.some.inj heq, hread]

theorem occurs_of_written {o : Occurs} (hmin : e.attribute? "minOccurs" = boundText "None" o.min)
    (hmax : e.attribute? "maxOccurs" = boundText "unbounded" o.max) (hshort : o.Short) (hbounded : o.min.isSome) :
    Reader.occurs e = .ok o := by
  have hreadMin := bound_of_written (fun n hn => hshort n (.inl hn)) fun (hnone : o.min = none) =>
    (by simp [hnone] at hbounded : "None" = "unbounded")
  have hreadMax := bound_of_written (fun n hn => hshort n (.inr hn))
    fun (_ : o.max = none) => (rfl : "unbounded" = "unbounded")
  rw [Reader.occurs, hmin, hmax, hreadMin, hreadMax]
  rfl

theorem typeNames_eq {members : List QName} (h : ∀ q ∈ members, q.isBuiltin) :
    members.mapM (typeName label) = .ok (members.map fun q => label ++ ":" ++ q.name) := by
  induction members with
  | nil => rfl
  | cons q members ih =>
    obtain ⟨hq, hmembers⟩ := List.forall_mem_cons.1 h
    rw [List.mapM_cons, typeName, if_pos hq, ih hmembers]
    rfl

def memberText (label : String) (members : List QName) : Option String :=
  if members.isEmpty then none else some (" ".intercalate (members.map fun q => label ++ ":" ++ q.name))

theorem members_of_written (hlabel : Usable ok label) (hscope : e.scope.find? label = some xsdSpace)
    {members : List QName} (hbuiltin : ∀ q ∈ members, q.isBuiltin)
    (hnames : ∀ q ∈ members, Text.NoBlank q.name.toList)
    (hvalue : e.attribute? "memberTypes" = memberText label members) :
    (Text.words ((e.attribute? "memberTypes").getD "")).mapM (Reader.resolve e.scope) = .ok members := by
  have hwords : Text.words ((e.attribute? "memberTypes").getD "") = members.map fun q => label ++ ":" ++ q.name := by
    rw [hvalue, memberText]
    split
    · rename_i hempty
      rw [List.isEmpty_iff.1 hempty]
      rfl
    · refine Text.words_intercalate fun name hname => ?_
      obtain ⟨q, hq, rfl⟩ := List.mem_map.1 hname
      refine ⟨fun h => by simpa using congrArg String.toList h, fun c hc => ?_⟩
      rw [String.toList_append, String.toList_append, List.mem_append, List.mem_append] at hc
      rcases hc with (hc | hc) | hc
      · exact hlabel.noBlank c hc
      · obtain rfl : c = ':' := by simpa using hc
        decide
      · exact hnames q hq c hc
  rw [hwords]
  clear hwords hvalue
  induction members with
  | nil => rfl
  | cons q members ih =>
    obtain ⟨hq, hmembers⟩ := List.forall_mem_cons.1 hbuiltin
    rw [List.map_cons, List.mapM_cons, resolve_prefixed hlabel hscope hq,
      ih hmembers (List.forall_mem_cons.1 hnames).2]
    rfl

theorem Usable.carried_memberText (h : Usable ok label) {members : List QName}
    (hmembers : ∀ q ∈ members, Carried ok q.name) : ∀ v ∈ memberText label members, Carried ok v := by
  intro v hv
  rw [memberText] at hv
  split at hv
  · cases hv
  · cases hv
    refine Carried.intercalate (h.printable.carried (by decide)) fun name hname => ?_
    obtain ⟨q, hq, rfl⟩ := List.mem_map.1 hname
    exact h.carried_typeName (q := some q) (by simpa using hmembers q hq) _ rfl

theorem carried_wildcard {w : Wildcard} (h : ∀ v ∈ w.texts, Carried ok v) : ∀ a ∈ wildcard w, Carried ok a.2 :=
  carried_append (carried_given fun v hv => h v (by simp_all [Wildcard.texts]))
    (carried_given fun v hv => h v (by simp_all [Wildcard.texts]))

theorem wildcard_of_written {w : Wildcard} {rest : Attributes}
    (hspace : e.attribute? "namespace" = (wildcard w ++ rest).lookup "namespace")
    (hprocessing : e.attribute? "processContents" = (wildcard w ++ rest).lookup "processContents")
    (hrest : rest.lookup "namespace" = none ∧ rest.lookup "processContents" = none) : Reader.wildcard e = w := by
  simp only [wildcard, lookup_append, lookup_given, hrest.1] at hspace
  simp only [wildcard, lookup_append, lookup_given, hrest.2] at hprocessing
  rw [Reader.wildcard, hspace, hprocessing]
  simp

theorem carried_occurs (hlabel : Usable ok label) (o : Occurs) : ∀ a ∈ occurs o, Carried ok a.2 := by
  rw [occurs_eq_given]
  exact carried_append (carried_given (hlabel.carried_boundText (by decide) _))
    (carried_given (hlabel.carried_boundText (by decide) _))

theorem carried_flag (hlabel : Usable ok label) {b : Bool} : ∀ a ∈ flag key b, Carried ok a.2 := by
  rw [flag_eq_given]
  refine carried_given fun v hv => ?_
  obtain rfl : "true" = v := by
    cases b <;> simp_all
  exact hlabel.printable.carried (by decide)

end Attributes

end PayloadSchema.Schema.Writer
