import Mathlib.Data.List.Forall2
import PayloadSchema.Wsdl.Reader

/-!
# Reports

What the steps of a computation do to its log, and the computations that give the same result whatever has been
reported before them.  To read a document is one of these.
-/

namespace PayloadSchema.Run

variable {α β : Type} {m : Run α} {next : α → Run β} {log log' : Array Log.Entry}

/-! ## Steps in order -/

theorem run_bind (m : Run α) (next : α → Run β) (log : Array Log.Entry) :
    (m >>= next).run.run log =
      match m.run.run log with
      | (.ok a, log₁) => (next a).run.run log₁
      | (.error f, log₁) => (.error f, log₁) := by
  have hrun : (m >>= next).run.run log =
      (ExceptT.bindCont next (m.run.run log).1 : StateM _ (Except Fault β)).run (m.run.run log).2 := rfl
  rw [hrun]
  match m.run.run log with
  | (.ok a, log₁) => rfl
  | (.error f, log₁) => rfl

theorem run_bind_of_ok {a : α} (h : m.run.run log = (.ok a, log')) :
    (m >>= next).run.run log = (next a).run.run log' := by
  rw [run_bind, h]

theorem run_bind_of_error {f : Fault} (h : m.run.run log = (.error f, log')) :
    (m >>= next).run.run log = (.error f, log') := by
  rw [run_bind, h]

theorem run_bind_eq_ok {b : β} :
    (m >>= next).run.run log = (.ok b, log') ↔
      ∃ a log₁, m.run.run log = (.ok a, log₁) ∧ (next a).run.run log₁ = (.ok b, log') := by
  refine ⟨fun h => ?_, fun ⟨a, log₁, hm, hnext⟩ => (run_bind_of_ok hm).trans hnext⟩
  rw [run_bind] at h
  match hm : m.run.run log with
  | (.ok a, log₁) =>
    rw [hm] at h
    exact ⟨a, log₁, rfl, h⟩
  | (.error f, log₁) =>
    rw [hm] at h
    cases h

theorem run_bind_eq_error {f : Fault} :
    (m >>= next).run.run log = (.error f, log') ↔
      m.run.run log = (.error f, log') ∨
        ∃ a log₁, m.run.run log = (.ok a, log₁) ∧ (next a).run.run log₁ = (.error f, log') := by
  constructor
  · intro h
    rw [run_bind] at h
    match hm : m.run.run log with
    | (.ok a, log₁) =>
      rw [hm] at h
      exact .inr ⟨a, log₁, rfl, h⟩
    | (.error g, log₁) =>
      rw [hm] at h
      cases h
      exact .inl rfl
  · rintro (hm | ⟨a, log₁, hm, hnext⟩)
    · exact run_bind_of_error hm
    · exact (run_bind_of_ok hm).trans hnext

theorem run_ofExcept (e : Except Fault α) (log : Array Log.Entry) : (ofExcept e).run.run log = (e, log) := by
  cases e <;> rfl

theorem run_tryCatch (m : Run α) (recover : Fault → Run α) (log : Array Log.Entry) :
    (tryCatch m recover).run.run log =
      match m.run.run log with
      | (.ok a, log₁) => (.ok a, log₁)
      | (.error f, log₁) => (recover f).run.run log₁ := by
  change (ExceptT.tryCatch m recover).run.run log = _
  unfold ExceptT.tryCatch
  rw [ExceptT.run_mk, StateT.run_bind]
  change (match m.run.run log with | (res, log₁) => _) = _
  match m.run.run log with
  | (.ok a, log₁) => rfl
  | (.error f, log₁) => rfl

/-- Each value that a computation gives for a list is given for a member of the list. -/
theorem exists_of_mem_mapM {f : α → Run β} {l : List α} {bs : List β}
    (h : (l.mapM f).run.run log = (.ok bs, log')) :
    ∀ b ∈ bs, ∃ a ∈ l, ∃ log₁ log₂, (f a).run.run log₁ = (.ok b, log₂) := by
  induction l generalizing log bs with
  | nil =>
    cases h
    exact List.forall_mem_nil _
  | cons a l ih =>
    rw [List.mapM_cons] at h
    obtain ⟨b, log₁, hfirst, h⟩ := run_bind_eq_ok.1 h
    obtain ⟨rest, log₂, hrest, h⟩ := run_bind_eq_ok.1 h
    cases h
    refine List.forall_mem_cons.2 ⟨⟨a, List.mem_cons_self, log, log₁, hfirst⟩, fun b' hb' => ?_⟩
    obtain ⟨a', ha', hrun⟩ := ih hrest b' hb'
    exact ⟨a', List.mem_cons_of_mem a ha', hrun⟩

/-! ## Steady computations -/

/-- A computation that only adds to the log, and whose result and additions do not depend on it. -/
def Steady (m : Run α) : Prop :=
  ∀ log, m.run.run log = (m.result.1, log ++ m.result.2)

theorem steady_pure (a : α) : Steady (pure a) := fun log => by
  change (Except.ok a, log) = (Except.ok a, log ++ #[])
  rw [Array.append_empty]

theorem steady_throw (f : Fault) : Steady (throw f : Run α) := fun log => by
  change (Except.error f, log) = (Except.error f, log ++ #[])
  rw [Array.append_empty]

theorem steady_ofExcept (e : Except Fault α) : Steady (ofExcept e) := by
  cases e with
  | ok a => exact steady_pure a
  | error f => exact steady_throw f

theorem steady_report (level : Log.Level) (text : String) : Steady (report level text) := fun log => by
  change (Except.ok (), log.push ⟨level, text⟩) = (Except.ok (), log ++ #[].push ⟨level, text⟩)
  simp

theorem Steady.bind (hm : Steady m) (hnext : ∀ a, Steady (next a)) : Steady (m >>= next) := by
  intro log
  have hresult : (m >>= next).result = (m >>= next).run.run #[] := rfl
  have hfirst : m.run.run #[] = m.result := rfl
  rw [hresult, run_bind, run_bind, hm log, hfirst]
  match m.result with
  | (.error f, reported) => rfl
  | (.ok a, reported) =>
    dsimp only
    rw [hnext a (log ++ reported), hnext a reported, Array.append_assoc]

theorem Steady.tryCatch {recover : Fault → Run α} (hm : Steady m) (hrecover : ∀ f, Steady (recover f)) :
    Steady (tryCatch m recover) := by
  intro log
  have hresult : (MonadExcept.tryCatch m recover).result = (MonadExcept.tryCatch m recover).run.run #[] := rfl
  have hfirst : m.run.run #[] = m.result := rfl
  rw [hresult, run_tryCatch, run_tryCatch, hm log, hfirst]
  match m.result with
  | (.ok a, reported) => rfl
  | (.error f, reported) =>
    dsimp only
    rw [hrecover f (log ++ reported), hrecover f reported, Array.append_assoc]

theorem Steady.mapM {f : α → Run β} (h : ∀ a, Steady (f a)) (l : List α) : Steady (l.mapM f) := by
  induction l with
  | nil => exact steady_pure []
  | cons a l ih =>
    rw [List.mapM_cons]
    exact (h a).bind fun b => ih.bind fun bs => steady_pure (b :: bs)

/-- What is given for the members of a list is what each of them gives by itself. -/
theorem forall₂_of_mapM {f : α → Run β} (hf : ∀ a, Steady (f a)) {l : List α} {bs : List β}
    (h : (l.mapM f).run.run log = (.ok bs, log')) : List.Forall₂ (fun a b => (f a).result.1 = .ok b) l bs := by
  induction l generalizing log bs with
  | nil =>
    cases h
    exact .nil
  | cons a l ih =>
    rw [List.mapM_cons] at h
    obtain ⟨b, log₁, hfirst, h⟩ := run_bind_eq_ok.1 h
    obtain ⟨rest, log₂, hrest, h⟩ := run_bind_eq_ok.1 h
    cases h
    rw [hf a log] at hfirst
    exact .cons (congrArg Prod.fst hfirst) (ih hrest)

theorem Steady.foldlM {f : β → α → Run β} (h : ∀ b a, Steady (f b a)) (b : β) (l : List α) :
    Steady (l.foldlM f b) := by
  induction l generalizing b with
  | nil => exact steady_pure b
  | cons a l ih =>
    rw [List.foldlM_cons]
    exact (h b a).bind ih

end PayloadSchema.Run

/-! ## Documents -/

namespace PayloadSchema

open Run

theorem Schema.Reader.steady_addConstruct (s : Schema) (e : Xml.Element) : Steady (addConstruct s e) := by
  unfold addConstruct
  split
  iterate 6 exact steady_ofExcept _
  · dsimp only
    split
    · exact (steady_report _ _).bind fun _ => steady_pure s
    · exact steady_pure s
  · exact steady_pure s

theorem Schema.steady_ofElement (e : Xml.Element) : Steady (Schema.ofElement e) :=
  Steady.foldlM Reader.steady_addConstruct _ _

namespace Wsdl.Definition

theorem steady_ofElement (e : Xml.Element) : Steady (ofElement e) := by
  unfold ofElement
  refine (Steady.mapM Schema.steady_ofElement _).bind fun schemas => ?_
  refine (steady_ofExcept _).bind fun messages => ?_
  refine (steady_ofExcept _).bind fun portTypes => ?_
  refine (steady_ofExcept _).bind fun bindings => ?_
  exact (steady_ofExcept _).bind fun services => steady_pure _

theorem steady_ofBytes (bytes : List UInt8) : Steady (ofBytes bytes) := by
  unfold ofBytes
  refine (steady_ofExcept _).bind fun root => ?_
  split
  · exact steady_ofElement root
  · exact steady_throw _

end Wsdl.Definition

end PayloadSchema
