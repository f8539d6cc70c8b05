import PayloadSchema.Proofs.Extraction.Termination

/-!
# The limit of an extraction

A session goes on after a call that fails.  What has been done stays done, and the items that still wait are handled by
later drains.  The limit counts the items of all drains.  It has no part in what a drain does unless it stops the drain,
and it stops it at the first item that is one too many.
-/

namespace PayloadSchema.Extraction

open Schema

/-! ## Steps that are not counted -/

/-- A step that leaves the number of items that have been handled as it is. -/
def Work.Uncounted {α : Type} (m : Work α) : Prop :=
  ∀ w, (m.runIn w).2.handled = w.handled

section Uncounted

variable {α β : Type} {m : Work α} {next : α → Work β}

theorem Work.Uncounted.bind (hm : m.Uncounted) (hnext : ∀ a, (next a).Uncounted) : (m >>= next).Uncounted := by
  intro w
  have hfirst := hm w
  rw [runIn_bind]
  rcases hrun : m.runIn w with ⟨f | a, w₁⟩
  · rw [hrun] at hfirst
    exact hfirst
  · rw [hrun] at hfirst
    exact (hnext a w₁).trans hfirst

theorem uncounted_create (c : Context) (path : List ComponentKey) (child : Child) :
    (create c path child).Uncounted := by
  intro w
  rw [runIn_create]
  cases child.outline with
  | error f => rfl
  | ok shape =>
    dsimp only
    cases enter path (child.key? c.source.space) with
    | error f => rfl
    | ok inside => rfl

theorem uncounted_perform (c : Context) (path : List ComponentKey) (p : Place) (e : Edit) :
    (perform c path p e).Uncounted := by
  cases e with
  | attach slot child => exact (uncounted_create c path child).bind fun _ _ => rfl
  | attachSequence first second =>
    refine (uncounted_create c path first).bind fun a => ?_
    exact (uncounted_create c path second).bind fun b _ => rfl
  | discard child => exact (uncounted_create c path child).bind fun _ _ => rfl
  | follow n =>
    intro w
    rw [perform, runIn_schedule]
    cases enter path (n.shape.key? c.source.space) with
    | error f => rfl
    | ok inside => rfl
  | change change => exact fun _ => rfl
  | wildcard wild => exact fun _ => rfl
  | warn text => exact fun _ => rfl
  | stop f => exact fun _ => rfl

theorem uncounted_performAll (c : Context) (path : List ComponentKey) (p : Place) (es : List Edit) :
    (performAll c path p es).Uncounted := by
  induction es with
  | nil => exact fun _ => rfl
  | cons e es ih =>
    rw [performAll_cons]
    exact (uncounted_perform c path p e).bind fun _ => ih

theorem uncounted_handle (c : Context) (item : WorkItem) : (handle c item).Uncounted := by
  intro w
  rw [runIn_handle]
  exact uncounted_performAll c _ _ _ w

theorem uncounted_addElement (name : Option String) (topLevel : Bool) (form : Option String) :
    (addElement name topLevel form).Uncounted := by
  intro w
  rw [runIn_addElement]

theorem uncounted_register (c : Context) (seed : Seed) : (seed.register c).Uncounted := by
  cases seed with
  | element n topLevel =>
    rw [Seed.register, extractElement]
    cases n.shape.component? with
    | none => exact fun _ => rfl
    | some own =>
      refine (uncounted_addElement _ _ _).bind fun p => ?_
      exact (uncounted_performAll c _ _ _).bind fun _ _ => rfl
  | type name n topLevel =>
    refine (uncounted_addElement _ _ _).bind fun p => ?_
    exact (uncounted_perform c _ _ _).bind fun _ _ => rfl

end Uncounted

/-! ## Draining -/

/-- The items that a drain handles, in order.  The last of them may be one that it fails with. -/
def handledWithin (c : Context) : (budget : Nat) → Workspace → List WorkItem
  | 0, _ => []
  | budget + 1, w =>
    match next?.runIn w with
    | (.ok (some item), left) =>
      match (handle c item).runIn (w.taken left.queue) with
      | (.ok _, w') => item :: handledWithin c budget w'
      | (.error _, _) => [item]
    | (.ok none, _) => []
    | (.error _, _) => []

theorem handledWithin_within (c : Context) (limit budget : Nat) (w : Workspace) :
    handledWithin (c.within limit) budget w = handledWithin c budget w := by
  induction budget generalizing w with
  | zero => rfl
  | succ budget ih =>
    simp only [handledWithin, ih]
    rfl

/-- What a drain begins with, whatever its budget and the limit are. -/
inductive Begins (c : Context) (w : Workspace) : Prop where
  /-- Nothing waits. -/
  | idle (drain : ∀ limit budget, (drainWithin (c.within limit) budget).runIn w = (.ok (), w))
      (items : ∀ budget, handledWithin c budget w = [])
  /-- The next item fails. -/
  | fault (f : Fault) (item : WorkItem) (left w' : Workspace)
      (cut : ∀ limit, (drainWithin (c.within limit) 0).runIn w = (.error (.problem (.workLimit limit)), left))
      (kept : left.handled = w.handled)
      (drain : ∀ limit budget, (drainWithin (c.within limit) (budget + 1)).runIn w = (.error f, w'))
      (items : ∀ budget, handledWithin c (budget + 1) w = [item]) (count : w'.handled = w.handled + 1)
  /-- The next item is handled. -/
  | next (item : WorkItem) (left w' : Workspace)
      (cut : ∀ limit, (drainWithin (c.within limit) 0).runIn w = (.error (.problem (.workLimit limit)), left))
      (kept : left.handled = w.handled)
      (drain : ∀ limit budget,
        (drainWithin (c.within limit) (budget + 1)).runIn w = (drainWithin (c.within limit) budget).runIn w')
      (items : ∀ budget, handledWithin c (budget + 1) w = item :: handledWithin c budget w')
      (count : w'.handled = w.handled + 1)

section Drain

variable {c : Context} {w w' : Workspace} {budget : Nat}

theorem begins (c : Context) (w : Workspace) : Begins c w := by
  rcases runIn_next? w with ⟨-, hnext⟩ | ⟨item, rest, q, -, -, hnext⟩
  · refine .idle (fun limit budget => ?_) (fun budget => ?_)
    · cases budget <;> exact Work.runIn_bind_of_ok hnext
    · cases budget with
      | zero => rfl
      | succ budget => rw [handledWithin, hnext]
  · have hcut (limit : Nat) : (drainWithin (c.within limit) 0).runIn w =
        (.error (.problem (.workLimit limit)), { w with queue := q }) := Work.runIn_bind_of_ok hnext
    have hstep (limit budget : Nat) : (drainWithin (c.within limit) (budget + 1)).runIn w =
        (handle c item >>= fun _ => drainWithin (c.within limit) budget).runIn (w.taken q) := by
      rw [drainWithin, Work.runIn_bind_of_ok hnext]
      exact Work.runIn_bind_of_ok (Work.runIn_modify _ _)
    have hcount : ((handle c item).runIn (w.taken q)).2.handled = w.handled + 1 :=
      uncounted_handle c item (w.taken q)
    rcases hhandle : (handle c item).runIn (w.taken q) with ⟨f | u, w'⟩
    · rw [hhandle] at hcount
      refine .fault f item _ w' hcut rfl (fun limit budget => ?_) (fun budget => ?_) hcount
      · rw [hstep, Work.runIn_bind, hhandle]
      · simp only [handledWithin, hnext, hhandle]
    · rw [hhandle] at hcount
      refine .next item _ w' hcut rfl (fun limit budget => ?_) (fun budget => ?_) hcount
      · rw [hstep, Work.runIn_bind_of_ok hhandle]
      · simp only [handledWithin, hnext, hhandle]

/-- Where a drain does not come to the limit, more budget and another limit change nothing. -/
theorem drainWithin_of_le {limit limit' budget' : Nat} (hle : budget ≤ budget')
    (h : ((drainWithin (c.within limit) budget).runIn w).1 ≠ .error (.problem (.workLimit limit))) :
    (drainWithin (c.within limit') budget').runIn w = (drainWithin (c.within limit) budget).runIn w := by
  induction budget generalizing w budget' with
  | zero =>
    cases begins c w with
    | idle drain => rw [drain, drain]
    | fault f item left w' cut => exact absurd (by rw [cut]) h
    | next item left w' cut => exact absurd (by rw [cut]) h
  | succ budget ih =>
    obtain ⟨more, rfl⟩ : ∃ more, budget' = more + 1 := ⟨budget' - 1, by omega⟩
    cases begins c w with
    | idle drain => rw [drain, drain]
    | fault f item left w' cut kept drain => rw [drain, drain]
    | next item left w' cut kept drain =>
      rw [drain] at h
      rw [drain, drain]
      exact ih (by omega) h

theorem length_handledWithin_le (c : Context) (budget : Nat) (w : Workspace) :
    (handledWithin c budget w).length ≤ budget := by
  induction budget generalizing w with
  | zero => rfl
  | succ budget ih =>
    cases begins c w with
    | idle drain items =>
      rw [items]
      exact Nat.zero_le _
    | fault f item left w' cut kept drain items =>
      rw [items]
      exact Nat.succ_le_succ (Nat.zero_le budget)
    | next item left w' cut kept drain items =>
      rw [items, List.length_cons]
      exact Nat.succ_le_succ (ih w')

theorem handled_drainWithin (c : Context) (budget : Nat) (w : Workspace) :
    ((drainWithin c budget).runIn w).2.handled = w.handled + (handledWithin c budget w).length := by
  change ((drainWithin (c.within c.limit) budget).runIn w).2.handled = _
  induction budget generalizing w with
  | zero =>
    cases begins c w with
    | idle drain => rw [drain, handledWithin]; rfl
    | fault f item left w' cut kept => rw [cut, handledWithin]; exact kept
    | next item left w' cut kept => rw [cut, handledWithin]; exact kept
  | succ budget ih =>
    cases begins c w with
    | idle drain items => rw [drain, items]; rfl
    | fault f item left w' cut kept drain items count => rw [drain, items]; exact count
    | next item left w' cut kept drain items count =>
      rw [drain, items, List.length_cons, ih, count]
      omega

/-- A drain that is not stopped ends in the same way as soon as there is budget for the items that it handles, and with
less budget it comes to the limit. -/
theorem drainWithin_of_ok {limit : Nat} (h : (drainWithin (c.within limit) budget).runIn w = (.ok (), w')) :
    (∀ limit' budget', (handledWithin c budget w).length ≤ budget' →
      (drainWithin (c.within limit') budget').runIn w = (.ok (), w')) ∧
    ∀ limit' budget', budget' < (handledWithin c budget w).length →
      ∃ left, (drainWithin (c.within limit') budget').runIn w = (.error (.problem (.workLimit limit')), left) := by
  induction budget generalizing w with
  | zero =>
    refine ⟨fun limit' budget' _ => ?_, fun limit' budget' hlt => absurd hlt (Nat.not_lt_zero budget')⟩
    rw [← h]
    refine drainWithin_of_le (Nat.zero_le budget') ?_
    rw [h]
    intro hfault
    cases hfault
  | succ budget ih =>
    cases begins c w with
    | idle drain items =>
      rw [drain] at h
      rw [items]
      exact ⟨fun limit' budget' _ => by rw [drain, h], fun limit' budget' hlt => absurd hlt (Nat.not_lt_zero budget')⟩
    | fault f item left w₁ cut kept drain =>
      rw [drain] at h
      cases h
    | next item left w₁ cut kept drain items =>
      rw [drain] at h
      obtain ⟨henough, hshort⟩ := ih h
      rw [items, List.length_cons]
      constructor
      · rintro limit' (_ | budget') hle
        · exact absurd hle (Nat.not_succ_le_zero _)
        · rw [drain]
          exact henough limit' budget' (Nat.le_of_succ_le_succ hle)
      · rintro limit' (_ | budget') hlt
        · exact ⟨left, cut limit'⟩
        · rw [drain]
          exact hshort limit' budget' (Nat.lt_of_succ_lt_succ hlt)

end Drain

/-! ## Sessions -/

structure Outcome where
  call : Call
  answer : Except Fault (List Place)
  left : Workspace

namespace Call

/-- Makes calls one after the other.  A call that fails does not keep the later ones from being made. -/
def session (c : Context) : List Call → Workspace → List Outcome
  | [], _ => []
  | call :: calls, w =>
    ⟨call, ((call.run c).runIn w).1, ((call.run c).runIn w).2⟩ :: session c calls ((call.run c).runIn w).2

def handled (c : Context) : Call → Workspace → List WorkItem
  | extract _, _ => []
  | drain, w => handledWithin c (c.limit - w.handled) w

/-- The items that are handled in a session, in order. -/
def handledAll (c : Context) : List Call → Workspace → List WorkItem
  | [], _ => []
  | call :: calls, w => call.handled c w ++ handledAll c calls ((call.run c).runIn w).2

def asked (c : Context) (seeds : List Seed) (w : Workspace) : Workspace :=
  seeds.foldl (fun w seed => (((extract seed).run c).runIn w).2) w

end Call

section Session

variable {c : Context} {w w' : Workspace} {calls : List Call}

theorem runIn_drain (c : Context) (limit : Nat) (w : Workspace) :
    (Call.drain.run (c.within limit)).runIn w =
      (((drainWithin (c.within limit) (limit - w.handled)).runIn w).1.map fun _ => [],
        ((drainWithin (c.within limit) (limit - w.handled)).runIn w).2) := by
  have hdrain : (Extraction.drain (c.within limit)).runIn w =
      (drainWithin (c.within limit) (limit - w.handled)).runIn w := Work.runIn_bind_of_ok (Work.runIn_get w)
  rw [Call.run, Work.runIn_bind, hdrain]
  rcases (drainWithin (c.within limit) (limit - w.handled)).runIn w with ⟨f | u, w₁⟩
  · rfl
  · rfl

theorem run_extract_within (c : Context) (limit : Nat) (seed : Seed) :
    (Call.extract seed).run (c.within limit) = (Call.extract seed).run c := by
  rw [Call.run, register_within, Call.run]

theorem handled_call (c : Context) (call : Call) (w : Workspace) :
    ((call.run c).runIn w).2.handled = w.handled + (call.handled c w).length := by
  cases call with
  | extract seed => exact ((uncounted_register c seed).bind fun _ _ => rfl) w
  | drain =>
    change ((Call.drain.run (c.within c.limit)).runIn w).2.handled = _
    rw [runIn_drain]
    exact handled_drainWithin c _ w

theorem length_handledAll_le (c : Context) (calls : List Call) (w : Workspace) :
    (Call.handledAll c calls w).length ≤ c.limit - w.handled := by
  induction calls generalizing w with
  | nil => exact Nat.zero_le _
  | cons call calls ih =>
    have hcount := handled_call c call w
    have hrest := ih ((call.run c).runIn w).2
    have hcall : (call.handled c w).length ≤ c.limit - w.handled := by
      cases call with
      | extract seed => exact Nat.zero_le _
      | drain => exact length_handledWithin_le c _ w
    rw [Call.handledAll, List.length_append]
    omega

/-- A session in which no drain comes to the limit is the same with every larger limit. -/
theorem session_of_le {limit limit' : Nat} (hle : limit ≤ limit')
    (h : ∀ o ∈ Call.session (c.within limit) calls w,
      o.call = .drain → o.answer ≠ .error (.problem (.workLimit limit))) :
    Call.session (c.within limit') calls w = Call.session (c.within limit) calls w := by
  induction calls generalizing w with
  | nil => rfl
  | cons call calls ih =>
    obtain ⟨hfirst, hrest⟩ := List.forall_mem_cons.1 h
    have hcall : (call.run (c.within limit')).runIn w = (call.run (c.within limit)).runIn w := by
      cases call with
      | extract seed => rw [run_extract_within, run_extract_within]
      | drain =>
        have hanswer := hfirst rfl
        dsimp only at hanswer
        rw [runIn_drain] at hanswer
        rw [runIn_drain, runIn_drain, drainWithin_of_le (Nat.sub_le_sub_right hle w.handled)]
        intro hcut
        rw [hcut] at hanswer
        exact hanswer rfl
    rw [Call.session, Call.session, hcall, ih hrest]

theorem handled_extract (c : Context) (seed : Seed) (w : Workspace) :
    (((Call.extract seed).run c).runIn w).2.handled = w.handled :=
  handled_call c (.extract seed) w

/-- A session in which components are asked for before its only drain ends with that drain. -/
theorem getLast?_session (c : Context) (limit : Nat) (seeds : List Seed) (hw : w.handled = 0) :
    (Call.session (c.within limit) (seeds.map .extract ++ [.drain]) w).getLast? =
      some ⟨.drain, ((drainWithin (c.within limit) limit).runIn (Call.asked c seeds w)).1.map fun _ => [],
        ((drainWithin (c.within limit) limit).runIn (Call.asked c seeds w)).2⟩ := by
  induction seeds generalizing w with
  | nil =>
    change some (Outcome.mk .drain ((Call.drain.run (c.within limit)).runIn w).1
      ((Call.drain.run (c.within limit)).runIn w).2) = _
    rw [runIn_drain, hw]
    rfl
  | cons seed seeds ih =>
    rw [List.map_cons, List.cons_append, Call.session, List.getLast?_cons, run_extract_within,
      ih ((handled_extract c seed w).trans hw)]
    rfl

theorem handledAll_asked (c : Context) (limit : Nat) (seeds : List Seed) (hw : w.handled = 0) :
    Call.handledAll (c.within limit) (seeds.map .extract ++ [.drain]) w =
      handledWithin c limit (Call.asked c seeds w) := by
  induction seeds generalizing w with
  | nil =>
    change handledWithin (c.within limit) (limit - w.handled) w ++ [] = _
    rw [hw, List.append_nil, handledWithin_within]
    rfl
  | cons seed seeds ih =>
    rw [List.map_cons, List.cons_append, Call.handledAll, run_extract_within,
      ih ((handled_extract c seed w).trans hw)]
    rfl

end Session

/-! ## The limit -/

/-- A session in which no drain comes to the limit has the same answers, and leaves the same workspaces, with every
larger limit.  In a session with whatever calls, drains that fail and drains that go on after them, no more items are
handled than the limit says.  And a first drain that succeeds succeeds in the same way with the number of the items that
it handles as the limit, and comes to every limit below. -/
theorem extraction_stops_at_limit (source target : Schema) (calls : List Call) {least most : Nat} (h : least ≤ most) :
    ((∀ o ∈ Call.session (.between source target least) calls (.ofSchema target),
        o.call = .drain → o.answer ≠ .error (.problem (.workLimit least))) →
      Call.session (.between source target most) calls (.ofSchema target) =
        Call.session (.between source target least) calls (.ofSchema target)) ∧
    (Call.handledAll (.between source target least) calls (.ofSchema target)).length ≤ least ∧
    ∀ (seeds : List Seed) (w : Workspace) (count : Nat),
      (Call.session (.between source target most) (seeds.map .extract ++ [.drain]) (.ofSchema target)).getLast? =
        some ⟨.drain, .ok [], w⟩ →
      (Call.handledAll (.between source target most) (seeds.map .extract ++ [.drain]) (.ofSchema target)).length =
        count →
      (Call.session (.between source target count) (seeds.map .extract ++ [.drain]) (.ofSchema target)).getLast? =
        some ⟨.drain, .ok [], w⟩ ∧
      ∀ limit < count, ∃ left,
        (Call.session (.between source target limit) (seeds.map .extract ++ [.drain]) (.ofSchema target)).getLast? =
          some ⟨.drain, .error (.problem (.workLimit limit)), left⟩ := by
  refine ⟨session_of_le (c := .between source target least) h, ?_, fun seeds w count hdrain hcount => ?_⟩
  · exact (length_handledAll_le _ calls _).trans (Nat.sub_le _ _)
  · let c : Context := .between source target most
    have hlast (limit : Nat) := getLast?_session (w := .ofSchema target) c limit seeds rfl
    have hitems := handledAll_asked (w := .ofSchema target) c most seeds rfl
    have hdrained : (drainWithin (c.within most) most).runIn (Call.asked c seeds (.ofSchema target)) = (.ok (), w) := by
      have hrun := (hlast most).symm.trans hdrain
      rcases hend : (drainWithin (c.within most) most).runIn (Call.asked c seeds (.ofSchema target)) with ⟨f | u, w'⟩
      · rw [hend] at hrun
        cases hrun
      · rw [hend] at hrun
        cases hrun
        rfl
    obtain ⟨henough, hshort⟩ := drainWithin_of_ok hdrained
    rw [← hitems] at henough hshort
    refine ⟨?_, fun limit hlimit => ?_⟩
    · refine (hlast count).trans ?_
      rw [henough count count hcount.le]
      rfl
    · obtain ⟨left, hcut⟩ := hshort limit limit (hlimit.trans_eq hcount.symm)
      refine ⟨left, (hlast limit).trans ?_⟩
      rw [hcut]
      rfl

/-- The sample is extracted twice with six items, and once with three of them, but not with two. -/
theorem extraction_stops_at_limit_sample :
    let target : Schema := .empty "" defaultForm defaultForm
    let session (limit : Nat) (calls : List Call) :=
      Call.session (.between sampleSchema target limit) calls (.ofSchema target)
    session 10 [.extract sampleSeed, .drain, .extract sampleSeed, .drain] =
        session 6 [.extract sampleSeed, .drain, .extract sampleSeed, .drain] ∧
      (∃ w, (session 3 [.extract sampleSeed, .drain]).getLast? = some ⟨.drain, .ok [], w⟩) ∧
      ∃ left, (session 2 [.extract sampleSeed, .drain]).getLast? =
        some ⟨.drain, .error (.problem (.workLimit 2)), left⟩ := by
  intro target session
  obtain ⟨hsame, -, hcut⟩ := extraction_stops_at_limit sampleSchema target
    [.extract sampleSeed, .drain, .extract sampleSeed, .drain] (by decide : 6 ≤ 10)
  have hok : ∀ o ∈ session 6 [.extract sampleSeed, .drain, .extract sampleSeed, .drain], o.answer.isOk := by
    decide +kernel
  have hdone : ((drainWithin ((Context.between sampleSchema target 10).within 10) 10).runIn
      (Call.asked (.between sampleSchema target 10) [sampleSeed] (.ofSchema target))).1.toOption = some () := by
    decide +kernel
  have hlast := getLast?_session (w := .ofSchema target) (.between sampleSchema target 10) 10 [sampleSeed] rfl
  rw [Reader.run_eq_ok hdone] at hlast
  have hcount : (Call.handledAll (.between sampleSchema target 10) ([sampleSeed].map .extract ++ [.drain])
      (.ofSchema target)).length = 3 := by decide +kernel
  obtain ⟨hthree, htwo⟩ := hcut [sampleSeed] _ 3 hlast hcount
  refine ⟨hsame fun o ho _ hanswer => ?_, ⟨_, hthree⟩, htwo 2 (by decide)⟩
  have hanswered := hok o ho
  rw [hanswer] at hanswered
  cases hanswered

end PayloadSchema.Extraction
