import PayloadSchema.Payload.Envelope
import PayloadSchema.Proofs.Extraction.GatheredElements

/-!
# A payload is put together

The elements of the parts are started first, and then the elements around them.  What holds of them before
the queue is drained is what the drain leaves alone; the rest is known of every extraction.
-/

namespace PayloadSchema

/-- The name under which a part appears in a payload. -/
def Part.label (p : Part) : String :=
  match p.element with
  | some q => q.name
  | none => p.name.name

/-- Whether the payload of a message is the element of its only part. -/
def Message.isBare (m : Message) : Bool :=
  m.style = .document && !m.hasHeader && m.body.length = 1

end PayloadSchema

namespace PayloadSchema.Payload

open Schema Extraction Copying

/-! ## What a payload is made of -/

def builtinElement {α : Type} (name : String) (topLevel : Bool) (q : QName) : Shape α :=
  (Change.typeName (some q)).apply (blankElement (some name) topLevel none)

/-- The finished element of a part. -/
def inlinePart (c : Context) (topLevel : Bool) (p : Part) : Copying Node :=
  match p.element, p.type with
  | some q, _ =>
    match c.source.find? .elements (some q) with
    | none => throw (.problem (.undeclaredElement q p.name))
    | some n => (Seed.element n topLevel).inline c
  | none, some q =>
    if q.isBuiltin then pure ⟨builtinElement p.name.name topLevel q⟩
    else
      match c.source.find? .types (some q) with
      | none => throw (.problem (.undeclaredType q p.name))
      | some n => (Seed.type (some p.name.name) n topLevel).inline c
  | none, none => throw (.problem (.untypedPart p.name))

/-- How the elements of a payload stand in each other, when `around` says which element, at the top of the
schema or not, has which name and holds which elements. -/
def Stacked {α : Type} (around : Bool → String → List α → α → Prop) (m : Message)
    (calls header body : List α) (root : α) : Prop :=
  match m.style, m.hasHeader with
  | .rpc, false => calls = [root] ∧ around true m.wrapper.name body root
  | .rpc, true => ∃ top bottom call, calls = [call] ∧ around true envelopeName [top, bottom] root ∧
      around false headerName header top ∧ around false bodyName [call] bottom ∧
      around false m.wrapper.name body call
  | .document, true => calls = [] ∧ ∃ top bottom, around true envelopeName [top, bottom] root ∧
      around false headerName header top ∧ around false bodyName body bottom
  | .document, false => calls = [] ∧
      if m.body.length = 1 then body = [root] else around true envelopeName body root

theorem Stacked.map {α β : Type} {around : Bool → String → List α → α → Prop}
    {around' : Bool → String → List β → β → Prop} (f : α → β) {m : Message} {calls header body : List α}
    {root : α} (h : ∀ topLevel name items a, around topLevel name items a →
      around' topLevel name (items.map f) (f a))
    (hstacked : Stacked around m calls header body root) :
    Stacked around' m (calls.map f) (header.map f) (body.map f) (f root) := by
  unfold Stacked at hstacked ⊢
  split at hstacked
  · exact ⟨by simp [hstacked.1], h _ _ _ _ hstacked.2⟩
  · obtain ⟨top, bottom, call, hcalls, hroot, htop, hbottom, hcall⟩ := hstacked
    exact ⟨f top, f bottom, f call, by simp [hcalls], h _ _ _ _ hroot, h _ _ _ _ htop,
      h _ _ _ _ hbottom, h _ _ _ _ hcall⟩
  · obtain ⟨hcalls, top, bottom, hroot, htop, hbottom⟩ := hstacked
    exact ⟨by simp [hcalls], f top, f bottom, h _ _ _ _ hroot, h _ _ _ _ htop, h _ _ _ _ hbottom⟩
  · obtain ⟨hcalls, hbody⟩ := hstacked
    refine ⟨by simp [hcalls], ?_⟩
    by_cases hone : m.body.length = 1
    · rw [if_pos hone] at hbody ⊢
      simp [hbody]
    · rw [if_neg hone] at hbody ⊢
      exact h _ _ _ _ hbody

theorem Stacked.imp {α : Type} {around around' : Bool → String → List α → α → Prop} {m : Message}
    {calls header body : List α} {root : α}
    (h : ∀ topLevel name items a, around topLevel name items a → around' topLevel name items a)
    (hstacked : Stacked around m calls header body root) :
    Stacked around' m calls header body root := by
  simpa using hstacked.map id fun _ _ _ _ ha => by simpa using h _ _ _ _ ha

inductive Undeclared : Fault → Prop where
  | element (q name : QName) : Undeclared (.problem (.undeclaredElement q name))
  | type (q name : QName) : Undeclared (.problem (.undeclaredType q name))
  | untyped (name : QName) : Undeclared (.problem (.untypedPart name))

/-- Where the element of a part comes from: from nothing that is declared, from a component that is asked for, or from
a type that is built in.  The step that starts the element and the inliner go the same way. -/
inductive Origin (c : Context) (topLevel : Bool) (part : Part) : Prop where
  | undeclared (f : Fault) (hf : Undeclared f) (hadd : addPart c topLevel part = throw f)
    (hinline : inlinePart c topLevel part = throw f)
  | component (seed : Seed) (hfrom : seed.IsFrom c.source) (htop : seed.topLevel = topLevel)
    (hname : seed.name = some part.label) (hadd : addPart c topLevel part = seed.register c)
    (hinline : inlinePart c topLevel part = seed.inline c)
  | builtin (q : QName) (hbuiltin : q.isBuiltin) (hlabel : part.label = part.name.name)
    (hadd : addPart c topLevel part = do
      let place ← addElement (some part.name.name) topLevel none
      Work.update place (Change.typeName (some q)).apply
      pure place)
    (hinline : inlinePart c topLevel part = pure ⟨builtinElement part.name.name topLevel q⟩)

/-! ## Elements around others -/

/-- A place for which nothing waits with an element whose type is a sequence of elements. -/
def Wraps (w : Workspace) (attributes : List Place) (topLevel : Bool) (name : String)
    (items : List Place) (p : Place) : Prop :=
  ∃ t s, w.store.get p = Slot.type.fill t (blankElement (some name) topLevel none) ∧
    w.store.get t = plainType attributes none (some s) ∧
    w.store.get s = .modelGroup .sequence .once items ∧ ∀ q ∈ [p, t, s], w.Free q

/-- A place with the element that stands for a part before the queue is drained. -/
inductive Begun (c : Context) (asked : List (Seed × Place)) (w : Workspace) (topLevel : Bool) (part : Part)
    (p : Place) : Prop where
  | asked (seed : Seed) (hmem : (seed, p) ∈ asked) (hinline : inlinePart c topLevel part = seed.inline c)
    (hname : seed.name = some part.label)
  | builtin (q : QName) (hinside : p < w.store.size) (hfree : w.Free p)
    (hget : w.store.get p = builtinElement part.name.name topLevel q)
    (hinline : inlinePart c topLevel part = pure ⟨builtinElement part.name.name topLevel q⟩)
    (hname : part.label = part.name.name)

structure Continues (c : Context) (used : List Place) (asked : List (Seed × Place)) (w : Workspace)
    (asked' : List (Seed × Place)) (w' : Workspace) : Prop where
  gathers : Gathers c asked' w'
  asked : ∀ a ∈ asked, a ∈ asked'
  adds : Adds used w w'

section Steps

variable {c : Context} {m : Message} {asked asked' asked'' : List (Seed × Place)}
  {used used' items places attributes : List Place} {w w' w'' : Workspace} {name : String} {topLevel : Bool}
  {part : Part} {parts : List Part} {p : Place}

theorem Continues.refl (h : Gathers c asked w) : Continues c [] asked w asked w :=
  ⟨h, fun _ ha => ha, .refl w⟩

theorem Continues.trans (h : Continues c used asked w asked' w')
    (h' : Continues c used' asked' w' asked'' w'') :
    Continues c (used ++ used') asked w asked'' w'' :=
  ⟨h'.gathers, fun a ha => h'.asked a (h.asked a ha), h.adds.trans h'.adds⟩

theorem Wraps.keep (h : Wraps w attributes topLevel name items p)
    (hkeep : ∀ q < w.store.size, w.Free q → w'.store.get q = w.store.get q ∧ w'.Free q) :
    Wraps w' attributes topLevel name items p := by
  obtain ⟨t, s, hp, ht, hs, hfree⟩ := h
  have hlt (q : Place) (hq : w.store.get q ≠ .schemaNode) : q < w.store.size := by
    by_contra hle
    exact hq (Store.get_of_size_le (Nat.not_lt.1 hle))
  have hkeep' (q : Place) (hq : q ∈ [p, t, s]) : w'.store.get q = w.store.get q ∧ w'.Free q := by
    refine hkeep q (hlt q ?_) (hfree q hq)
    simp only [List.mem_cons, List.not_mem_nil, or_false] at hq
    rcases hq with rfl | rfl | rfl
    · simp [hp, Slot.fill, blankElement]
    · simp [ht, plainType]
    · simp [hs]
  refine ⟨t, s, ?_, ?_, ?_, fun q hq => (hkeep' q hq).2⟩
  · rw [(hkeep' p (by simp)).1, hp]
  · rw [(hkeep' t (by simp)).1, ht]
  · rw [(hkeep' s (by simp)).1, hs]

theorem Wraps.adds (h : Wraps w attributes topLevel name items p) (hadds : Adds used w w') :
    Wraps w' attributes topLevel name items p :=
  h.keep fun q hq hfree => ⟨hadds.grown.get_eq q hq, hadds.free hq hfree⟩

theorem Begun.continues (h : Begun c asked w topLevel part p)
    (hnext : Continues c used asked w asked' w') : Begun c asked' w' topLevel part p := by
  cases h with
  | asked seed hmem hinline hname => exact .asked seed (hnext.asked _ hmem) hinline hname
  | builtin q hinside hfree hget hinline hname =>
    exact .builtin q (hinside.trans_le hnext.adds.grown.size_le) (hnext.adds.free hinside hfree)
      (by rw [hnext.adds.grown.get_eq p hinside, hget]) hinline hname

theorem runIn_addElement_update (f : Shape Place → Shape Place) (w : Workspace) :
    (do
      let place ← addElement (some name) topLevel none
      Work.update place f
      pure place).runIn w =
    (.ok w.store.size, w.pushed (f (blankElement (some name) topLevel none))
      (if topLevel then w.target.put .elements (some name) w.store.size else w.target)) := by
  rw [Work.runIn_bind_of_ok (runIn_addElement _ _ _ w), Work.runIn_bind_of_ok (Work.runIn_update _ _ _),
    Work.runIn_pure, Workspace.pushed]
  simp only [Store.update_push]

theorem origin_part (hs : c.source.Proper) (topLevel : Bool) (part : Part) : Origin c topLevel part := by
  cases helement : part.element with
  | some q =>
    cases hfind : c.source.find? .elements (some q) with
    | none =>
      refine .undeclared _ (.element q part.name) ?_ ?_
      · simp [addPart, helement, hfind]
      · simp [inlinePart, helement, hfind]
    | some n =>
      have hmem : (Seed.element n topLevel).IsGlobal c.source :=
        List.mem_map_of_mem (f := (·.2)) (SchemaOf.mem_of_find? hfind).2
      refine .component (.element n topLevel) (hmem.isFrom hs) rfl ?_ ?_ ?_
      · simp [Seed.name, (hs.find hfind).2.component, Part.label, helement]
      · simp [addPart, helement, hfind, Seed.register]
      · simp [inlinePart, helement, hfind]
  | none =>
    have hlabel : part.label = part.name.name := by simp [Part.label, helement]
    cases htype : part.type with
    | none =>
      refine .undeclared _ (.untyped part.name) ?_ ?_
      · simp [addPart, helement, htype]
      · simp [inlinePart, helement, htype]
    | some q =>
      by_cases hbuiltin : q.isBuiltin
      · refine .builtin q hbuiltin hlabel ?_ ?_
        · simp [addPart, helement, htype, hbuiltin]
        · simp [inlinePart, helement, htype, hbuiltin]
      · cases hfind : c.source.find? .types (some q) with
        | none =>
          refine .undeclared _ (.type q part.name) ?_ ?_
          · simp [addPart, helement, htype, hbuiltin, hfind]
          · simp [inlinePart, helement, htype, hbuiltin, hfind]
        | some n =>
          have hmem : (Seed.type (some part.name.name) n topLevel).IsGlobal c.source :=
            List.mem_map_of_mem (f := (·.2)) (SchemaOf.mem_of_find? hfind).2
          refine .component (.type (some part.name.name) n topLevel) (hmem.isFrom hs) rfl ?_ ?_ ?_
          · rw [hlabel]
            rfl
          · simp [addPart, helement, htype, hbuiltin, hfind, Seed.register]
          · simp [inlinePart, helement, htype, hbuiltin, hfind]

theorem begun_addPart (hs : c.source.Proper) (h : Gathers c asked w)
    (hrun : (addPart c topLevel part).runIn w = (.ok p, w')) :
    ∃ asked', Continues c [] asked w asked' w' ∧ Begun c asked' w' topLevel part p ∧
      w'.store.Loose p ∧ w.store.size ≤ p ∧
      w'.target = if topLevel then w.target.put .elements (some part.label) p else w.target := by
  cases origin_part hs topLevel part with
  | undeclared f hf hadd hinline =>
    rw [hadd] at hrun
    cases hrun
  | component seed hfrom htop hname hadd hinline =>
    rw [hadd] at hrun
    obtain ⟨hgathers, hadds, hloose, hle, htarget⟩ := h.register hs hfrom hrun
    refine ⟨_, ⟨hgathers, fun a ha => List.mem_append_left _ ha, hadds⟩,
      .asked seed (by simp) hinline hname, hloose, hle, ?_⟩
    rw [htarget, htop, hname]
  | builtin q hbuiltin hlabel hadd hinline =>
    rw [hadd, runIn_addElement_update] at hrun
    cases hrun
    obtain ⟨hgathers, hadds, hloose⟩ := h.push (builtinElement part.name.name topLevel q)
      (if topLevel then w.target.put .elements (some part.name.name) w.store.size else w.target)
      rfl List.nodup_nil (by rintro q ⟨⟩)
    refine ⟨asked, ⟨hgathers, fun _ ha => ha, hadds⟩, .builtin q (Store.lt_size_push _ _) ?_
      (Store.get_push_size _ _) hinline hlabel, hloose, Nat.le_refl _, ?_⟩
    · exact h.tracks.sound.free_of_size_le (Nat.le_refl _)
    · rw [hlabel]
      rfl

theorem begun_addParts (hs : c.source.Proper) (h : Gathers c asked w)
    (hrun : (addParts c false parts).runIn w = (.ok places, w')) :
    ∃ asked', Continues c [] asked w asked' w' ∧ List.Forall₂ (Begun c asked' w' false) parts places ∧
      (∀ q ∈ places, w'.store.Loose q ∧ w.store.size ≤ q) ∧ places.Pairwise (· < ·) ∧
      w'.target = w.target := by
  induction parts generalizing asked w places with
  | nil =>
    cases hrun
    exact ⟨asked, .refl h, .nil, by simp, .nil, rfl⟩
  | cons part parts ih =>
    rw [addParts, List.mapM_cons] at hrun
    obtain ⟨p, w₁, hfirst, hrun⟩ := Work.runIn_bind_eq_ok.1 hrun
    obtain ⟨ps, w₂, hothers, hpure⟩ := Work.runIn_bind_eq_ok.1 hrun
    cases hpure
    obtain ⟨asked₁, hnext, hbegun, hloose, hle, htarget⟩ := begun_addPart hs h hfirst
    obtain ⟨asked₂, hrest, hbeguns, hlooses, hpairwise, htarget'⟩ := ih hnext.gathers hothers
    refine ⟨asked₂, hnext.trans hrest, .cons (hbegun.continues hrest) hbeguns, ?_, ?_,
      htarget'.trans htarget⟩
    · refine List.forall_mem_cons.2 ⟨⟨hrest.adds.loose p hloose (by simp), hle⟩, fun q hq => ?_⟩
      exact ⟨(hlooses q hq).1, hnext.adds.grown.size_le.trans (hlooses q hq).2⟩
    · exact List.pairwise_cons.2
        ⟨fun q hq => hloose.inside.trans_le (hlooses q hq).2, hpairwise⟩

theorem runIn_addWrapper (name : String) (topLevel : Bool) (items : List Place) (w : Workspace) :
    (addWrapper name topLevel items).runIn w =
      (.ok (w.store.size + 2),
        ((w.pushed (.modelGroup .sequence .once items) w.target).pushed
          (plainType [] none (some w.store.size)) w.target).pushed
            (Slot.type.fill (w.store.size + 1) (blankElement (some name) topLevel none))
            (if topLevel then w.target.put .elements (some name) (w.store.size + 2) else w.target)) := by
  rw [addWrapper, Work.runIn_bind_of_ok (Work.runIn_push _ _), Work.runIn_bind_of_ok (Work.runIn_push _ _),
    runIn_addElement_update]
  simp [Workspace.pushed]

theorem wraps_addWrapper (h : Gathers c asked w) (hnodup : items.Nodup)
    (hloose : ∀ q ∈ items, w.store.Loose q)
    (hrun : (addWrapper name topLevel items).runIn w = (.ok p, w')) :
    Continues c items asked w asked w' ∧ Wraps w' [] topLevel name items p ∧ w'.store.Loose p ∧
      w.store.size ≤ p ∧ w'.target = if topLevel then w.target.put .elements (some name) p else w.target := by
  rw [runIn_addWrapper] at hrun
  obtain ⟨h₁, hadds₁, hloose₁⟩ := h.push (.modelGroup .sequence .once items) w.target rfl hnodup
    hloose
  obtain ⟨h₂, hadds₂, hloose₂⟩ := h₁.push (plainType [] none (some w.store.size)) w.target rfl
    (List.nodup_singleton _) (by simpa [plainType, Shape.children] using hloose₁)
  obtain ⟨h₃, hadds₃, hloose₃⟩ := h₂.push
    (Slot.type.fill (w.store.size + 1) (blankElement (some name) topLevel none))
    (if topLevel then w.target.put .elements (some name) (w.store.size + 2) else w.target) rfl
    (List.nodup_singleton _)
    (by simpa [blankElement, Slot.fill, Shape.children, Workspace.pushed] using hloose₂)
  have hsize : (w.pushed (.modelGroup .sequence .once items) w.target).store.size = w.store.size + 1 := by
    simp [Workspace.pushed]
  cases hrun
  refine ⟨⟨h₃, fun _ ha => ha, ((hadds₁.trans hadds₂).trans hadds₃).weaken fun q hq hlt => ?_⟩,
    ⟨w.store.size + 1, w.store.size, ?_, ?_, ?_, fun q hq => ?_⟩, ?_, by omega, rfl⟩
  · simp only [plainType, Shape.children, blankElement, Slot.fill, Option.toList_some,
      Option.toList_none, List.nil_append, List.append_nil, List.mem_append, List.mem_singleton] at hq
    rcases hq with (hq | rfl) | rfl
    · exact hq
    · exact absurd hlt (Nat.lt_irrefl _)
    · exact absurd (Nat.lt_of_succ_lt hlt) (Nat.lt_irrefl _)
  · have hget := Store.get_push_size ((w.pushed (.modelGroup .sequence .once items) w.target).pushed
      (plainType [] none (some w.store.size)) w.target).store
      (Slot.type.fill (w.store.size + 1) (blankElement (some name) topLevel none))
    simpa [Workspace.pushed] using hget
  · rw [hadds₃.grown.get_eq _ (by simp [Workspace.pushed])]
    have hget := Store.get_push_size (w.pushed (.modelGroup .sequence .once items) w.target).store
      (plainType [] none (some w.store.size))
    simpa [Workspace.pushed] using hget
  · rw [hadds₃.grown.get_eq _ (by simp only [Workspace.pushed, Store.size_push]; omega),
      hadds₂.grown.get_eq _ (by simp [Workspace.pushed])]
    exact Store.get_push_size _ _
  · refine h.tracks.sound.free_of_size_le ?_
    simp only [List.mem_cons, List.not_mem_nil, or_false] at hq
    rcases hq with rfl | rfl | rfl <;> omega
  · simpa [Workspace.pushed] using hloose₃

theorem wraps_addEnvelope {header body : List Place} (h : Gathers c asked w)
    (hnodup : (header ++ body).Nodup) (hloose : ∀ q ∈ header ++ body, w.store.Loose q)
    (hrun : (addEnvelope header body).runIn w = (.ok (), w')) :
    ∃ top bottom root, Continues c (header ++ body) asked w asked w' ∧
      Wraps w' [] true envelopeName [top, bottom] root ∧ Wraps w' [] false headerName header top ∧
      Wraps w' [] false bodyName body bottom ∧ w'.target = w.target.put .elements (some envelopeName) root := by
  obtain ⟨hnodupHeader, hnodupBody, hdisjoint⟩ := List.nodup_append.1 hnodup
  obtain ⟨top, w₁, htop, hrun⟩ := Work.runIn_bind_eq_ok.1 hrun
  obtain ⟨bottom, w₂, hbottom, hrun⟩ := Work.runIn_bind_eq_ok.1 hrun
  obtain ⟨root, hroot⟩ := Work.runIn_discard_eq_ok.1 hrun
  obtain ⟨hnext₁, hwraps₁, hloose₁, hle₁, htarget₁⟩ :=
    wraps_addWrapper h hnodupHeader (fun q hq => hloose q (List.mem_append_left _ hq)) htop
  have hbody (q : Place) (hq : q ∈ body) : w₁.store.Loose q :=
    hnext₁.adds.loose q (hloose q (List.mem_append_right _ hq)) fun hmem => hdisjoint q hmem q hq rfl
  obtain ⟨hnext₂, hwraps₂, hloose₂, hle₂, htarget₂⟩ :=
    wraps_addWrapper hnext₁.gathers hnodupBody hbody hbottom
  have hnot : top ∉ body := fun hmem =>
    Nat.not_lt.2 hle₁ (hloose top (List.mem_append_right _ hmem)).inside
  have hne : top ≠ bottom := Nat.ne_of_lt (hloose₁.inside.trans_le hle₂)
  have hsides : ∀ q ∈ [top, bottom], w₂.store.Loose q := by
    simpa using ⟨hnext₂.adds.loose top hloose₁ hnot, hloose₂⟩
  obtain ⟨hnext₃, hwraps₃, -, -, htarget₃⟩ :=
    wraps_addWrapper hnext₂.gathers (by simpa using hne) hsides hroot
  have hnext := (hnext₁.trans hnext₂).trans hnext₃
  refine ⟨top, bottom, root, ⟨hnext.gathers, hnext.asked, hnext.adds.weaken fun q hq hlt => ?_⟩, hwraps₃,
    hwraps₁.adds (hnext₂.adds.trans hnext₃.adds), hwraps₂.adds hnext₃.adds, ?_⟩
  · rcases List.mem_append.1 hq with hq | hq
    · exact hq
    · simp only [List.mem_cons, List.not_mem_nil, or_false] at hq
      rcases hq with rfl | rfl
      · exact absurd hlt (Nat.not_lt.2 hle₁)
      · exact absurd hlt (Nat.not_lt.2 (hnext₁.adds.grown.size_le.trans hle₂))
  · rw [htarget₃, htarget₂, htarget₁]
    rfl

end Steps

/-! ## Payloads -/

/-- What is known of a workspace in which the payload of a message has been put together: where the elements
of its parts are, and how they stand in each other. -/
structure Assembled (c : Context) (m : Message) (target : SchemaOf Place) (w : Workspace)
    (asked : List (Seed × Place)) (calls header body : List Place) (root : Place) (name : String) :
    Prop where
  gathers : Gathers c asked w
  begunHeader : List.Forall₂ (Begun c asked w false) m.header header
  begunBody : List.Forall₂ (Begun c asked w m.isBare) m.body body
  stacked : Stacked (Wraps w []) m calls header body root
  nodup : (header ++ body ++ calls).Nodup
  target_eq : w.target = target.put .elements (some name) root
  titled : (∃ items, Wraps w [] true name items root) ∨ body = [root] ∧ ∀ p ∈ m.body, p.label = name

section Payloads

variable {c : Context} {m : Message} {asked : List (Seed × Place)} {header body : List Place}
  {w w₁ w' : Workspace}

private theorem nodup_of_lt {places : List Place} {bound : Place} (hpairwise : places.Pairwise (· < ·))
    (hlt : ∀ q ∈ places, q < bound) : (places ++ [bound]).Nodup := by
  refine List.nodup_append.2 ⟨hpairwise.imp Nat.ne_of_lt, List.nodup_singleton _, ?_⟩
  intro q hq x hx
  obtain rfl := List.mem_singleton.1 hx
  exact Nat.ne_of_lt (hlt q hq)

theorem header_eq_nil (h : m.hasHeader = false) : m.header = [] := by
  simpa [Message.hasHeader] using h

private theorem begun_sides (hs : c.source.Proper) (h : Gathers c asked w)
    (hheader : (addParts c false m.header).runIn w = (.ok header, w₁))
    (hbody : (addParts c false m.body).runIn w₁ = (.ok body, w')) :
    ∃ asked', Continues c [] asked w asked' w' ∧
      List.Forall₂ (Begun c asked' w' false) m.header header ∧
      List.Forall₂ (Begun c asked' w' false) m.body body ∧ (header ++ body).Pairwise (· < ·) ∧
      (∀ q ∈ header ++ body, w'.store.Loose q) ∧ w'.target = w.target := by
  obtain ⟨asked₁, hnext₁, hbegun₁, hloose₁, hpairwise₁, htarget₁⟩ := begun_addParts hs h hheader
  obtain ⟨asked₂, hnext₂, hbegun₂, hloose₂, hpairwise₂, htarget₂⟩ :=
    begun_addParts hs hnext₁.gathers hbody
  refine ⟨asked₂, hnext₁.trans hnext₂, hbegun₁.imp fun _ _ hp => hp.continues hnext₂, hbegun₂,
    List.pairwise_append.2 ⟨hpairwise₁, hpairwise₂, fun a ha b hb => ?_⟩, fun q hq => ?_,
    htarget₂.trans htarget₁⟩
  · exact (hloose₁ a ha).1.inside.trans_le (hloose₂ b hb).2
  · rcases List.mem_append.1 hq with hq | hq
    · exact hnext₂.adds.loose q (hloose₁ q hq).1 (by simp)
    · exact (hloose₂ q hq).1

private theorem begun_wrapped {name : String} {root : Place} (hs : c.source.Proper) (h : Gathers c asked w)
    (hbody : (addParts c false m.body).runIn w = (.ok body, w₁))
    (hroot : (addWrapper name true body).runIn w₁ = (.ok root, w')) :
    ∃ asked', Gathers c asked' w' ∧ List.Forall₂ (Begun c asked' w' false) m.body body ∧
      Wraps w' [] true name body root ∧ (body ++ [root]).Nodup ∧
      w'.target = w.target.put .elements (some name) root := by
  obtain ⟨asked', hnext, hbegun, hloose, hpairwise, htarget⟩ := begun_addParts hs h hbody
  obtain ⟨hnext', hwraps, -, hle, htarget'⟩ := wraps_addWrapper hnext.gathers (hpairwise.imp Nat.ne_of_lt)
    (fun q hq => (hloose q hq).1) hroot
  refine ⟨asked', hnext'.gathers, hbegun.imp fun _ _ hp => hp.continues hnext', hwraps, ?_, ?_⟩
  · exact nodup_of_lt hpairwise fun q hq => (hloose q hq).1.inside.trans_le hle
  · rw [htarget', htarget]
    rfl

/-! One theorem for each way in which a payload is put together. -/

private theorem assembled_call (hs : c.source.Proper) (h : Gathers c [] w) (hstyle : m.style = .rpc)
    (hheader : m.hasHeader = false) (hrun : (addPayload c m).runIn w = (.ok (), w')) :
    ∃ asked calls header body root name,
      Assembled c m w.target w' asked calls header body root name := by
  have hbare : m.isBare = false := by simp [Message.isBare, hstyle]
  simp only [addPayload, hstyle, hheader] at hrun
  obtain ⟨body, w₁, hbody, hrun⟩ := Work.runIn_bind_eq_ok.1 hrun
  obtain ⟨root, hroot⟩ := Work.runIn_discard_eq_ok.1 hrun
  obtain ⟨asked, hgathers, hbegun, hwraps, hnodup, htarget⟩ := begun_wrapped hs h hbody hroot
  refine ⟨asked, [root], [], body, root, _, hgathers, ?_, by rwa [hbare], ?_, hnodup, htarget,
    .inl ⟨_, hwraps⟩⟩
  · rw [header_eq_nil hheader]
    exact .nil
  · simpa [Stacked, hstyle, hheader] using hwraps

private theorem assembled_envelopedCall (hs : c.source.Proper) (h : Gathers c [] w) (hstyle : m.style = .rpc)
    (hheader : m.hasHeader = true) (hrun : (addPayload c m).runIn w = (.ok (), w')) :
    ∃ asked calls header body root name,
      Assembled c m w.target w' asked calls header body root name := by
  have hbare : m.isBare = false := by simp [Message.isBare, hstyle]
  simp only [addPayload, hstyle, hheader] at hrun
  obtain ⟨header, w₁, hfirst, hrun⟩ := Work.runIn_bind_eq_ok.1 hrun
  obtain ⟨body, w₂, hsecond, hrun⟩ := Work.runIn_bind_eq_ok.1 hrun
  obtain ⟨call, w₃, hcall, henvelope⟩ := Work.runIn_bind_eq_ok.1 hrun
  obtain ⟨asked, hnext, hbegunHeader, hbegunBody, hpairwise, hloose, htarget⟩ :=
    begun_sides hs h hfirst hsecond
  obtain ⟨hnodupHeader, hnodupBody, hdisjoint⟩ := List.nodup_append.1 (hpairwise.imp Nat.ne_of_lt)
  obtain ⟨hnext₁, hwraps, hlooseCall, hle, htarget₁⟩ := wraps_addWrapper hnext.gathers hnodupBody
    (fun q hq => hloose q (List.mem_append_right _ hq)) hcall
  -- the call is new, so it is neither in the header nor in the body
  have hlt (q : Place) (hq : q ∈ header ++ body) : q < call := (hloose q hq).inside.trans_le hle
  have hsides : ∀ q ∈ header ++ [call], w₃.store.Loose q := by
    refine List.forall_mem_append.2 ⟨fun q hq => ?_, by simpa using hlooseCall⟩
    exact hnext₁.adds.loose q (hloose q (List.mem_append_left _ hq)) fun hmem => hdisjoint q hq q hmem rfl
  obtain ⟨top, bottom, root, hnext₂, hroot, htop, hbottom, htarget₂⟩ :=
    wraps_addEnvelope hnext₁.gathers (nodup_of_lt (List.pairwise_append.1 hpairwise).1
      fun q hq => hlt q (List.mem_append_left _ hq)) hsides henvelope
  have hrest := hnext₁.trans hnext₂
  refine ⟨asked, [call], header, body, root, _, hnext₂.gathers,
    hbegunHeader.imp fun _ _ hp => hp.continues hrest, ?_, ?_, nodup_of_lt hpairwise hlt, ?_, .inl ⟨_, hroot⟩⟩
  · rw [hbare]
    exact hbegunBody.imp fun _ _ hp => hp.continues hrest
  · simp only [Stacked, hstyle, hheader]
    exact ⟨top, bottom, call, rfl, hroot, htop, hbottom, hwraps.adds hnext₂.adds⟩
  · rw [htarget₂, htarget₁, htarget]
    rfl

private theorem assembled_envelope (hs : c.source.Proper) (h : Gathers c [] w) (hstyle : m.style = .document)
    (hheader : m.hasHeader = true) (hrun : (addPayload c m).runIn w = (.ok (), w')) :
    ∃ asked calls header body root name,
      Assembled c m w.target w' asked calls header body root name := by
  have hbare : m.isBare = false := by simp [Message.isBare, hheader]
  simp only [addPayload, hstyle, hheader] at hrun
  obtain ⟨header, w₁, hfirst, hrun⟩ := Work.runIn_bind_eq_ok.1 hrun
  obtain ⟨body, w₂, hsecond, henvelope⟩ := Work.runIn_bind_eq_ok.1 hrun
  obtain ⟨asked, hnext, hbegunHeader, hbegunBody, hpairwise, hloose, htarget⟩ :=
    begun_sides hs h hfirst hsecond
  have hnodup : (header ++ body).Nodup := hpairwise.imp Nat.ne_of_lt
  obtain ⟨top, bottom, root, hnext₁, hroot, htop, hbottom, htarget₁⟩ :=
    wraps_addEnvelope hnext.gathers hnodup hloose henvelope
  refine ⟨asked, [], header, body, root, _, hnext₁.gathers,
    hbegunHeader.imp fun _ _ hp => hp.continues hnext₁, ?_, ?_, by simpa using hnodup, ?_, .inl ⟨_, hroot⟩⟩
  · rw [hbare]
    exact hbegunBody.imp fun _ _ hp => hp.continues hnext₁
  · simp only [Stacked, hstyle, hheader]
    exact ⟨trivial, top, bottom, hroot, htop, hbottom⟩
  · rw [htarget₁, htarget]

private theorem assembled_bare (hs : c.source.Proper) (h : Gathers c [] w) (hstyle : m.style = .document)
    (hheader : m.hasHeader = false) (hone : m.body.length = 1)
    (hrun : (addPayload c m).runIn w = (.ok (), w')) :
    ∃ asked calls header body root name,
      Assembled c m w.target w' asked calls header body root name := by
  have hbare : m.isBare = true := by simp [Message.isBare, hstyle, hheader, hone]
  simp only [addPayload, hstyle, hheader] at hrun
  rw [if_pos hone] at hrun
  obtain ⟨part, hpart⟩ := List.length_eq_one_iff.1 hone
  obtain ⟨body, hbody⟩ := Work.runIn_discard_eq_ok.1 hrun
  rw [hpart, addParts, List.mapM_cons] at hbody
  obtain ⟨root, w₁, hroot, hbody⟩ := Work.runIn_bind_eq_ok.1 hbody
  obtain ⟨asked, hnext, hbegun, -, -, htarget⟩ := begun_addPart hs h hroot
  cases hbody
  refine ⟨asked, [], [], [root], root, part.label, hnext.gathers, ?_, ?_, ?_, by simp, by simpa using htarget,
    .inr ⟨rfl, by simp [hpart]⟩⟩
  · rw [header_eq_nil hheader]
    exact .nil
  · rw [hbare, hpart]
    exact .cons hbegun .nil
  · simp [Stacked, hstyle, hheader, hone]

private theorem assembled_wrapped (hs : c.source.Proper) (h : Gathers c [] w) (hstyle : m.style = .document)
    (hheader : m.hasHeader = false) (hone : m.body.length ≠ 1)
    (hrun : (addPayload c m).runIn w = (.ok (), w')) :
    ∃ asked calls header body root name,
      Assembled c m w.target w' asked calls header body root name := by
  have hbare : m.isBare = false := by simp [Message.isBare, hone]
  simp only [addPayload, hstyle, hheader] at hrun
  rw [if_neg hone] at hrun
  obtain ⟨body, w₁, hbody, hrun⟩ := Work.runIn_bind_eq_ok.1 hrun
  obtain ⟨root, hroot⟩ := Work.runIn_discard_eq_ok.1 hrun
  obtain ⟨asked, hgathers, hbegun, hwraps, hnodup, htarget⟩ := begun_wrapped hs h hbody hroot
  refine ⟨asked, [], [], body, root, _, hgathers, ?_, by rwa [hbare], ?_, ?_, htarget, .inl ⟨_, hwraps⟩⟩
  · rw [header_eq_nil hheader]
    exact .nil
  · simpa [Stacked, hstyle, hheader, hone] using hwraps
  · simpa using (List.nodup_append.1 hnodup).1

theorem assembled_addPayload (hs : c.source.Proper) (h : Gathers c [] w)
    (hrun : (addPayload c m).runIn w = (.ok (), w')) :
    ∃ asked calls header body root name,
      Assembled c m w.target w' asked calls header body root name := by
  cases hstyle : m.style with
  | rpc =>
    cases hheader : m.hasHeader with
    | false => exact assembled_call hs h hstyle hheader hrun
    | true => exact assembled_envelopedCall hs h hstyle hheader hrun
  | document =>
    cases hheader : m.hasHeader with
    | true => exact assembled_envelope hs h hstyle hheader hrun
    | false =>
      by_cases hone : m.body.length = 1
      · exact assembled_bare hs h hstyle hheader hone hrun
      · exact assembled_wrapped hs h hstyle hheader hone hrun

end Payloads

end PayloadSchema.Payload
