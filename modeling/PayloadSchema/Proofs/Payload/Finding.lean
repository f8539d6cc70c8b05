import Mathlib.Data.List.Perm.Subperm
import PayloadSchema.Proofs.Extraction.Termination
import PayloadSchema.Proofs.Payload.Shape

/-!
# Marks are found

The elements that are to be marked stand in the first three levels below the top of a payload, or at the top of
it.  As many of them have a name as there are marks for it, so one is left for every mark, whatever elements the
earlier marks were put on.  A search that goes further down never gets that far.
-/

namespace PayloadSchema.Payload

open Schema Extraction

/-! ## The search -/

def searched (w : Workspace) : (depth : Nat) → List Place → List Place
  | 0, _ => []
  | depth + 1, level => level ++ searched w depth (level.flatMap (childElements w))

section Search

variable {w : Workspace} {name : String} {marked level : List Place} {p q : Place} {depth least : Nat}

theorem isNamed_iff : isNamed w name p = true ↔ (w.store.get p).name? = some name := by
  rw [isNamed, Shape.name?, shapeAt]
  cases (w.store.get p).component? with
  | none => simp
  | some c => simp

theorem searched_nil (w : Workspace) (depth : Nat) : searched w depth [] = [] := by
  induction depth with
  | zero => rfl
  | succ depth ih => simpa [searched] using ih

theorem findBelow?_eq (w : Workspace) (name : String) (marked : List Place) (depth : Nat)
    (level : List Place) :
    findBelow? w name marked depth level =
      (searched w depth level).find? fun p => isNamed w name p && p ∉ marked := by
  induction depth generalizing level with
  | zero => rfl
  | succ depth ih =>
    rw [findBelow?, searched, List.find?_append]
    split
    · rename_i hempty
      obtain rfl := List.isEmpty_iff.1 hempty
      simp [searched_nil]
    · split
      · rename_i p hp
        rw [hp, Option.some_or]
      · rename_i hnone
        rw [hnone, Option.none_or, ih]

theorem searched_mono (h : least ≤ depth) (level : List Place) :
    searched w least level <+: searched w depth level := by
  induction least generalizing depth level with
  | zero => exact List.nil_prefix
  | succ least ih =>
    obtain ⟨depth, rfl⟩ : ∃ d, depth = d + 1 := ⟨depth - 1, by omega⟩
    exact List.prefix_append_right_inj _ |>.2 (ih (by omega) _)

theorem childElements_wraps {attributes items : List Place} {topLevel : Bool}
    (h : Wraps w attributes topLevel name items p)
    (hitems : ∀ q ∈ items, ShowsElement w q) : childElements w p = items := by
  obtain ⟨t, s, hp, ht, hs, -⟩ := h
  have hsequence : (shapeAt w t).sequence? (shapeAt w) = some items := by
    simp only [shapeAt, ht, plainType, Shape.sequence?, hs]
  rw [childElements, shapeAt, hp]
  simp only [blankElement, Slot.fill, Shape.ownType?, hsequence, Option.getD_some]
  exact List.filter_eq_self.2 fun q hq => decide_eq_true (hitems q hq).kind

end Search

/-! ## The elements that are to be marked -/

section Marked

variable {m : Message} {target : SchemaOf Place} {w w' : Workspace} {calls header body : List Place} {root p : Place}
  {name space elementForm attributeForm : String} {marked : List Place} {names done : List QName}

theorem exists_filter {α β : Type} {relates : α → β → Prop} {as : List α} {bs : List β} {keep : α → Bool}
    (h : List.Forall₂ (fun a b => keep a → relates a b) as bs) :
    ∃ kept, kept.Sublist bs ∧ List.Forall₂ relates (as.filter keep) kept := by
  induction h with
  | nil => exact ⟨[], .slnil, .nil⟩
  | @cons a b as bs hab _ ih =>
    obtain ⟨kept, hsub, hkept⟩ := ih
    by_cases ha : keep a
    · exact ⟨b :: kept, hsub.cons_cons b, by rw [List.filter_cons_of_pos ha]; exact .cons (hab ha) hkept⟩
    · exact ⟨kept, hsub.cons b, by rw [List.filter_cons_of_neg ha]; exact hkept⟩

theorem StandsMarked.name? {items : List Place} {topLevel : Bool}
    (h : StandsMarked w topLevel name items p) : (w.store.get p).name? = some name := by
  obtain ⟨_, ⟨_, _, hget, -⟩, -⟩ := h
  rw [hget]
  rfl

theorem StandsMarked.shows {items : List Place} {topLevel : Bool}
    (h : StandsMarked w topLevel name items p) : ShowsElement w p := by
  obtain ⟨_, -, hshows⟩ := h
  exact hshows

theorem StandsMarked.childElements {items : List Place} {topLevel : Bool}
    (h : StandsMarked w topLevel name items p) (hitems : ∀ q ∈ items, ShowsElement w q) :
    childElements w p = items := by
  obtain ⟨_, hwraps, -⟩ := h
  exact childElements_wraps hwraps hitems

theorem exists_targets
    (h : Laid (StandsMarked w) (Named w) m target w calls header body root name) :
    ∃ targets, targets.Nodup ∧ (∀ p ∈ targets, p ∈ header ++ body ++ calls) ∧
      List.Forall₂ (fun q p => (w.store.get p).name? = some q.name) (markedNames m) targets := by
  have hnamed {topLevel : Bool} {parts : List Part} {places : List Place}
      (hplaces : List.Forall₂ (Named w topLevel) parts places) :
      List.Forall₂ (fun part p => isMarked part → (w.store.get p).name? = some part.name.name) parts places :=
    hplaces.imp fun part p hp hmarked => by
      rw [Shape.name?, hp.component, Option.bind_some, Part.label, Option.isNone_iff_eq_none.1 hmarked]
  obtain ⟨kept, hsub, hkept⟩ :=
    exists_filter (List.rel_append (hnamed h.header_stands) (hnamed h.body_stands))
  have hmem (p : Place) (hp : p ∈ kept ++ calls) : p ∈ header ++ body ++ calls :=
    (hsub.append (.refl calls)).subset hp
  have hnodup : (kept ++ calls).Nodup := h.nodup.sublist (hsub.append (.refl calls))
  have hparts : List.Forall₂ (fun q p => (w.store.get p).name? = some q.name)
      (((m.header ++ m.body).filter isMarked).map (·.name)) kept := List.forall₂_map_left_iff.2 hkept
  refine ⟨calls ++ kept, List.nodup_append_comm.1 hnodup, fun p hp => hmem p (by simpa [or_comm] using hp), ?_⟩
  have hstacked := h.stacked
  rw [markedNames]
  unfold Stacked at hstacked
  split at hstacked <;> rename_i hstyle hhas <;> simp only [hstyle]
  · obtain ⟨rfl, hroot⟩ := hstacked
    exact .cons hroot.name? hparts
  · obtain ⟨_, _, call, rfl, -, -, -, hcall⟩ := hstacked
    exact .cons hcall.name? hparts
  · obtain ⟨rfl, -⟩ := hstacked
    exact hparts
  · obtain ⟨rfl, -⟩ := hstacked
    exact hparts

/-- The elements that stand in a payload are at the top of it or in the three levels below. -/
theorem mem_searched (h : Laid (StandsMarked w) (Named w) m target w calls header body root name)
    (hp : p ∈ header ++ body ++ calls) : p = root ∨ p ∈ searched w 3 (childElements w root) := by
  have hshows {topLevel : Bool} {parts : List Part} {places : List Place}
      (hplaces : List.Forall₂ (Named w topLevel) parts places) : ∀ q ∈ places, ShowsElement w q := by
    intro q hq
    obtain ⟨part, -, hnamed⟩ := exists_of_forall₂ hplaces hq
    exact hnamed.shows
  have hheader := hshows h.header_stands
  have hbody := hshows h.body_stands
  have hempty (hhas : m.hasHeader = false) : header = [] := by
    have hheader := h.header_stands
    rw [header_eq_nil hhas] at hheader
    cases hheader
    rfl
  have hstacked := h.stacked
  unfold Stacked at hstacked
  split at hstacked <;> rename_i hstyle hhas
  · obtain ⟨rfl, hroot⟩ := hstacked
    simp only [hempty hhas, List.nil_append, List.mem_append, List.mem_singleton] at hp
    simp only [searched, hroot.childElements hbody, List.mem_append]
    exact hp.symm.imp_right .inl
  · obtain ⟨top, bottom, call, rfl, hroot, htop, hbottom, hcall⟩ := hstacked
    have hsides := hroot.childElements (by simpa using ⟨htop.shows, hbottom.shows⟩)
    have hcalls := hbottom.childElements (by simpa using hcall.shows)
    simp only [searched, hsides, List.flatMap_cons, List.flatMap_nil, htop.childElements hheader, hcalls,
      hcall.childElements hbody, List.flatMap_append, List.mem_append, List.mem_singleton] at hp ⊢
    rcases hp with (hp | hp) | hp
    · simp [hp]
    · simp [hp]
    · simp [hp]
  · obtain ⟨rfl, top, bottom, hroot, htop, hbottom⟩ := hstacked
    have hsides := hroot.childElements (by simpa using ⟨htop.shows, hbottom.shows⟩)
    simp only [searched, hsides, List.flatMap_cons, List.flatMap_nil, htop.childElements hheader,
      hbottom.childElements hbody, List.append_nil, List.mem_append] at hp ⊢
    exact .inr (.inr (.inl hp))
  · obtain ⟨rfl, hbare⟩ := hstacked
    simp only [hempty hhas, List.nil_append, List.append_nil] at hp
    split at hbare
    · rw [hbare, List.mem_singleton] at hp
      exact .inl hp
    · simp only [searched, hbare.childElements hbody, List.mem_append]
      exact .inr (.inl hp)

/-- Of places with distinct positions as many have a name as the names say.  So one is left when fewer have been
marked. -/
theorem exists_left {targets : List Place} {f : Place → Option String} {all : List QName} {q : QName}
    {rest : List QName} (hnodup : targets.Nodup)
    (htargets : List.Forall₂ (fun q p => f p = some q.name) all targets) (hall : all = done.reverse ++ q :: rest)
    (hmarked : List.Forall₂ (fun q p => f p = some q.name) done marked) :
    ∃ p ∈ targets, f p = some q.name ∧ p ∉ marked := by
  have hcount {names : List QName} {places : List Place}
      (h : List.Forall₂ (fun q p => f p = some q.name) names places) :
      (places.filter fun p => f p = some q.name).length =
        (names.filter fun r => r.name = q.name).length := by
    induction h with
    | nil => rfl
    | @cons r p names places hr _ ih =>
      by_cases hrq : r.name = q.name
      · simp [hr, hrq, ih]
      · simp [hr, hrq, ih]
  by_contra hnone
  have hsub : (targets.filter fun p => f p = some q.name) ⊆ marked.filter fun p => f p = some q.name := by
    intro p hp
    obtain ⟨hp, hname⟩ := List.mem_filter.1 hp
    refine List.mem_filter.2 ⟨?_, hname⟩
    by_contra hnew
    exact hnone ⟨p, hp, of_decide_eq_true hname, hnew⟩
  have hle := (List.Nodup.subperm (hnodup.filter _) hsub).length_le
  rw [hcount htargets, hcount hmarked, hall, List.filter_append, List.length_append, List.filter_reverse,
    List.length_reverse, List.filter_cons_of_pos (by simp), List.length_cons] at hle
  omega

/-- A payload has an element of a name that is left for a mark if it has more of them than have been marked, and
the one that is found is the same however far the search may go beyond the third level. -/
theorem exists_find? {q : QName} {rest : List QName}
    (h : Laid (StandsMarked w) (Named w) m (.empty space elementForm attributeForm) w calls header body root
      name)
    (hnames : markedNames m = done.reverse ++ q :: rest)
    (hmarked : List.Forall₂ (fun q p => (w.store.get p).name? = some q.name) done marked) :
    ∃ p, (w.store.get p).name? = some q.name ∧ ∀ depth ≥ 3, find? w q.name depth marked = .ok (some p) := by
  obtain ⟨targets, hnodup, hmem, htargets⟩ := exists_targets h
  obtain ⟨p, hp, hname, hnew⟩ := exists_left hnodup htargets hnames hmarked
  have helements : w.target.elements = [(some name, root)] := by
    rw [h.target_eq]
    rfl
  cases hfirst : (w.target.elements.get? (some q.name)).filter (· ∉ marked) with
  | some p' =>
    obtain ⟨hget, -⟩ := Option.filter_eq_some_iff.1 hfirst
    have hroot := Table.mem_of_get? hget
    rw [helements, List.mem_singleton, Prod.mk.injEq] at hroot
    refine ⟨p', ?_, fun depth _ => by rw [find?, hfirst]⟩
    rw [hroot.1, hroot.2, h.titled]
  | none =>
    have hbelow : p ∈ searched w 3 (childElements w root) := by
      refine (mem_searched h (hmem p hp)).resolve_left fun hroot => ?_
      subst hroot
      cases hname.symm.trans h.titled
      rw [helements] at hfirst
      simp [Table.get?, hnew] at hfirst
    have htop : w.target.elements.values.flatMap (childElements w) = childElements w root := by
      simp [helements, Table.values]
    have hfind (depth : Nat) : find? w q.name depth marked =
        .ok ((searched w depth (childElements w root)).find? fun p => isNamed w q.name p && p ∉ marked) := by
      have hall : w.target.elements.values.all fun p => (shapeAt w p).ownType?.isSome := by
        obtain ⟨c, d, own, hget⟩ := Shape.exists_of_kind_element h.top.kind
        simp [helements, Table.values, shapeAt, hget, Shape.ownType?]
      rw [find?, hfirst]
      simp only [hall, if_true, htop, findBelow?_eq]
    obtain ⟨p', hp'⟩ : ∃ p', (searched w 3 (childElements w root)).find?
        (fun p => isNamed w q.name p && p ∉ marked) = some p' := by
      refine Option.isSome_iff_exists.1 (List.find?_isSome.2 ⟨p, hbelow, ?_⟩)
      simp [isNamed_iff.2 hname, hnew]
    refine ⟨p', ?_, fun depth hdepth => ?_⟩
    · have hfits := List.find?_some hp'
      rw [Bool.and_eq_true] at hfits
      exact isNamed_iff.1 hfits.1
    · rw [hfind, (searched_mono hdepth _).find?_eq_some hp']

end Marked

/-! ## The marks -/

section Settle

variable {m : Message} {w w' : Workspace} {calls header body : List Place} {root p : Place}
  {name space elementForm attributeForm : String} {marked : List Place} {names done : List QName}
  {depth : Nat}

theorem name?_spares (hspares : w.store.Spares w'.store) (h : (w.store.get p).name? = some name) :
    (w'.store.get p).name? = some name := by
  have hinside : p < w.store.size := by
    by_contra hle
    rw [Store.get_of_size_le (Nat.not_lt.1 hle)] at h
    cases h
  rw [Shape.name?, hspares.component p hinside]
  exact h

/-- The marks of a payload are the same for all depths from three on, and they are all made. -/
theorem markAll_settles (hdepth : 3 ≤ depth)
    (h : Laid (StandsMarked w) (Named w) m (.empty space elementForm attributeForm) w calls header body root
      name)
    (hnames : markedNames m = done.reverse ++ names)
    (hmarked : List.Forall₂ (fun q p => (w.store.get p).name? = some q.name) done marked) :
    (markAll depth marked names).runIn w = (markAll 3 marked names).runIn w ∧
      ∃ w', (markAll 3 marked names).runIn w = (.ok (), w') := by
  induction names generalizing w done marked with
  | nil => exact ⟨rfl, w, rfl⟩
  | cons q names ih =>
    obtain ⟨p, hname, hfind⟩ := exists_find? h hnames hmarked
    have hp := showsElement_of_find? h.onTop (hfind 3 (Nat.le_refl 3))
    obtain ⟨w₁, hmark, hkeeps⟩ := exists_mark q.space hp.shows hp.kind
    obtain ⟨hspares, hitems⟩ := spares_mark hp hmark
    rw [runIn_markAll_cons, runIn_markAll_cons, hfind depth hdepth, hfind 3 (Nat.le_refl 3)]
    simp only [Work.runIn_bind, hmark]
    exact ih (h.leaves ⟨hspares, hkeeps, hitems⟩) (by simp [hnames])
      (.cons (name?_spares hspares hname) (hmarked.imp fun _ _ hname => name?_spares hspares hname))

end Settle

/-! ## Synthesis -/

section Synthesis

variable {c : Context} {m : Message} {settings : Settings} {source : Schema} {f : Fault}
  {w w' : Workspace} {topLevel : Bool} {part : Part} {parts : List Part} {depth : Nat}

def Found (f : Fault) : Prop :=
  ∀ p, f = .problem p → p.errorClass ≠ .namespaceTarget

theorem found_problem {p : Problem} (h : p.errorClass ≠ .namespaceTarget) : Found (.problem p) := by
  rintro _ ⟨⟩
  exact h

theorem found_inMessage (h : Found f) : Found (inMessage m f) := by
  cases f with
  | problem p =>
    rintro _ ⟨⟩
    exact h p rfl
  | badValue | wrongNode | unknownEncoding => rintro _ ⟨⟩

theorem Undeclared.found (h : Undeclared f) : Found f := by
  cases h <;> exact found_problem (by simp [Problem.errorClass])

theorem failsWith_addPart (hs : c.source.Proper) : Work.FailsWith Undeclared (addPart c topLevel part) := by
  cases origin_part hs topLevel part with
  | undeclared f hf hadd _ =>
    rw [hadd]
    exact Work.failsWith_throw hf
  | component seed hfrom _ _ hadd _ =>
    rw [hadd]
    intro w f w' hfails
    obtain ⟨w'', hregister, -⟩ := register_spec hs hfrom w
    cases hfails.symm.trans hregister
  | builtin q _ _ hadd _ =>
    rw [hadd]
    exact Work.failsWith_of_ok fun w => runIn_addElement_update _ w

theorem failsWith_addParts (hs : c.source.Proper) :
    Work.FailsWith Undeclared (addParts c topLevel parts) :=
  Work.FailsWith.mapM fun _ _ => failsWith_addPart hs

theorem failsWith_addPayload (hs : c.source.Proper) : Work.FailsWith Undeclared (addPayload c m) := by
  have hwrapper (name : String) (topLevel : Bool) (items : List Place) :
      Work.FailsWith Undeclared (addWrapper name topLevel items) :=
    Work.failsWith_of_ok fun w => runIn_addWrapper name topLevel items w
  have hdiscard {α : Type} {m : Work α} (h : Work.FailsWith Undeclared m) : Work.FailsWith Undeclared (discard m) :=
    h.bind fun _ => Work.failsWith_of_ok fun w => Work.runIn_pure _ w
  have henvelope (header body : List Place) : Work.FailsWith Undeclared (addEnvelope header body) :=
    (hwrapper _ _ _).bind fun _ => (hwrapper _ _ _).bind fun _ => hdiscard (hwrapper _ _ _)
  rw [addPayload]
  split
  · exact (failsWith_addParts hs).bind fun body => hdiscard (hwrapper _ _ _)
  · exact (failsWith_addParts hs).bind fun header => (failsWith_addParts hs).bind fun body =>
      (hwrapper _ _ _).bind fun call => henvelope _ _
  · exact (failsWith_addParts hs).bind fun header => (failsWith_addParts hs).bind fun body => henvelope _ _
  · split
    · exact hdiscard (failsWith_addParts hs)
    · exact (failsWith_addParts hs).bind fun body => hdiscard (hwrapper _ _ _)

theorem drain_fault (hs : c.source.Proper) (hw : w.Traced c.source)
    (h : (drain c).runIn w = (.error f, w')) : f = .problem (.workLimit c.limit) ∨ Intrinsic c.source f := by
  have hleads : Leads (Workspace.Traced c.source)
      (fun f => f = .problem (.workLimit c.limit) ∨ Intrinsic c.source f)
      ((drainWithin c (c.limit - w.handled)).runIn w) := by
    refine leads_drainWithin (fun hw hnext hrun => ?_) (fun hw hnext i hi => ?_) hw _
    · obtain ⟨htraced, -, -, hintrinsic⟩ := handle_spec hs hw (items_of_next? hnext) rfl hrun
      exact ⟨htraced, hintrinsic⟩
    · exact hw i (by rw [items_of_next? hnext]; exact List.mem_cons_of_mem _ hi)
  rw [drain, Work.runIn_bind_of_ok (Work.runIn_get w)] at h
  rw [h] at hleads
  exact hleads.fair f rfl

theorem found_drain (hs : c.source.Proper) (hw : w.Traced c.source)
    (h : (drain c).runIn w = (.error f, w')) : Found f := by
  rcases drain_fault hs hw h with rfl | hintrinsic
  · exact found_problem (by simp [Problem.errorClass])
  · exact hintrinsic.found

def buildWithin (c : Context) (m : Message) (depth : Nat) : Work Schema := do
  addPayload c m
  drain c
  markAll depth [] (markedNames m)
  pure (← get).schema

/-- With a depth from three on a payload schema is built as with a depth of three, and every mark is found. -/
theorem buildWithin_settles (hs : c.source.Proper) (hdepth : 3 ≤ depth) :
    (buildWithin c m depth).runIn (start c.source) = (buildWithin c m 3).runIn (start c.source) ∧
      ∀ f w, (buildWithin c m 3).runIn (start c.source) = (.error f, w) → Found f := by
  simp only [buildWithin, Work.runIn_bind]
  match hadd : (addPayload c m).runIn (start c.source) with
  | (.error f, w₁) =>
    refine ⟨rfl, ?_⟩
    rintro _ _ ⟨⟩
    exact (failsWith_addPayload hs _ f w₁ hadd).found
  | (.ok _, w₁) =>
    obtain ⟨asked, calls, header, body, root, name, hassembled⟩ :=
      assembled_addPayload hs (gathers_ofForms c _ _ _) hadd
    dsimp only
    match hdrain : (drain c).runIn w₁ with
    | (.error f, w₂) =>
      refine ⟨rfl, ?_⟩
      rintro _ _ ⟨⟩
      exact found_drain hs hassembled.gathers.traced hdrain
    | (.ok _, w₂) =>
      have hlaid := (laid_drain hs hassembled hdrain).named hs
      have hnames : markedNames m = [].reverse ++ markedNames m := rfl
      obtain ⟨hsame, w₃, hmark⟩ := markAll_settles hdepth hlaid hnames .nil
      dsimp only
      rw [hsame, hmark]
      refine ⟨rfl, ?_⟩
      rintro _ _ ⟨⟩

theorem synthesize_settles (hread : ∀ s ∈ m.schemas, IsRead s) (settings : Settings) (log : Array Log.Entry)
    (hdepth : 3 ≤ depth) :
    (synthesize { settings with searchDepth := depth } m).run.run log =
        (synthesize { settings with searchDepth := 3 } m).run.run log ∧
      ∀ f, ((synthesize { settings with searchDepth := 3 } m).run.run log).1 = .error f → Found f := by
  rw [run_synthesize, run_synthesize]
  cases hsource : m.source with
  | error p =>
    refine ⟨rfl, ?_⟩
    rintro _ ⟨⟩
    rw [Message.source] at hsource
    split at hsource <;> cases hsource
    exact found_problem (by simp [Problem.errorClass])
  | ok source =>
    have hs : (context settings source).source.Proper := proper_source hread hsource
    obtain ⟨hsame, hfound⟩ := buildWithin_settles (m := m) hs hdepth
    replace hsame : (build { settings with searchDepth := depth } m source).runIn (start source) =
        (build { settings with searchDepth := 3 } m source).runIn (start source) := hsame
    by_cases huse : m.use = .encoded
    · simp only [huse, if_true]
      refine ⟨trivial, ?_⟩
      rintro _ ⟨⟩
      exact found_problem (by simp [Problem.errorClass])
    · simp only [huse, if_false, runIn_writePayload, hsame]
      refine ⟨rfl, fun f hf => ?_⟩
      rcases hbuild : (build { settings with searchDepth := 3 } m source).runIn (start source) with ⟨r, w⟩
      cases r with
      | error f' =>
        rw [hbuild] at hf
        cases hf
        exact found_inMessage (hfound f' w hbuild)
      | ok s =>
        rw [hbuild] at hf
        rcases write_cases hs hbuild with ⟨-, text, htext⟩ | ⟨-, hwrite⟩
        · simp only [Except.bind, htext] at hf
          cases hf
        · simp only [Except.bind, hwrite] at hf
          cases hf
          exact found_inMessage (by rintro _ ⟨⟩)

/-- Every mark is found when at least three levels are searched: no synthesis ends with the fault that an element
is missing, and whether it ends with a text or with a fault, it is the same for all such depths. -/
theorem synthesize_finds (hread : ∀ s ∈ m.schemas, IsRead s) (settings : Settings) (log : Array Log.Entry)
    {d : Nat} (hd : 3 ≤ d) :
    (∀ p, ((synthesize { settings with searchDepth := d } m).run.run log).1 = .error (.problem p) →
        p.errorClass ≠ .namespaceTarget) ∧
      ∀ d' ≥ 3, (synthesize { settings with searchDepth := d' } m).run.run log =
        (synthesize { settings with searchDepth := d } m).run.run log := by
  obtain ⟨hsame, hfound⟩ := synthesize_settles hread settings log hd
  refine ⟨fun p hp => ?_, fun d' hd' => ?_⟩
  · rw [hsame] at hp
    exact hfound _ hp p rfl
  · rw [hsame, (synthesize_settles hread settings log hd').1]

/-- The sample is synthesized in the same way when seven levels are searched. -/
theorem synthesize_finds_sample :
    3 ≤ 7 ∧ (synthesize { Settings.standard with searchDepth := 7 } sampleMessage).run.run #[] =
      (synthesize .standard sampleMessage).run.run #[] :=
  ⟨by decide, (synthesize_finds isRead_sampleMessage .standard #[] (Nat.le_refl 3)).2 7 (by decide)⟩

end Synthesis

end PayloadSchema.Payload
