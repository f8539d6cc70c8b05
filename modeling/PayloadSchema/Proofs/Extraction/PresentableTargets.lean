import PayloadSchema.Proofs.Extraction.NoReferences
import PayloadSchema.Proofs.Extraction.WritableWorkspaces
import PayloadSchema.Proofs.Written.Agreement

/-!
# Targets that can be presented

What is extracted from a schema that has been read, and marked afterwards, is presented by its target: each element
stands there once and under its own name, and nothing is lost of it when it is written.
-/

namespace PayloadSchema.Schema

/-! ## Sources -/

section Sources

variable {ok : Char → Prop} {s : Schema}

/-- Where every bound that has been read has a lower end, everything can be written and read. -/
theorem WellRead.definite (hs : s.WellRead ok) (hbounded : ∀ n ∈ s.nodes, ∀ o ∈ n.shape.occurs?, o.min.isSome) :
    s.Definite ok :=
  ⟨hs.toProper, fun n hn => ⟨(hn.built hs.legible).here, hbounded n (mem_nodes.2 hn)⟩⟩

end Sources

end PayloadSchema.Schema

namespace PayloadSchema.Extraction

open Schema Payload

/-! ## Targets -/

/-- A workspace of lasting constructs whose target presents its elements, each once and under its own name, and says
nothing of itself that cannot be written. -/
structure Workspace.Presents (ok : Char → Prop) (w : Workspace) : Prop extends w.Lasting ok where
  title : ∀ e ∈ w.target.elements, e.2 < w.store.size ∧ (w.store.get e.2).title? = some e.1
  keyed : (w.target.elements.map (·.1)).Nodup
  space : Carried ok w.target.space
  elementForm : Carried ok w.target.elementForm
  attributeForm : Carried ok w.target.attributeForm

section Presents

variable {ok : Char → Prop} {c : Context} {w w' : Workspace} {seed : Seed} {seeds : List Seed} {roots : List Place}

theorem presents_ofForms {space elementForm attributeForm : String} (hspace : Carried ok space)
    (helement : Carried ok elementForm) (hattribute : Carried ok attributeForm) :
    (Workspace.ofForms space elementForm attributeForm).Presents ok where
  store := Store.lasting_empty
  waits := fun _ hi => by cases hi
  title := fun _ he => by cases he
  keyed := List.nodup_nil
  space := hspace
  elementForm := helement
  attributeForm := hattribute

theorem Retains.presents (h : Retains ok w w') (htarget : w'.target = w.target) (hw : w.Presents ok) :
    w'.Presents ok := by
  refine ⟨h.lasting hw.toLasting, ?_, ?_, ?_, ?_, ?_⟩ <;> rw [htarget]
  · intro e he
    obtain ⟨hplace, htitle⟩ := hw.title e he
    exact ⟨hplace.trans_le h.size_le, (h.title _ hplace).trans htitle⟩
  · exact hw.keyed
  · exact hw.space
  · exact hw.elementForm
  · exact hw.attributeForm

/-- The new element of a seed is presented under the name that it was asked for with. -/
theorem Workspace.Presents.begun (hok : AllowsPrintable ok) (hname : ∀ t ∈ seed.name, Carried ok t)
    (hw : w.Presents ok) : (seed.begun c w).Presents ok := by
  have hblank : (seed.blank c : Shape Place).Lasting ok := by
    cases seed with
    | element n topLevel =>
      refine lasting_blank hname fun t ht => ?_
      split at ht
      · rename_i hform
        cases ht
        simp only [Bool.and_eq_true, Bool.not_eq_true'] at hform
        exact ⟨hok.carried (by decide), hform.1.1⟩
      · cases ht
    | type name n topLevel => exact lasting_blank hname (by simp)
  have hpushed : Retains ok w { w with store := (w.store.push (seed.blank c)).2 } := retains_push hblank
  have hold := hpushed.presents rfl hw
  rw [Seed.begun]
  split
  · rename_i htop
    refine ⟨⟨hold.store, hold.waits⟩, fun e he => ?_, Components.nodup_put hw.keyed _ _, hw.space, hw.elementForm,
      hw.attributeForm⟩
    have he' : e ∈ w.target.elements.put seed.name w.store.size := he
    rcases Components.mem_put he' with he | rfl
    · exact hold.title e he
    · have htitle : (seed.blank c : Shape Place).title? = some seed.name := by
        cases seed <;> obtain rfl : _ = true := htop <;> rfl
      simpa using htitle
  · exact hold

theorem definite_seedEdits {inside : Prop} (hs : c.source.Definite ok) (hseed : seed.IsFrom c.source) :
    AllDefinite ok inside seed.edits := by
  cases seed with
  | element n topLevel =>
    obtain ⟨shape⟩ := n
    obtain ⟨own, d, type, rfl⟩ := Shape.exists_of_kind_element hseed.2
    have hdefinite : (⟨.element own d type⟩ : Node).shape.Definite ok := hs.nodes _ hseed.1
    have hfollowed : AllDefinite ok inside (followEdits .element ⟨.element own d type⟩) :=
      definite_followEdits hdefinite rfl
    exact hfollowed
  | type name n topLevel => exact .single definite_plain

theorem Workspace.Presents.register {p : Place} (hok : AllowsPrintable ok) (hs : c.source.Definite ok)
    (hseed : seed.IsFrom c.source) (hname : ∀ t ∈ seed.name, Carried ok t)
    (hrun : (seed.register c).runIn w = (.ok p, w')) (hw : w.Presents ok) : w'.Presents ok := by
  obtain ⟨w₁, hregister, htarget, -⟩ := register_spec hs.toProper hseed w
  obtain ⟨-, rfl⟩ := Prod.mk.inj (hregister.symm.trans hrun)
  rw [Seed.runIn_register hseed.hasName] at hrun
  obtain ⟨_, w₂, hedits, hpure⟩ := Work.runIn_bind_eq_ok.1 hrun
  cases hpure
  have hcopies := (hseed.asked hs.toProper).2
  have hretains : Retains ok (seed.begun c w) w₁ := retains_performAll hs (by simp [Seed.begun])
    (definite_seedEdits hs hseed) (fun a ha => (hcopies a ha).2.1) hedits
  exact hretains.presents htarget (hw.begun hok hname)

theorem Workspace.Presents.call {call : Call} {ps : List Place} (hok : AllowsPrintable ok)
    (hs : c.source.Definite ok) (hfrom : ∀ seed ∈ call.seeds, seed.IsFrom c.source)
    (hnames : ∀ seed ∈ call.seeds, ∀ t ∈ seed.name, Carried ok t) (htraced : w.Traced c.source)
    (hrun : (call.run c).runIn w = (.ok ps, w')) (hw : w.Presents ok) : w'.Presents ok := by
  cases call with
  | extract seed =>
    obtain ⟨p, w₁, hfirst, hpure⟩ := Work.runIn_bind_eq_ok.1 hrun
    cases hpure
    exact hw.register hok hs (hfrom seed (by simp [Call.seeds])) (hnames seed (by simp [Call.seeds])) hfirst
  | drain =>
    obtain ⟨_, w₁, hfirst, hpure⟩ := Work.runIn_bind_eq_ok.1 hrun
    cases hpure
    exact (retains_drainWithin hok hs hw.toLasting htraced hfirst).presents
      (target_drainWithin hs.toProper htraced hfirst).2 hw

theorem Workspace.Presents.calls {calls : List Call} {ps : List Place} (hok : AllowsPrintable ok)
    (hs : c.source.Definite ok) (hfrom : ∀ seed ∈ calls.flatMap Call.seeds, seed.IsFrom c.source)
    (hnames : ∀ seed ∈ calls.flatMap Call.seeds, ∀ t ∈ seed.name, Carried ok t) (h : Extracts c w seeds roots)
    (hrun : (Call.runAll c calls).runIn w = (.ok ps, w')) (hw : w.Presents ok) : w'.Presents ok := by
  induction calls generalizing w seeds roots ps with
  | nil =>
    cases hrun
    exact hw
  | cons call calls ih =>
    rw [Call.runAll, Work.runIn_bind_eq_ok] at hrun
    obtain ⟨first, w₁, hfirst, hrun⟩ := hrun
    rw [Work.runIn_bind_eq_ok] at hrun
    obtain ⟨others, w₂, hothers, hpure⟩ := hrun
    cases hpure
    simp only [List.flatMap_cons, List.mem_append, or_imp, forall_and] at hfrom hnames
    have hcall := h.call hs.toProper hfrom.1 hfirst
    exact ih hfrom.2 hnames.2 hcall hothers (hw.call hok hs hfrom.1 hnames.1 h.traced hfirst)

end Presents

/-! ## Trees in the store -/

section Trees

variable {ok : Char → Prop} {w : Workspace} {seeds : List Seed} {roots : List Place}

/-- A tree that is read off at a place of a lasting store is lasting throughout. -/
theorem Store.Holds.throughout {s : Store} {low : Nat} {p : Place} {n : Node} (h : s.Holds low p n)
    (hs : s.Lasting ok) : n.Throughout (Shape.Lasting ok) := by
  induction h with
  | intro p f _ _ _ ih =>
    refine throughout_iff.2 ⟨Shape.lasting_map.2 (hs p), fun m hm => ?_⟩
    rw [Shape.children_map] at hm
    obtain ⟨q, hq, rfl⟩ := List.mem_map.1 hm
    exact ih q hq

theorem Lists.settled (h : Lists w.target seeds roots)
    (hshows : ∀ p ∈ w.target.elements.values, ShowsElement w p) (hw : w.Presents ok) : w.schema.Settled ok := by
  have hentry : ∀ e ∈ w.schema.elements, ∃ p, (e.1, p) ∈ w.target.elements ∧ e.2 = w.store.tree p := by
    intro e he
    simp only [Workspace.schema, SchemaOf.map] at he
    obtain ⟨⟨name, p⟩, hp, rfl⟩ := List.mem_map.1 he
    exact ⟨p, hp, rfl⟩
  refine ⟨fun e he => ?_, fun e he => ?_, fun e he => ?_, ?_, ?_, ?_, ?_, ?_, hw.space, hw.elementForm,
    hw.attributeForm⟩
  · obtain ⟨p, hp, htree⟩ := hentry e he
    obtain ⟨hshow, hkind⟩ := hshows p (List.mem_map_of_mem hp)
    rw [htree, hshow.holds.tree_get, Node.shape, Shape.kind_map, hkind]
  · obtain ⟨p, hp, htree⟩ := hentry e he
    obtain ⟨hshow, -⟩ := hshows p (List.mem_map_of_mem hp)
    rw [htree, hshow.holds.tree_get, Node.shape, Shape.component?_map]
    exact Shape.component?_of_title? (hw.title _ hp).2
  · obtain ⟨p, hp, htree⟩ := hentry e he
    obtain ⟨hshow, -⟩ := hshows p (List.mem_map_of_mem hp)
    rw [htree]
    exact hshow.finished.throughout (fun _ hplain hlasting => ⟨hplain, hlasting⟩) (hshow.holds.throughout hw.store)
  · have hkeys : w.schema.elements.map (·.1) = w.target.elements.map (·.1) := by
      simp [Workspace.schema, SchemaOf.map]
    rw [hkeys]
    exact hw.keyed
  · simp [Workspace.schema, SchemaOf.map, h.attributes]
  · simp [Workspace.schema, SchemaOf.map, h.types]
  · simp [Workspace.schema, SchemaOf.map, h.groups]
  · simp [Workspace.schema, SchemaOf.map, h.attributeGroups]

/-- A target into which components of a read source have been copied is settled once nothing waits, also after elements
of it have been marked. -/
theorem settled_schema {source : Schema} {space elementForm attributeForm : String} {limit : Nat} {calls : List Call}
    {rounds : List (Nat × List QName)} {w' : Workspace} (hok : AllowsPrintable ok) (hread : source.WellRead ok)
    (hbounded : ∀ n ∈ source.nodes, ∀ o ∈ n.shape.occurs?, o.min.isSome) (hspace : Carried ok space)
    (helement : Carried ok elementForm) (hattribute : Carried ok attributeForm)
    (hfrom : ∀ seed ∈ calls.flatMap Call.seeds, seed.IsFrom source)
    (hnames : ∀ seed ∈ calls.flatMap Call.seeds, ∀ t ∈ seed.name, Carried ok t)
    (hspaces : ∀ r ∈ rounds, ∀ q ∈ r.2, Carried ok q.space)
    (hrun : (Call.runAll (.between source (.empty space elementForm attributeForm) limit) calls).runIn
      (.ofForms space elementForm attributeForm) = (.ok roots, w)) (hitems : w.items = [])
    (hmarks : (rounds.forM fun r => markAll r.1 [] r.2).runIn w = (.ok (), w')) : w'.schema.Settled ok := by
  have hs := hread.definite hbounded
  have hstart := extracts_ofForms source space elementForm attributeForm limit
  have hend := hstart.calls hs.toProper hfrom hrun
  rw [List.nil_append, List.nil_append] at hend
  have hshows := hend.lists.shows (hend.shows hs.toProper hfrom hitems)
  have hpresents := (presents_ofForms hspace helement hattribute).calls hok hs hfrom hnames hstart hrun
  have hlists := hend.lists
  clear hrun hitems hend
  induction rounds generalizing w with
  | nil =>
    cases hmarks
    exact hlists.settled hshows hpresents
  | cons r rounds ih =>
    obtain ⟨hround, hrest⟩ := List.forall_mem_cons.1 hspaces
    obtain ⟨_, w₁, hfirst, hmarks⟩ := Work.runIn_bind_eq_ok.1 hmarks
    have hkeeps := keeps_markAll hshows hfirst
    refine ih hrest hmarks (fun p hp => ?_) ?_ ?_
    · rw [hkeeps.target] at hp
      exact (hshows p hp).keeps hkeeps
    · exact (retains_markAll hok hround hshows hfirst).presents hkeeps.target hpresents
    · rwa [hkeeps.target]

end Trees

end PayloadSchema.Extraction
