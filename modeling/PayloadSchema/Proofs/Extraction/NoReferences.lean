import PayloadSchema.Proofs.Extraction.Equivalence
import PayloadSchema.Proofs.Payload.Marking
import PayloadSchema.Proofs.Written.Prefixes

/-!
# What is extracted refers to nothing

An extraction into an empty target, once its queue is empty, has made finished elements and nothing else.
So the target can be written, also after elements of it have been marked, under every prefix that leaves no brace
open.
-/

namespace PayloadSchema.Extraction

open Schema Copying Payload

/-- Inside of a finished tree everything is finished, and nothing is at the top of its schema. -/
theorem Store.shows_of_mem_cutPlaces {s : Store} {depth : Nat} {p q : Place} (hp : s.Shows p)
    (hq : q ∈ s.cutPlaces depth p) : s.Shows q ∧ (q = p ∨ (s.get q).isTopLevel = false) := by
  have hneat := Store.neat_shows s
  induction depth generalizing p with
  | zero => cases hq
  | succ depth ih =>
    rw [Store.cutPlaces] at hq
    rcases List.mem_cons.1 hq with rfl | hq
    · exact ⟨hp, .inl rfl⟩
    · obtain ⟨x, hx, hq⟩ := List.mem_flatMap.1 hq
      rw [Shape.children_eq_parts] at hx
      obtain ⟨part, hpart, rfl⟩ := List.mem_map.1 hx
      have hoffers := hneat.fits p hp part hpart
      obtain ⟨hshows, rfl | hinner⟩ := ih hoffers.inside hq
      · exact ⟨hshows, .inr hoffers.inner⟩
      · exact ⟨hshows, .inr hinner⟩

/-! ## The target -/

/-- A target that holds the elements that were to stand at its top, and nothing else. -/
structure Lists (target : SchemaOf Place) (seeds : List Seed) (roots : List Place) : Prop where
  elements : ∀ e ∈ target.elements, ∃ seed, (seed, e.2) ∈ seeds.zip roots ∧ seed.topLevel
  attributes : target.attributes = []
  types : target.types = []
  groups : target.groups = []
  attributeGroups : target.attributeGroups = []

section Target

variable {c : Context} {target : SchemaOf Place} {w w' : Workspace} {seeds : List Seed} {roots : List Place}

def filed (target : SchemaOf Place) (a : Seed × Place) : SchemaOf Place :=
  if a.1.topLevel then target.put .elements a.1.name a.2 else target

theorem Lists.filed (h : Lists target seeds roots) (hlength : seeds.length = roots.length) (a : Seed × Place) :
    Lists (filed target a) (seeds ++ [a.1]) (roots ++ [a.2]) := by
  obtain ⟨helements, hattributes, htypes, hgroups, hattributeGroups⟩ := h
  have hzip : (seeds ++ [a.1]).zip (roots ++ [a.2]) = seeds.zip roots ++ [a] := by
    rw [List.zip_append hlength]
    rfl
  have hold : ∀ e ∈ target.elements,
      ∃ seed, (seed, e.2) ∈ (seeds ++ [a.1]).zip (roots ++ [a.2]) ∧ seed.topLevel := by
    intro e he
    obtain ⟨seed, hseed, htop⟩ := helements e he
    exact ⟨seed, by simp [hzip, hseed], htop⟩
  rw [Extraction.filed]
  split
  · rename_i htop
    refine ⟨fun e he => ?_, hattributes, htypes, hgroups, hattributeGroups⟩
    have he' : e ∈ target.elements.put a.1.name a.2 := he
    rcases Components.mem_put he' with he | rfl
    · exact hold e he
    · exact ⟨a.1, by simp [hzip], htop⟩
  · exact ⟨hold, hattributes, htypes, hgroups, hattributeGroups⟩

/-- What is known of a workspace into whose target copies have been made. -/
structure Extracts (c : Context) (w : Workspace) (seeds : List Seed) (roots : List Place) : Prop where
  tracks : Tracks c w seeds roots
  traced : w.Traced c.source
  lists : Lists w.target seeds roots

theorem extracts_ofForms (source : Schema) (space elementForm attributeForm : String) (limit : Nat) :
    Extracts (.between source (.empty space elementForm attributeForm) limit)
      (.ofForms space elementForm attributeForm) [] [] := by
  refine ⟨tracks_ofSchema _ (.empty space elementForm attributeForm), ?_, ?_⟩
  · intro i hi
    cases hi
  · refine ⟨?_, rfl, rfl, rfl, rfl⟩
    intro e he
    cases he

theorem target_drainWithin {budget : Nat} (hs : c.source.Proper) (hw : w.Traced c.source)
    (h : (drainWithin c budget).runIn w = (.ok (), w')) :
    w'.Traced c.source ∧ w'.target = w.target := by
  induction budget generalizing w with
  | zero =>
    rcases runIn_drainWithin w with ⟨-, hrun⟩ | ⟨_, _, _, -, -, -, hrun⟩
    · rw [hrun] at h
      cases h
      exact ⟨hw, rfl⟩
    · rw [hrun] at h
      cases h
  | succ budget ih =>
    rcases runIn_drainWithin w with ⟨-, hrun⟩ | ⟨item, rest, q, hitems, hq, -, hrun⟩
    · rw [hrun] at h
      cases h
      exact ⟨hw, rfl⟩
    · rw [hrun] at h
      obtain ⟨_, w₁, hhandle, h⟩ := Work.runIn_bind_eq_ok.1 h
      obtain ⟨htraced, htarget, -⟩ := handle_spec hs hw hitems hq hhandle
      obtain ⟨htraced', htarget'⟩ := ih htraced h
      exact ⟨htraced', htarget'.trans htarget⟩

theorem target_call {call : Call} {ps : List Place} (hs : c.source.Proper)
    (hseeds : ∀ seed ∈ call.seeds, seed.IsFrom c.source) (hw : w.Traced c.source)
    (hrun : (call.run c).runIn w = (.ok ps, w')) :
    w'.Traced c.source ∧ call.seeds.length = ps.length ∧
      w'.target = (call.seeds.zip ps).foldl filed w.target := by
  cases call with
  | extract seed =>
    obtain ⟨w₁, hregister, htarget, htraced⟩ := register_spec hs (hseeds seed (by simp [Call.seeds])) w
    rw [Call.run, Work.runIn_bind_of_ok hregister] at hrun
    cases hrun
    exact ⟨htraced hw, rfl, htarget⟩
  | drain =>
    obtain ⟨_, w₁, hdrain, hpure⟩ := Work.runIn_bind_eq_ok.1 hrun
    cases hpure
    obtain ⟨htraced, htarget⟩ := target_drainWithin hs hw hdrain
    exact ⟨htraced, rfl, htarget⟩

theorem target_runAll {calls : List Call} {ps : List Place} (hs : c.source.Proper)
    (hseeds : ∀ seed ∈ calls.flatMap Call.seeds, seed.IsFrom c.source) (hw : w.Traced c.source)
    (hrun : (Call.runAll c calls).runIn w = (.ok ps, w')) :
    w'.target = ((calls.flatMap Call.seeds).zip ps).foldl filed w.target := by
  induction calls generalizing w ps with
  | nil =>
    cases hrun
    rfl
  | cons call calls ih =>
    rw [Call.runAll, Work.runIn_bind_eq_ok] at hrun
    obtain ⟨first, w₁, hfirst, hrun⟩ := hrun
    obtain ⟨others, w₂, hothers, hpure⟩ := Work.runIn_bind_eq_ok.1 hrun
    cases hpure
    obtain ⟨htraced, hlength, htarget⟩ := target_call hs (fun seed hseed => hseeds seed (by simp [hseed])) hw hfirst
    rw [ih (fun seed hseed => hseeds seed (by simp_all)) htraced hothers, htarget, List.flatMap_cons,
      List.zip_append hlength, List.foldl_append]

theorem Extracts.call {call : Call} {ps : List Place} (hs : c.source.Proper)
    (hseeds : ∀ seed ∈ call.seeds, seed.IsFrom c.source) (h : Extracts c w seeds roots)
    (hrun : (call.run c).runIn w = (.ok ps, w')) :
    Extracts c w' (seeds ++ call.seeds) (roots ++ ps) := by
  have htracks := h.tracks.call (fun seed hseed => (hseeds seed hseed).hasName) hrun
  obtain ⟨htraced, hlength, htarget⟩ := target_call hs hseeds h.traced hrun
  refine ⟨htracks, htraced, ?_⟩
  rw [htarget]
  cases call with
  | extract seed =>
    obtain ⟨p, rfl⟩ := List.length_eq_one_iff.1 hlength.symm
    exact h.lists.filed h.tracks.represents.roots.length_eq (seed, p)
  | drain =>
    obtain rfl := List.length_eq_zero_iff.1 hlength.symm
    simpa [Call.seeds] using h.lists

theorem Extracts.calls {calls : List Call} {ps : List Place} (hs : c.source.Proper)
    (hseeds : ∀ seed ∈ calls.flatMap Call.seeds, seed.IsFrom c.source)
    (h : Extracts c w seeds roots) (hrun : (Call.runAll c calls).runIn w = (.ok ps, w')) :
    Extracts c w' (seeds ++ calls.flatMap Call.seeds) (roots ++ ps) := by
  induction calls generalizing w seeds roots ps with
  | nil =>
    cases hrun
    simpa using h
  | cons call calls ih =>
    rw [Call.runAll, Work.runIn_bind_eq_ok] at hrun
    obtain ⟨first, w₁, hfirst, hrun⟩ := hrun
    rw [Work.runIn_bind_eq_ok] at hrun
    obtain ⟨others, w₂, hothers, hpure⟩ := hrun
    cases hpure
    have hcall := h.call hs (fun seed hseed => hseeds seed (by simp [hseed])) hfirst
    simpa using ih (fun seed hseed => hseeds seed (by simp_all)) hcall hothers

end Target

/-! ## Finished targets -/

section Finished

variable {c : Context} {w w' : Workspace} {seeds : List Seed} {roots : List Place}

theorem Extracts.shows (hs : c.source.Proper) (hseeds : ∀ seed ∈ seeds, seed.IsFrom c.source)
    (h : Extracts c w seeds roots) (hitems : w.items = []) :
    ∀ e ∈ seeds.zip roots, ShowsElement w e.2 := by
  intro e he
  have hgives := (List.forall₂_iff_zip.1 (h.tracks.trees hitems)).2 he
  obtain ⟨hinside, -⟩ := (List.forall₂_iff_zip.1 h.tracks.represents.roots).2 he
  have hcomplete := (Seed.yields hs (hseeds e.1 (List.of_mem_zip he).1)).2 _ hgives
  have hholds := h.tracks.sound.store e.2 hinside
  have htree := hholds.tree_get
  refine ⟨⟨hholds, ?_⟩, ?_⟩
  · have hfinished := hcomplete.finished
    rw [htree] at hfinished ⊢
    exact hfinished
  · have hkind := hcomplete.kind
    rw [htree] at hkind
    simpa [Node.shape] using hkind

theorem Lists.shows (h : Lists w.target seeds roots)
    (hshows : ∀ e ∈ seeds.zip roots, ShowsElement w e.2) :
    ∀ p ∈ w.target.elements.values, ShowsElement w p := by
  intro p hp
  obtain ⟨e, he, rfl⟩ := List.mem_map.1 hp
  obtain ⟨seed, hseed, -⟩ := h.elements e he
  exact hshows _ hseed

theorem Lists.roots_eq (h : Lists w.target seeds roots) :
    w.target.roots = w.target.elements.values := by
  simp [SchemaOf.roots, h.attributes, h.types, h.groups, h.attributeGroups, Table.values]

/-- A target of finished elements is written, unless the prefix leaves a brace open. -/
theorem Lists.written_iff (h : Lists w.target seeds roots)
    (hshows : ∀ p ∈ w.target.elements.values, ShowsElement w p) (settings : Settings) :
    (∃ text, w.schema.write settings = .ok text) ↔ Xml.isUnclosed settings.schemaPrefix = false := by
  refine Schema.written_iff (Writer.written_toTree (fun n hn => ?_) ?_ ?_ ?_ ?_ settings.schemaPrefix)
  · simp only [Workspace.schema, SchemaOf.map, Table.values, List.map_map] at hn
    obtain ⟨e, he, rfl⟩ := List.mem_map.1 hn
    obtain ⟨hshow, hkind⟩ := hshows e.2 (List.mem_map_of_mem he)
    refine ⟨?_, hshow.finished⟩
    change (w.store.tree e.2).shape.kind = .element
    rw [hshow.holds.tree_get, Node.shape, Shape.kind_map, hkind]
  · simp [Workspace.schema, SchemaOf.map, h.attributes]
  · simp [Workspace.schema, SchemaOf.map, h.types]
  · simp [Workspace.schema, SchemaOf.map, h.groups]
  · simp [Workspace.schema, SchemaOf.map, h.attributeGroups]

theorem Lists.built (h : Lists w.target seeds roots)
    (hshows : ∀ p ∈ w.target.elements.values, ShowsElement w p) :
    ∀ n ∈ w.schema.nodes, n.Finished := by
  refine built_walk fun n hn => ?_
  have hroots : w.schema.roots = w.target.elements.values.map w.store.tree := by
    simp [Workspace.schema, SchemaOf.roots, SchemaOf.map, h.attributes, h.types, h.groups,
      h.attributeGroups, Table.values, Function.comp_def]
  rw [hroots] at hn
  obtain ⟨p, hp, rfl⟩ := List.mem_map.1 hn
  exact (hshows p hp).shows.finished

end Finished

/-- When an extraction into an empty target has come to the end of its queue, no node of the target refers
to a component, names a type of its own or names a type that is not built in; the target has nothing but
elements in its tables; at the top of it is only what was to be there; and it can be written, as it is and
after any marks, exactly under the prefixes that leave no brace open. -/
theorem extraction_leaves_no_references {source : Schema} (hread : IsRead source)
    (space elementForm attributeForm : String) (limit : Nat) {calls : List Call}
    (hseeds : ∀ seed ∈ calls.flatMap Call.seeds, seed.IsFrom source) {roots : List Place}
    {w : Workspace}
    (hrun : (Call.runAll (.between source (.empty space elementForm attributeForm) limit) calls).runIn
      (.ofForms space elementForm attributeForm) = (.ok roots, w))
    (hitems : w.items = []) :
    (∀ n ∈ w.schema.nodes, n.shape.isReference = false ∧
      (n.shape.kind.isType → n.shape.isNamed = false) ∧ ∀ q ∈ n.shape.typeNames, q.isBuiltin) ∧
    (w.schema.types = [] ∧ w.schema.groups = [] ∧ w.schema.attributeGroups = []) ∧
    (∀ p ∈ w.places, (w.store.get p).isTopLevel →
      ∃ seed, (seed, p) ∈ (calls.flatMap Call.seeds).zip roots ∧ seed.topLevel) ∧
    (∀ settings, (∃ text, w.schema.write settings = .ok text) ↔
      Xml.isUnclosed settings.schemaPrefix = false) ∧
    ∀ depth names w', (markAll depth [] names).runIn w = (.ok (), w') →
      ∀ settings, (∃ text, w'.schema.write settings = .ok text) ↔
        Xml.isUnclosed settings.schemaPrefix = false := by
  have hs : source.Proper := hread.proper
  have hend := (extracts_ofForms source space elementForm attributeForm limit).calls hs hseeds hrun
  rw [List.nil_append, List.nil_append] at hend
  have hlists := hend.lists
  have hshows := hlists.shows (hend.shows hs hseeds hitems)
  refine ⟨fun n hn => ?_, ⟨?_, ?_, ?_⟩, fun p hp htop => ?_, hlists.written_iff hshows, ?_⟩
  · have hplain := (hlists.built hshows n hn).here
    exact ⟨hplain.reference, hplain.unnamed, hplain.builtin⟩
  · simp [Workspace.schema, SchemaOf.map, hlists.types]
  · simp [Workspace.schema, SchemaOf.map, hlists.groups]
  · simp [Workspace.schema, SchemaOf.map, hlists.attributeGroups]
  · rw [Workspace.places, hlists.roots_eq] at hp
    obtain ⟨root, hroot, hp⟩ := List.mem_flatMap.1 hp
    obtain ⟨-, rfl | hinner⟩ := Store.shows_of_mem_cutPlaces (hshows root hroot).shows hp
    · obtain ⟨e, he, rfl⟩ := List.mem_map.1 hroot
      exact hlists.elements e he
    · rw [hinner] at htop
      cases htop
  · intro depth names w' hmark
    have hkeeps := keeps_markAll hshows hmark
    have hlists' : Lists w'.target (calls.flatMap Call.seeds) roots := by rwa [hkeeps.target]
    refine hlists'.written_iff fun p hp => ?_
    rw [hkeeps.target] at hp
    exact (hshows p hp).keeps hkeeps

/-- Nothing is left of the references, the group and the extension of the sample, and it can be written. -/
theorem extraction_leaves_no_references_sample :
    orderRun.2.items = [] ∧ (∀ n ∈ orderRun.2.schema.nodes, n.shape.isReference = false) ∧
      ∃ text, orderRun.2.schema.write .standard = .ok text := by
  obtain ⟨hrun, hempty⟩ := orderRun_eq
  obtain ⟨hnone, -, -, hwrite, -⟩ := extraction_leaves_no_references isRead_orderSchema "urn:s" defaultForm
    defaultForm 60 orderCalls_isFrom hrun hempty
  exact ⟨hempty, fun n hn => (hnone n hn).1, (hwrite .standard).2 (by decide)⟩

end PayloadSchema.Extraction
