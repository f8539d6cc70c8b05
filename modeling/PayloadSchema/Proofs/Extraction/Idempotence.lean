import Mathlib.Logic.Relation
import PayloadSchema.Proofs.Extraction.CanonicalCopies
import PayloadSchema.Proofs.Payload.UnmarkedParts

/-!
# Extraction from what has been extracted

What has been extracted is finished and canonical, and marks keep it so.  Where it serves as a source in turn, each of
its elements comes out as it went in.
-/

namespace PayloadSchema.Extraction

open Schema Copying Payload

/-! ## Trees of canonical constructs in a store -/

namespace Store

variable {s s' : Store} {p q x : Place} {n : Node} {low : Nat}

/-- A place at which everything has a place and is canonical. -/
inductive Canonical (s : Store) : Place → Prop where
  | intro (p : Place) (inside : p < s.size) (here : (s.get p).Canonical)
      (inner : ∀ q ∈ (s.get p).children, Canonical s q) : Canonical s p

theorem Holds.canonical_iff (h : s.Holds low p n) : s.Canonical p ↔ n.Throughout Shape.Canonical := by
  induction h with
  | intro p f _ inside _ ih =>
    constructor
    · rintro ⟨_, -, here, inner⟩
      refine throughout_iff.2 ⟨Shape.canonical_map.2 here, fun m hm => ?_⟩
      rw [Shape.children_map] at hm
      obtain ⟨q, hq, rfl⟩ := List.mem_map.1 hm
      exact (ih q hq).1 (inner q hq)
    · intro h
      obtain ⟨here, hinner⟩ := throughout_iff.1 h
      refine .intro p inside (Shape.canonical_map.1 here) fun q hq => (ih q hq).2 (hinner _ ?_)
      rw [Shape.children_map]
      exact List.mem_map_of_mem hq

theorem Canonical.changed (hsize : s.size ≤ s'.size) (hget : ∀ q < s.size, q ≠ x → s'.get q = s.get q)
    (hx : x < s.size → (s.get x).Canonical → (∀ q ∈ (s.get x).children, s'.Canonical q) → s'.Canonical x)
    (h : s.Canonical q) : s'.Canonical q := by
  induction h with
  | intro q inside here inner ih =>
    by_cases hq : q = x
    · subst hq
      exact hx inside here ih
    · have hsame := hget q inside hq
      refine .intro q (inside.trans_le hsize) (by rwa [hsame]) ?_
      rwa [hsame]

end Store

/-! ## Marks -/

section Marks

variable {w w' : Workspace} {s : Store} {p q t x : Place} {space name : String} {shapes : List (Shape Place)}
  {f : Shape Place → Shape Place} {c : Component} {d : ElementDecl} {own : Option Place}

theorem canonical_marker (space : String) : (marker space).Canonical :=
  ⟨⟨rfl, by simp [Shape.OneType, marker]⟩, trivial⟩

theorem canonical_plainType {attributes : List Place} {model particle : Option Place} :
    (plainType attributes model particle).Canonical :=
  ⟨⟨rfl, trivial⟩, trivial⟩

/-- What is canonical stays so where new constructs are added and an old one is changed, if this one does. -/
theorem canonical_edited (hx : x < s.size → (s.get x).Canonical →
      (∀ q ∈ (s.get x).children, ((s.pushAll shapes).update x f).Canonical q) →
      (f (s.get x)).Canonical ∧ ∀ q ∈ (f (s.get x)).children, ((s.pushAll shapes).update x f).Canonical q)
    (hq : s.Canonical q) : ((s.pushAll shapes).update x f).Canonical q := by
  have hgrown := s.grown_pushAll shapes
  have hsize : s.size ≤ ((s.pushAll shapes).update x f).size := by
    rw [Store.size_update]
    exact hgrown.size_le
  refine Store.Canonical.changed (x := x) hsize (fun y hy hne => ?_) (fun hinside here hinner => ?_) hq
  · rw [Store.get_update_of_ne f hne, hgrown.get_eq y hy]
  · obtain ⟨hhere, hchildren⟩ := hx hinside here hinner
    have hself : ((s.pushAll shapes).update x f).get x = f (s.get x) := by
      rw [Store.get_update_self f (hinside.trans_le hgrown.size_le), hgrown.get_eq x hinside]
    exact .intro x (hinside.trans_le hsize) (by rwa [hself]) (by rwa [hself])

theorem canonical_added {i : Nat} {shape : Shape Place} (hx : x < s.size) (hi : shapes[i]? = some shape)
    (hshape : shape.Canonical) (hinner : ∀ q ∈ shape.children, ((s.pushAll shapes).update x f).Canonical q) :
    ((s.pushAll shapes).update x f).Canonical (s.size + i) := by
  have hlt : i < shapes.length := (List.getElem?_eq_some_iff.1 hi).1
  have hget : ((s.pushAll shapes).update x f).get (s.size + i) = shape := by
    rw [Store.get_update_of_ne f (Nat.ne_of_gt (hx.trans_le (Nat.le_add_right _ _))), Store.get_pushAll s hi]
  refine .intro _ ?_ (by rwa [hget]) (by rwa [hget])
  rw [Store.size_update, Store.size_pushAll]
  exact Nat.add_lt_add_left hlt _

theorem canonical_noted (hq : s.Canonical q) :
    ((s.pushAll [marker space]).update x (·.addAttribute s.size)).Canonical q := by
  refine canonical_edited (fun hx here hinner => ⟨canonical_addAttribute here, fun y hy => ?_⟩) hq
  rcases mem_children_addAttribute hy with hy | rfl
  · exact hinner y hy
  · exact canonical_added (i := 0) hx rfl (canonical_marker space) (by simp [marker, Shape.children])

theorem canonical_wrapped (hget : s.get p = .element c d (some t)) (hq : s.Canonical q) :
    (wrapped s p t name space).Canonical q := by
  refine canonical_edited (fun hp here hinner => ?_) hq
  have hnote : (wrapped s p t name space).Canonical s.size :=
    canonical_added (i := 0) hp rfl (canonical_marker space) (by simp [marker, Shape.children])
  have hvalue : (wrapped s p t name space).Canonical (s.size + 1) := by
    have hblank : (blankElement (some (name ++ valueSuffix)) false none : Shape Place).Canonical :=
      ⟨⟨⟨rfl, rfl⟩, by simp [Shape.OneType, blankElement]⟩, trivial⟩
    refine canonical_added hp rfl (canonical_fill hblank) fun y hy => ?_
    obtain rfl : y = t := by simpa [blankElement, Slot.fill, Shape.children] using hy
    exact hinner y (by simp [hget, Shape.children])
  have hsequence : (wrapped s p t name space).Canonical (s.size + 2) := by
    refine canonical_added hp rfl ⟨⟨trivial, trivial⟩, trivial⟩ fun y hy => ?_
    obtain rfl : y = s.size + 1 := by simpa [Shape.children] using hy
    exact hvalue
  have htype : (wrapped s p t name space).Canonical (s.size + 3) := by
    refine canonical_added hp rfl canonical_plainType fun y hy => ?_
    obtain rfl | rfl : y = s.size + 2 ∨ y = s.size := by simpa [plainType, Shape.children] using hy
    · exact hsequence
    · exact hnote
  rw [hget] at here ⊢
  refine ⟨⟨tidy_withOwnType here.toTidy ⟨t, rfl⟩ _, trivial⟩, fun y hy => ?_⟩
  obtain rfl : y = s.size + 3 := by simpa [Shape.withOwnType, Shape.children] using hy
  exact htype

theorem canonical_extended {base : QName} (hget : s.get p = .element c d none) (hq : s.Canonical q) :
    (extended s p base space).Canonical q := by
  refine canonical_edited (fun hp here hinner => ?_) hq
  have hnote : (extended s p base space).Canonical s.size :=
    canonical_added (i := 0) hp rfl (canonical_marker space) (by simp [marker, Shape.children])
  have hextension : (extended s p base space).Canonical (s.size + 1) := by
    refine canonical_added hp rfl ⟨⟨trivial, trivial⟩, trivial⟩ fun y hy => ?_
    obtain rfl : y = s.size := by simpa [Shape.children] using hy
    exact hnote
  have hmodel : (extended s p base space).Canonical (s.size + 2) := by
    refine canonical_added hp rfl ⟨⟨trivial, trivial⟩, rfl⟩ fun y hy => ?_
    obtain rfl : y = s.size + 1 := by simpa [Shape.children] using hy
    exact hextension
  have htype : (extended s p base space).Canonical (s.size + 3) := by
    refine canonical_added hp rfl canonical_plainType fun y hy => ?_
    obtain rfl : y = s.size + 2 := by simpa [plainType, Shape.children] using hy
    exact hmodel
  rw [hget] at here ⊢
  refine ⟨canonical_fill here, fun y hy => ?_⟩
  obtain rfl : y = s.size + 3 := by simpa [Slot.fill, Shape.children] using hy
  exact htype

theorem canonical_mark (hp : ShowsElement w p) (h : (mark p space).runIn w = (.ok (), w'))
    (hq : w.store.Canonical q) : w'.store.Canonical q := by
  obtain ⟨c, d, own, hget, ⟨t, -, x, -, rfl⟩ | ⟨t, rfl, -, rfl⟩ | ⟨rfl, rfl⟩⟩ := mark_cases hp h
  · exact canonical_noted hq
  · exact canonical_wrapped hget hq
  · exact canonical_extended hget hq

end Marks

/-! ## Marks in any order -/

/-- One mark of a finished element, wherever this stands. -/
def Marks (w w' : Workspace) : Prop :=
  ∃ p space, ShowsElement w p ∧ (mark p space).runIn w = (.ok (), w')

theorem marks_markAll {w w' : Workspace} {depth : Nat} {marked : List Place} {names : List QName}
    (htop : ∀ q ∈ w.target.elements.values, ShowsElement w q)
    (h : (markAll depth marked names).runIn w = (.ok (), w')) : Relation.ReflTransGen Marks w w' :=
  relates_markAll (fun _ => .refl) .trans (fun (_ : True) hp hmark => .single ⟨_, _, hp, hmark⟩) (fun _ _ => trivial)
    htop h

/-! ## What stands in a target -/

section Targets

variable {asked : List (Seed × Place)} {target : SchemaOf Place}

/-- A target that has the elements that were asked for at its top, each under its own name, and nothing else. -/
structure Files (target : SchemaOf Place) (asked : List (Seed × Place)) : Prop where
  entry : ∀ e ∈ target.elements, ∃ a ∈ asked, a.1.topLevel ∧ e = (a.1.name, a.2)
  named : ∀ a ∈ asked, a.1.topLevel → a.1.name ∈ target.elements.map (·.1)
  keyed : (target.elements.map (·.1)).Nodup
  others : ∀ table, table ≠ .elements → target.table table = []

theorem files_empty (space elementForm attributeForm : String) :
    Files (.empty space elementForm attributeForm) [] := by
  refine ⟨?_, by simp, List.nodup_nil, fun table htable => ?_⟩
  · intro e he
    cases he
  · cases table <;> rfl

theorem Files.filed (h : Files target asked) (a : Seed × Place) : Files (filed target a) (asked ++ [a]) := by
  obtain ⟨hentry, hnamed, hkeyed, hothers⟩ := h
  have hold : ∀ e ∈ target.elements, ∃ b ∈ asked ++ [a], b.1.topLevel ∧ e = (b.1.name, b.2) := by
    intro e he
    obtain ⟨b, hb, htop, rfl⟩ := hentry e he
    exact ⟨b, List.mem_append_left _ hb, htop, rfl⟩
  rw [Extraction.filed]
  split
  · rename_i htop
    refine ⟨fun e he => ?_, fun b hb hbtop => ?_, Components.nodup_put hkeyed _ _, fun table htable => ?_⟩
    · have he' : e ∈ target.elements.put a.1.name a.2 := he
      rcases Components.mem_put he' with he | rfl
      · exact hold e he
      · exact ⟨a, by simp, htop, rfl⟩
    · refine Components.mem_keys_put.2 ?_
      rcases List.mem_append.1 hb with hb | hb
      · exact .inr (hnamed b hb hbtop)
      · exact .inl (by rw [List.mem_singleton.1 hb])
    · rw [← hothers table htable]
      cases table <;> first | rfl | exact absurd rfl htable
  · rename_i htop
    refine ⟨hold, fun b hb hbtop => ?_, hkeyed, hothers⟩
    rcases List.mem_append.1 hb with hb | hb
    · exact hnamed b hb hbtop
    · exact absurd (by rwa [List.mem_singleton.1 hb] at hbtop) htop

theorem Files.foldl (h : Files target asked) (new : List (Seed × Place)) :
    Files (new.foldl Extraction.filed target) (asked ++ new) := by
  induction new generalizing target asked with
  | nil => rwa [List.append_nil]
  | cons a new ih =>
    have hnext := ih (h.filed a)
    rwa [List.append_assoc] at hnext

end Targets

/-! ## Targets as sources -/

section Sources

variable {w w' : Workspace} {e : Option String × Place}

/-- A workspace whose target can be a source: it has nothing but finished and canonical elements, each under its own
name. -/
structure Reusable (w : Workspace) : Prop where
  shows : ∀ e ∈ w.target.elements, ShowsElement w e.2
  canonical : ∀ e ∈ w.target.elements, w.store.Canonical e.2
  component : ∀ e ∈ w.target.elements, (w.store.get e.2).component? = some ⟨e.1, true⟩
  keyed : (w.target.elements.map (·.1)).Nodup
  others : ∀ table, table ≠ .elements → w.target.table table = []

theorem Reusable.step (h : Reusable w) (hmark : Marks w w') : Reusable w' ∧ w'.target = w.target := by
  obtain ⟨p, space, hp, hrun⟩ := hmark
  have hkeeps := keeps_mark hp.shows hp.kind hrun
  have hspares := (spares_mark hp hrun).1
  refine ⟨⟨fun e he => ?_, fun e he => ?_, fun e he => ?_, ?_, ?_⟩, hkeeps.target⟩
  · rw [hkeeps.target] at he
    exact (h.shows e he).keeps hkeeps
  · rw [hkeeps.target] at he
    exact canonical_mark hp hrun (h.canonical e he)
  · rw [hkeeps.target] at he
    rw [hspares.component e.2 (h.shows e he).shows.holds.lt_size, h.component e he]
  · rw [hkeeps.target]
    exact h.keyed
  · rw [hkeeps.target]
    exact h.others

theorem Reusable.marks (h : Reusable w) (hmarks : Relation.ReflTransGen Marks w w') :
    Reusable w' ∧ w'.target = w.target := by
  induction hmarks with
  | refl => exact ⟨h, rfl⟩
  | tail _ hmark ih =>
    obtain ⟨hreusable, htarget⟩ := ih.1.step hmark
    exact ⟨hreusable, htarget.trans ih.2⟩

theorem Reusable.built (h : Reusable w) (he : e ∈ w.target.elements) : (w.store.tree e.2).Built Fixed := by
  have hshows := (h.shows e he).shows
  exact hshows.finished.throughout (fun _ => .mk) ((hshows.holds.canonical_iff).1 (h.canonical e he))

theorem Reusable.kind (h : Reusable w) (he : e ∈ w.target.elements) : (w.store.tree e.2).shape.kind = .element := by
  obtain ⟨hshows, hkind⟩ := h.shows e he
  rw [hshows.holds.tree_get, Node.shape, Shape.kind_map, hkind]

theorem Reusable.component_tree (h : Reusable w) (he : e ∈ w.target.elements) :
    (w.store.tree e.2).shape.component? = some ⟨e.1, true⟩ := by
  rw [(h.shows e he).shows.holds.tree_get, Node.shape, Shape.component?_map, h.component e he]

theorem Reusable.proper (h : Reusable w) : w.schema.Proper := by
  have hempty (table : TableName) (htable : table ≠ .elements) : w.schema.table table = [] := by
    have hnone := h.others table htable
    cases table <;> first | exact absurd rfl htable | exact List.map_eq_nil_iff.2 hnone
  refine ⟨fun table e he => ?_, fun table => ?_⟩
  · by_cases htable : table = .elements
    · subst htable
      obtain ⟨e, hmem, rfl⟩ := List.mem_map.1 he
      refine ⟨?_, h.component_tree hmem, (h.built hmem).mono fun _ _ => trivial⟩
      rw [h.kind hmem]
      rfl
    · rw [hempty table htable] at he
      cases he
  · by_cases htable : table = .elements
    · subst htable
      change (List.map _ (List.map _ _)).Nodup
      rw [List.map_map]
      exact h.keyed
    · rw [hempty table htable]
      exact List.nodup_nil

theorem Reusable.showsElement (h : Reusable w) {p : Place} (hp : p ∈ w.places)
    (hkind : (w.store.get p).kind = .element) : ShowsElement w p := by
  obtain ⟨root, hroot, hp⟩ := List.mem_flatMap.1 hp
  have hroots : w.target.roots = w.target.elements.values := by
    have hnone (table : TableName) (htable : table ≠ .elements) : (w.target.table table).values = [] := by
      rw [h.others table htable]
      rfl
    have hattributes : w.target.attributes.values = [] := hnone .attributes (by decide)
    have htypes : w.target.types.values = [] := hnone .types (by decide)
    have hgroups : w.target.groups.values = [] := hnone .groups (by decide)
    have hattributeGroups : w.target.attributeGroups.values = [] := hnone .attributeGroups (by decide)
    simp [SchemaOf.roots, hattributes, htypes, hgroups, hattributeGroups]
  rw [hroots] at hroot
  obtain ⟨e, he, rfl⟩ := List.mem_map.1 hroot
  exact ⟨(Store.shows_of_mem_cutPlaces (h.shows e he).shows hp).1, hkind⟩

theorem reusable_extraction {source : Schema} (hs : source.Proper) {space elementForm attributeForm : String}
    {limit : Nat} {calls : List Call} (hfrom : ∀ seed ∈ calls.flatMap Call.seeds, seed.IsFrom source)
    {roots : List Place}
    (hrun : (Call.runAll (.between source (.empty space elementForm attributeForm) limit) calls).runIn
      (.ofForms space elementForm attributeForm) = (.ok roots, w))
    (hitems : w.items = []) : Reusable w ∧ Files w.target ((calls.flatMap Call.seeds).zip roots) := by
  have hstart := extracts_ofForms source space elementForm attributeForm limit
  have hend := hstart.calls hs hfrom hrun
  have hfiles : Files w.target ((calls.flatMap Call.seeds).zip roots) := by
    rw [target_runAll hs hfrom hstart.traced hrun]
    exact (files_empty space elementForm attributeForm).foldl _
  have hshows := hend.shows hs hfrom hitems
  rw [List.nil_append, List.nil_append] at hend hshows
  have hentry (e : Option String × Place) (he : e ∈ w.target.elements) :
      ShowsElement w e.2 ∧ w.store.Canonical e.2 ∧ (w.store.get e.2).component? = some ⟨e.1, true⟩ := by
    obtain ⟨a, ha, htop, rfl⟩ := hfiles.entry e he
    have hseed := hfrom a.1 (List.of_mem_zip ha).1
    have hgives := (List.forall₂_iff_zip.1 (hend.tracks.trees hitems)).2 ha
    have hshow := hshows a ha
    refine ⟨hshow, hshow.shows.holds.canonical_iff.2 (Seed.canonical_inline hs hseed hgives), ?_⟩
    have hcomponent := Seed.component?_inline hs hseed hgives
    rwa [hshow.shows.holds.tree_get, Node.shape, Shape.component?_map, htop] at hcomponent
  exact ⟨⟨fun e he => (hentry e he).1, fun e he => (hentry e he).2.1, fun e he => (hentry e he).2.2, hfiles.keyed,
    hfiles.others⟩, hfiles⟩

/-- An element of a target that can be a source comes out of an extraction as it went in. -/
theorem Reusable.extracts (h : Reusable w) (he : e ∈ w.target.elements) (space elementForm attributeForm : String) :
    ∃ enough root v, (∀ limit ≥ enough,
      (Call.runAll (.between w.schema (.empty space elementForm attributeForm) limit)
        [.extract (.element (w.store.tree e.2) true), .drain]).runIn (.ofForms space elementForm attributeForm) =
      (.ok [root], v)) ∧ v.items = [] ∧ v.store.tree root = w.store.tree e.2 ∧
      v.schema = (SchemaOf.empty space elementForm attributeForm).put .elements e.1 (w.store.tree e.2) := by
  have hs := h.proper
  have hcomponent := h.component_tree he
  have hfrom : (Seed.element (w.store.tree e.2) true).IsFrom w.schema :=
    ⟨.entry .elements (e := (e.1, w.store.tree e.2)) (List.mem_map.2 ⟨e, he, rfl⟩), h.kind he⟩
  have htop : (w.store.tree e.2).shape.isTopLevel := by
    simp [Shape.isTopLevel, hcomponent]
  obtain ⟨enough, root, v, hrun, hitems, htree⟩ :=
    settles_extraction hs (.empty space elementForm attributeForm) hfrom fun limit =>
      Seed.gives_fixed (h.built he) (h.kind he) htop _
  refine ⟨enough, root, v, hrun, hitems, htree, ?_⟩
  have hcalls : ∀ seed ∈ [Call.extract (.element (w.store.tree e.2) true), .drain].flatMap Call.seeds,
      seed.IsFrom w.schema := by simpa [Call.seeds] using hfrom
  have htarget := target_runAll hs hcalls (extracts_ofForms _ space elementForm attributeForm enough).traced
    (hrun enough (Nat.le_refl _))
  rw [Workspace.schema, htarget]
  have hname : (Seed.element (w.store.tree e.2) true).name = e.1 := by
    simp [Seed.name, hcomponent]
  change ((SchemaOf.empty space elementForm attributeForm).put .elements
    (Seed.element (w.store.tree e.2) true).name root).map v.store.tree = _
  rw [hname, ← htree]
  rfl

end Sources

/-- Extraction is idempotent.  Where a run of calls has come to the end of its queue, its target can be a source in
turn, with any elements of it marked: every element that was asked for at the top is found under its name, and asked
for again it comes out as it is in a new target, if the limit is large enough. -/
theorem extraction_idempotent {source : Schema} (hread : IsRead source) {space elementForm attributeForm : String}
    {limit : Nat} {calls : List Call} (hfrom : ∀ seed ∈ calls.flatMap Call.seeds, seed.IsFrom source)
    {roots : List Place} {w w' : Workspace}
    (hrun : (Call.runAll (.between source (.empty space elementForm attributeForm) limit) calls).runIn
      (.ofForms space elementForm attributeForm) = (.ok roots, w))
    (hitems : w.items = []) (hmarks : Relation.ReflTransGen Marks w w') :
    (∀ p ∈ w'.places, (w'.store.get p).kind = .element → ShowsElement w' p) ∧
    ∀ seed ∈ calls.flatMap Call.seeds, seed.topLevel → ∃ n, w'.schema.elements.get? seed.name = some n ∧
      ∃ enough root v, (∀ limit ≥ enough,
        (Call.runAll (.between w'.schema (.empty space elementForm attributeForm) limit)
          [.extract (.element n true), .drain]).runIn (.ofForms space elementForm attributeForm) = (.ok [root], v)) ∧
        v.items = [] ∧ v.store.tree root = n ∧
        v.schema = (SchemaOf.empty space elementForm attributeForm).put .elements seed.name n := by
  obtain ⟨hreusable, hfiles⟩ := reusable_extraction hread.proper hfrom hrun hitems
  obtain ⟨hmarked, htarget⟩ := hreusable.marks hmarks
  refine ⟨fun p hp hkind => hmarked.showsElement hp hkind, fun seed hseed htop => ?_⟩
  have hlength : (calls.flatMap Call.seeds).length = roots.length := by
    simpa using ((extracts_ofForms source space elementForm attributeForm limit).calls hread.proper hfrom
      hrun).tracks.represents.roots.length_eq
  obtain ⟨root, ha⟩ : ∃ root, (seed, root) ∈ (calls.flatMap Call.seeds).zip roots := by
    rw [← List.map_fst_zip hlength.le] at hseed
    obtain ⟨⟨seed, root⟩, ha, rfl⟩ := List.mem_map.1 hseed
    exact ⟨root, ha⟩
  obtain ⟨e, he, hname⟩ := List.mem_map.1 (hfiles.named _ ha htop)
  rw [← htarget] at he
  refine ⟨w'.store.tree e.2, Table.get?_of_mem (hmarked.proper.keyed .elements) ?_, ?_⟩
  · exact List.mem_map.2 ⟨e, he, by rw [hname]⟩
  · rw [← hname]
    exact hmarked.extracts he space elementForm attributeForm

def sampleMarks : Except Fault Unit × Workspace :=
  (markAll 3 [] [⟨"urn:n", "a"⟩]).runIn sampleRun.2

theorem sampleMarks_eq : sampleMarks = (.ok (), sampleMarks.2) := by
  have hdone : sampleMarks.1.toOption = some () := by decide +kernel
  exact Reader.run_eq_ok hdone

theorem extraction_idempotent_sample : sampleRun.2.items = [] ∧ sampleMarks = (.ok (), sampleMarks.2) ∧
    ∃ n, sampleMarks.2.schema.elements.get? (some "a") = some n ∧ ∃ enough root v,
      (∀ limit ≥ enough, (Call.runAll (.between sampleMarks.2.schema (.empty "" defaultForm defaultForm) limit)
        [.extract (.element n true), .drain]).runIn (.ofForms "" defaultForm defaultForm) = (.ok [root], v)) ∧
      v.items = [] ∧ v.store.tree root = n := by
  obtain ⟨hrun, hempty⟩ := sampleRun_eq
  have hfrom : ∀ seed ∈ [Call.extract sampleSeed, .drain].flatMap Call.seeds, seed.IsFrom sampleSchema := by
    simpa [Call.seeds] using sampleSeed_isFrom
  have hreusable := (reusable_extraction isRead_sampleSchema.proper hfrom hrun hempty).1
  have htop : ∀ q ∈ sampleRun.2.target.elements.values, ShowsElement sampleRun.2 q := by
    intro q hq
    obtain ⟨e, he, rfl⟩ := List.mem_map.1 hq
    exact hreusable.shows e he
  obtain ⟨n, hget, enough, root, v, hagain, hitems, htree, -⟩ :=
    (extraction_idempotent isRead_sampleSchema hfrom hrun hempty (marks_markAll htop sampleMarks_eq)).2 sampleSeed
      (by simp [Call.seeds]) rfl
  exact ⟨hempty, sampleMarks_eq, n, hget, enough, root, v, hagain, hitems, htree⟩

end PayloadSchema.Extraction
