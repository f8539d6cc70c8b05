import PayloadSchema.Proofs.Extraction.NoReferences
import PayloadSchema.Proofs.Payload.Assembly
import PayloadSchema.Proofs.Payload.UnmarkedParts

/-!
# The shape of a payload schema

The payload schema of a message has one element at its top, and the elements of the parts stand below it where
the style of the message asks for them.  The drain fills these elements, and the marks change what is inside
of them, but neither moves them.
-/

namespace PayloadSchema.Payload

open Schema Extraction Copying

/-! ## Parts -/

section Parts

variable {c : Context} {topLevel : Bool} {part : Part} {n : Node}

theorem complete_inlinePart (hs : c.source.Proper) (h : (inlinePart c topLevel part).Gives n) :
    Complete .element topLevel n.shape ∧ n.shape.component? = some ⟨some part.label, topLevel⟩ := by
  cases origin_part hs topLevel part with
  | undeclared f _ _ hinline =>
    rw [hinline] at h
    exact absurd h gives_throw
  | component seed hfrom htop hname _ hinline =>
    rw [hinline] at h
    rw [← htop, ← hname]
    exact ⟨(Seed.yields hs hfrom).2 n h, Seed.component?_inline hs hfrom h⟩
  | builtin q hbuiltin hlabel _ hinline =>
    rw [hinline, gives_pure] at h
    subst h
    refine ⟨⟨rfl, rfl, built_iff.2 ⟨⟨rfl, ?_, ?_⟩, by rintro _ ⟨⟩⟩⟩, by rw [hlabel]; rfl⟩
    · simp [builtinElement, Change.apply, blankElement, Node.shape, Shape.kind, Kind.isType]
    · simpa [builtinElement, Change.apply, blankElement, Node.shape, Shape.typeNames] using hbuiltin

end Parts

/-! ## After the drain -/

structure Filled (c : Context) (w : Workspace) (topLevel : Bool) (part : Part) (p : Place) : Prop where
  shows : ShowsElement w p
  gives : (inlinePart c topLevel part).Gives (w.store.tree p)

def Stands (w : Workspace) (attributes : List Place) (topLevel : Bool) (name : String)
    (items : List Place) (p : Place) : Prop :=
  Wraps w attributes topLevel name items p ∧ ShowsElement w p

/-- What is known of a workspace with a finished payload of a message: `stands` says of a place that it has the
element of a part, and `around` that it has an element around others. -/
structure Laid (around : Bool → String → List Place → Place → Prop) (stands : Bool → Part → Place → Prop)
    (m : Message) (target : SchemaOf Place) (w : Workspace) (calls header body : List Place)
    (root : Place) (name : String) : Prop where
  items : w.items = []
  header_stands : List.Forall₂ (stands false) m.header header
  body_stands : List.Forall₂ (stands m.isBare) m.body body
  stacked : Stacked around m calls header body root
  nodup : (header ++ body ++ calls).Nodup
  target_eq : w.target = target.put .elements (some name) root
  top : ShowsElement w root
  titled : (w.store.get root).name? = some name

section Drain

variable {c : Context} {m : Message} {target : SchemaOf Place} {w w' : Workspace}
  {asked : List (Seed × Place)} {calls header body items : List Place} {root p : Place}
  {name : String} {topLevel : Bool} {part : Part}

theorem exists_of_forall₂ {α β : Type} {relates : α → β → Prop} {as : List α} {bs : List β} {b : β}
    (h : List.Forall₂ relates as bs) (hb : b ∈ bs) : ∃ a ∈ as, relates a b := by
  induction h with
  | nil => cases hb
  | @cons a b' as bs hab _ ih =>
    rcases List.mem_cons.1 hb with rfl | hb
    · exact ⟨a, List.mem_cons_self, hab⟩
    · obtain ⟨a', ha', hab'⟩ := ih hb
      exact ⟨a', List.mem_cons_of_mem a ha', hab'⟩

theorem shape_tree (h : w.store.Holds 0 p (w.store.tree p)) :
    (w.store.tree p).shape = (w.store.get p).map w.store.tree :=
  congrArg Node.shape h.tree_get

theorem Filled.component? (hs : c.source.Proper) (h : Filled c w topLevel part p) :
    (w.store.get p).component? = some ⟨some part.label, topLevel⟩ := by
  have hcomponent := (complete_inlinePart hs h.gives).2
  rwa [shape_tree h.shows.shows.holds, Shape.component?_map] at hcomponent

theorem Filled.inner (hs : c.source.Proper) (h : Filled c w topLevel part p) :
    (w.store.get p).isTopLevel = topLevel := by
  have htop := (complete_inlinePart hs h.gives).1.topLevel
  rwa [shape_tree h.shows.shows.holds, Store.isTopLevel_map] at htop

theorem filled_drain (hs : c.source.Proper) (h : Gathers c asked w) (hbegun : Begun c asked w topLevel part p)
    (hrun : (drain c).runIn w = (.ok (), w')) : Filled c w' topLevel part p := by
  obtain ⟨htracks, hitems⟩ := h.tracks.drain hrun
  obtain ⟨hinside, hgives⟩ : p < w'.store.size ∧ (inlinePart c topLevel part).Gives (w'.store.tree p) := by
    cases hbegun with
    | asked seed hmem hinline _ =>
      have htrees := htracks.trees hitems
      have hroots := htracks.represents.roots
      rw [List.forall₂_map_left_iff, List.forall₂_map_right_iff, List.forall₂_same] at htrees hroots
      rw [hinline]
      exact ⟨(hroots _ hmem).1, htrees _ hmem⟩
    | builtin q hinside hfree hget hinline _ =>
      have hrests := rests_drain h.tracks.sound hrun
      have hinside' := hinside.trans_le hrests.grafts.size_le
      refine ⟨hinside', ?_⟩
      rw [hinline, gives_pure, (htracks.sound.store p hinside').tree_get, hrests.get_eq p hinside hfree,
        hget]
      rfl
  obtain ⟨hkind, -, hfinished⟩ := (complete_inlinePart hs hgives).1
  have hholds := htracks.sound.store p hinside
  refine ⟨⟨⟨hholds, ?_⟩, ?_⟩, hgives⟩
  · rwa [shape_tree hholds, ← hholds.tree_get] at hfinished
  · rwa [shape_tree hholds, Shape.kind_map] at hkind

private theorem shows_of_parts {s : Store} (hholds : s.Holds 0 p (s.tree p)) (hplain : (s.get p).Plain)
    (hparts : ∀ part ∈ (s.get p).parts, s.Shows part.2 ∧ part.1.admits (s.get part.2).kind ∧
      (s.get part.2).isTopLevel = false) : s.Shows p := by
  refine ⟨hholds, ?_⟩
  rw [hholds.tree_get]
  refine built_iff.2 ⟨Store.plain_map.2 hplain, ?_⟩
  rw [Shape.parts_map]
  intro part hpart
  obtain ⟨part, hmem, rfl⟩ := List.mem_map.1 hpart
  obtain ⟨hshows, hadmits, hinner⟩ := hparts part hmem
  have hshape := congrArg Node.shape hshows.holds.tree_get
  refine ⟨?_, ?_, hshows.finished⟩
  · rw [hshape]
    simpa [Node.shape] using hadmits
  · rw [hshape]
    simpa [Node.shape] using hinner

theorem shows_wraps (hsound : w.store.Sound) (h : Wraps w [] topLevel name items p)
    (hitems : ∀ q ∈ items, ShowsElement w q ∧ (w.store.get q).isTopLevel = false) :
    ShowsElement w p ∧ (w.store.get p).isTopLevel = topLevel := by
  obtain ⟨t, s, hp, ht, hs, -⟩ := h
  have hholds (q : Place) (hq : (w.store.get q).kind ≠ .schemaNode) : w.store.Holds 0 q (w.store.tree q) :=
    hsound q (Store.lt_size_of_kind hq)
  have hplain {shape : Shape Place} (hreference : shape.isReference = false)
      (hnamed : shape.isNamed = false ∨ shape.kind.isType = false) (hnames : shape.typeNames = []) :
      shape.Plain := by
    refine ⟨hreference, fun htype => ?_, by simp [hnames]⟩
    rcases hnamed with hnamed | hnamed
    · exact hnamed
    · rw [hnamed] at htype
      cases htype
  have hshowsS : w.store.Shows s := by
    refine shows_of_parts (hholds s (by rw [hs]; simp [Shape.kind])) ?_ fun part hpart => ?_
    · rw [hs]
      exact hplain rfl (.inr rfl) rfl
    · rw [hs, Shape.parts] at hpart
      obtain ⟨q, hq, rfl⟩ := List.mem_map.1 hpart
      obtain ⟨hshows, hinner⟩ := hitems q hq
      exact ⟨hshows.shows, by rw [hshows.kind]; rfl, hinner⟩
  have hshowsT : w.store.Shows t := by
    refine shows_of_parts (hholds t (by rw [ht]; simp [plainType, Shape.kind])) ?_ fun part hpart => ?_
    · rw [ht]
      exact hplain rfl (.inl rfl) rfl
    · rw [ht] at hpart
      obtain rfl : part = (.particle, s) := by simpa [plainType, Shape.parts] using hpart
      exact ⟨hshowsS, by rw [hs]; rfl, by rw [hs]; rfl⟩
  refine ⟨⟨shows_of_parts (hholds p (by rw [hp]; simp [blankElement, Slot.fill, Shape.kind])) ?_
    fun part hpart => ?_, by rw [hp]; rfl⟩, by rw [hp]; rfl⟩
  · rw [hp]
    exact hplain rfl (.inr rfl) rfl
  · rw [hp] at hpart
    obtain rfl : part = (.elementType, t) := by
      simpa [blankElement, Slot.fill, Shape.parts] using hpart
    exact ⟨hshowsT, by rw [ht]; rfl, by rw [ht]; rfl⟩

theorem Stacked.stands (hsound : w.store.Sound) (h : Stacked (Wraps w []) m calls header body root)
    (hheader : ∀ q ∈ header, ShowsElement w q ∧ (w.store.get q).isTopLevel = false)
    (hbody : ∀ q ∈ body, ShowsElement w q ∧ (w.store.get q).isTopLevel = m.isBare) :
    Stacked (Stands w []) m calls header body root ∧ ShowsElement w root := by
  have hinner (hbare : m.isBare = false) :
      ∀ q ∈ body, ShowsElement w q ∧ (w.store.get q).isTopLevel = false := by
    rwa [hbare] at hbody
  have hpair {a b : Place} (ha : ShowsElement w a ∧ (w.store.get a).isTopLevel = false)
      (hb : ShowsElement w b ∧ (w.store.get b).isTopLevel = false) :
      ∀ q ∈ [a, b], ShowsElement w q ∧ (w.store.get q).isTopLevel = false := by
    simpa using ⟨ha, hb⟩
  -- the elements are finished from the inside out
  unfold Stacked at h ⊢
  split at h
  · rename_i hstyle _
    obtain ⟨hcalls, hroot⟩ := h
    have hroot' := shows_wraps hsound hroot (hinner (by simp [Message.isBare, hstyle]))
    exact ⟨⟨hcalls, hroot, hroot'.1⟩, hroot'.1⟩
  · rename_i hstyle _
    obtain ⟨top, bottom, call, hcalls, hroot, htop, hbottom, hcall⟩ := h
    have hcall' := shows_wraps hsound hcall (hinner (by simp [Message.isBare, hstyle]))
    have htop' := shows_wraps hsound htop hheader
    have hbottom' := shows_wraps hsound hbottom (by simpa using hcall')
    have hroot' := shows_wraps hsound hroot (hpair htop' hbottom')
    exact ⟨⟨top, bottom, call, hcalls, ⟨hroot, hroot'.1⟩, ⟨htop, htop'.1⟩, ⟨hbottom, hbottom'.1⟩, hcall,
      hcall'.1⟩, hroot'.1⟩
  · rename_i _ hhas
    obtain ⟨hcalls, top, bottom, hroot, htop, hbottom⟩ := h
    have htop' := shows_wraps hsound htop hheader
    have hbottom' := shows_wraps hsound hbottom (hinner (by simp [Message.isBare, hhas]))
    have hroot' := shows_wraps hsound hroot (hpair htop' hbottom')
    exact ⟨⟨hcalls, top, bottom, ⟨hroot, hroot'.1⟩, ⟨htop, htop'.1⟩, hbottom, hbottom'.1⟩, hroot'.1⟩
  · obtain ⟨hcalls, hroot⟩ := h
    by_cases hone : m.body.length = 1
    · rw [if_pos hone] at hroot ⊢
      exact ⟨⟨hcalls, hroot⟩, (hbody root (by simp [hroot])).1⟩
    · rw [if_neg hone] at hroot ⊢
      have hroot' := shows_wraps hsound hroot (hinner (by simp [Message.isBare, hone]))
      exact ⟨⟨hcalls, hroot, hroot'.1⟩, hroot'.1⟩

theorem laid_drain (hs : c.source.Proper)
    (h : Assembled c m target w asked calls header body root name)
    (hrun : (drain c).runIn w = (.ok (), w')) :
    Laid (Stands w' []) (Filled c w') m target w' calls header body root name := by
  obtain ⟨hgathers, hbegunHeader, hbegunBody, hstacked, hnodup, htarget, htitled⟩ := h
  obtain ⟨htracks, hitems⟩ := hgathers.tracks.drain hrun
  have hrests := rests_drain hgathers.tracks.sound hrun
  have hfilledHeader := hbegunHeader.imp fun _ _ hp => filled_drain hs hgathers hp hrun
  have hfilledBody := hbegunBody.imp fun _ _ hp => filled_drain hs hgathers hp hrun
  have hwraps (topLevel : Bool) (name : String) (items : List Place) (p : Place)
      (hp : Wraps w [] topLevel name items p) : Wraps w' [] topLevel name items p :=
    hp.keep fun q hq hfree => ⟨hrests.get_eq q hq hfree, by simp [Workspace.Free, hitems]⟩
  have hfinished {topLevel : Bool} {parts : List Part} {places : List Place}
      (hfilled : List.Forall₂ (Filled c w' topLevel) parts places) :
      ∀ q ∈ places, ShowsElement w' q ∧ (w'.store.get q).isTopLevel = topLevel := by
    intro q hq
    obtain ⟨part, -, hfill⟩ := exists_of_forall₂ hfilled hq
    exact ⟨hfill.shows, hfill.inner hs⟩
  obtain ⟨hstands, hroot⟩ :=
    (hstacked.imp hwraps).stands htracks.sound.store (hfinished hfilledHeader) (hfinished hfilledBody)
  refine ⟨hitems, hfilledHeader, hfilledBody, hstands, hnodup, hrests.target.trans htarget, hroot, ?_⟩
  rcases htitled with ⟨items, hwrap⟩ | ⟨rfl, hlabel⟩
  · obtain ⟨t, s, hget, -⟩ := hwraps _ _ _ _ hwrap
    rw [hget]
    rfl
  · obtain ⟨part, hpart, hfill⟩ := exists_of_forall₂ (b := root) hfilledBody (by simp)
    rw [Shape.name?, hfill.component? hs, ← hlabel part hpart]
    rfl

end Drain

/-! ## After the marks -/

structure Named (w : Workspace) (topLevel : Bool) (part : Part) (p : Place) : Prop where
  shows : ShowsElement w p
  component : (w.store.get p).component? = some ⟨some part.label, topLevel⟩

def StandsMarked (w : Workspace) (topLevel : Bool) (name : String) (items : List Place) (p : Place) :
    Prop :=
  ∃ attributes, Stands w attributes topLevel name items p

section Marks

variable {around : Bool → String → List Place → Place → Prop} {stands : Bool → Part → Place → Prop}
  {c : Context} {m : Message} {target : SchemaOf Place} {w w' : Workspace}
  {calls header body items attributes : List Place} {root p : Place} {name : String} {topLevel : Bool}
  {depth : Nat} {marked : List Place} {names : List QName} {part : Part}

structure Leaves (w w' : Workspace) : Prop where
  spares : w.store.Spares w'.store
  keeps : Keeps w w'
  items : w'.items = w.items

theorem leaves_markAll (htop : ∀ q ∈ w.target.elements.values, ShowsElement w q)
    (h : (markAll depth marked names).runIn w = (.ok (), w')) : Leaves w w' := by
  obtain ⟨hspares, hitems⟩ := spares_markAll htop h
  exact ⟨hspares, keeps_markAll htop h, hitems⟩

theorem Named.leaves (h : Named w topLevel part p) (hleaves : Leaves w w') :
    Named w' topLevel part p := by
  refine ⟨h.shows.keeps hleaves.keeps, ?_⟩
  rw [hleaves.spares.component p h.shows.shows.holds.lt_size, h.component]

theorem StandsMarked.leaves (hitems : w.items = []) (h : StandsMarked w topLevel name items p)
    (hleaves : Leaves w w') : StandsMarked w' topLevel name items p := by
  obtain ⟨attributes, ⟨t, s, hp, ht, hs, -⟩, hshows⟩ := h
  have hlt (q : Place) (hq : (w.store.get q).kind ≠ .schemaNode) : q < w.store.size :=
    Store.lt_size_of_kind hq
  have htype : (w.store.get t).kind = .complexType := by
    rw [ht]
    rfl
  obtain ⟨attributes', ht'⟩ := hleaves.spares.type (hlt t (by rw [htype]; decide)) ht
  refine ⟨attributes', ⟨t, s, ?_, ht', ?_, by simp [Workspace.Free, hleaves.items, hitems]⟩,
    hshows.keeps hleaves.keeps⟩
  · rw [hleaves.spares.element hshows.shows.holds.lt_size hp htype, hp]
  · rw [hleaves.spares.group (hlt s (by rw [hs]; simp [Shape.kind])) hs, hs]

theorem Filled.named (hs : c.source.Proper) (h : Filled c w topLevel part p) : Named w topLevel part p :=
  ⟨h.shows, h.component? hs⟩

/-- A finished payload with the names that are asked for is one also without anything known of its content. -/
theorem Laid.named (hs : c.source.Proper)
    (h : Laid (Stands w []) (Filled c w) m target w calls header body root name) :
    Laid (StandsMarked w) (Named w) m target w calls header body root name :=
  { h with
    header_stands := h.header_stands.imp fun _ _ hp => hp.named hs
    body_stands := h.body_stands.imp fun _ _ hp => hp.named hs
    stacked := h.stacked.imp fun _ _ _ _ hp => ⟨[], hp⟩ }

theorem Laid.onTop {space elementForm attributeForm : String}
    (h : Laid around stands m (.empty space elementForm attributeForm) w calls header body root name) :
    ∀ q ∈ w.target.elements.values, ShowsElement w q := by
  rw [h.target_eq]
  simpa [SchemaOf.put, SchemaOf.empty, Table.put, Table.values] using h.top

theorem Laid.leaves (h : Laid (StandsMarked w) (Named w) m target w calls header body root name)
    (hleaves : Leaves w w') :
    Laid (StandsMarked w') (Named w') m target w' calls header body root name where
  items := hleaves.items.trans h.items
  header_stands := h.header_stands.imp fun _ _ hp => hp.leaves hleaves
  body_stands := h.body_stands.imp fun _ _ hp => hp.leaves hleaves
  stacked := h.stacked.imp fun _ _ _ _ hp => hp.leaves h.items hleaves
  nodup := h.nodup
  target_eq := hleaves.keeps.target.trans h.target_eq
  top := h.top.keeps hleaves.keeps
  titled := by
    rw [Shape.name?, hleaves.spares.component root h.top.shows.holds.lt_size]
    exact h.titled

end Marks

/-! ## Trees -/

/-- An element with a type of its own that is a sequence of elements and has no name. -/
def Around (attributes : List Node) (topLevel : Bool) (name : String) (items : List Node) (n : Node) :
    Prop :=
  n = ⟨Slot.type.fill
    ⟨.complexType ⟨none, false⟩ ⟨false, false⟩ attributes none none
      (some ⟨.modelGroup .sequence .once items⟩)⟩
    (blankElement (some name) topLevel none)⟩

/-- A schema with one element, which is the payload of a message, and with nothing else.  What the elements of
the parts are, and what elements around them have beside these, is said by `stands` and by `around`. -/
def IsPayload (around : Bool → String → List Node → Node → Prop) (stands : Bool → Part → Node → Prop)
    (m : Message) (s : Schema) : Prop :=
  ∃ name root calls header body,
    s.elements = [(some name, root)] ∧ root.shape.name? = some name ∧
    (s.attributes = [] ∧ s.types = [] ∧ s.groups = [] ∧ s.attributeGroups = []) ∧
    (∀ n ∈ s.nodes, n.shape.kind.isType → n.shape.isNamed = false) ∧
    Stacked around m calls header body root ∧
    List.Forall₂ (stands false) m.header header ∧ List.Forall₂ (stands m.isBare) m.body body

section Trees

variable {around : Bool → String → List Place → Place → Prop} {stands : Bool → Part → Place → Prop}
  {around' : Bool → String → List Node → Node → Prop} {stands' : Bool → Part → Node → Prop}
  {m : Message} {w : Workspace} {calls header body items attributes : List Place} {root p : Place}
  {name space elementForm attributeForm : String} {topLevel : Bool}

theorem around_tree (h : Stands w attributes topLevel name items p) :
    Around (attributes.map w.store.tree) topLevel name (items.map w.store.tree) (w.store.tree p) := by
  obtain ⟨⟨t, s, hp, ht, hs, -⟩, hshows⟩ := h
  have hholds {q r : Place} (hq : w.store.Holds 0 q (w.store.tree q)) (hr : r ∈ (w.store.get q).children) :
      w.store.Holds 0 r (w.store.tree r) := by
    obtain ⟨n, hn⟩ := hq.inner r hr
    rwa [hn.tree_eq]
  have hholdsT := hholds hshows.shows.holds
    (show t ∈ (w.store.get p).children by simp [hp, blankElement, Slot.fill, Shape.children])
  have hholdsS := hholds hholdsT
    (show s ∈ (w.store.get t).children by simp [ht, plainType, Shape.children])
  rw [Around, hshows.shows.holds.tree_get, hp, Slot.map_fill, hholdsT.tree_get, ht]
  simp only [plainType, Shape.map, Option.map_none, Option.map_some, hholdsS.tree_get, hs]
  rfl

theorem Laid.isPayload
    (h : Laid around stands m (.empty space elementForm attributeForm) w calls header body root name)
    (haround : ∀ topLevel name items p, around topLevel name items p →
      around' topLevel name (items.map w.store.tree) (w.store.tree p))
    (hstands : ∀ topLevel part p, stands topLevel part p → stands' topLevel part (w.store.tree p)) :
    IsPayload around' stands' m w.schema := by
  have hmap {topLevel : Bool} {parts : List Part} {places : List Place}
      (hplaces : List.Forall₂ (stands topLevel) parts places) :
      List.Forall₂ (stands' topLevel) parts (places.map w.store.tree) :=
    List.forall₂_map_right_iff.2 (hplaces.imp fun _ _ hp => hstands _ _ _ hp)
  have htree : (w.store.tree root).shape = (w.store.get root).map w.store.tree :=
    shape_tree h.top.shows.holds
  have hroots : w.schema.roots = [w.store.tree root] := by
    rw [Workspace.schema, h.target_eq]
    rfl
  refine ⟨name, w.store.tree root, calls.map w.store.tree, header.map w.store.tree,
    body.map w.store.tree, ?_, ?_, ?_, fun n hn htype => ?_, h.stacked.map _ haround, hmap h.header_stands,
    hmap h.body_stands⟩
  · rw [Workspace.schema, h.target_eq]
    rfl
  · rw [htree, Shape.name?_map, h.titled]
  · rw [Workspace.schema, h.target_eq]
    exact ⟨rfl, rfl, rfl, rfl⟩
  · have hstack : ∀ n ∈ [w.store.tree root], n.Built Shape.Plain := by
      simpa using h.top.shows.finished
    rw [Schema.nodes, hroots] at hn
    exact (built_walk hstack n hn).here.unnamed htype

/-- A finished payload can be written, unless the prefix leaves a brace open. -/
theorem Laid.write_cases
    (h : Laid around stands m (.empty space elementForm attributeForm) w calls header body root name)
    (settings : Settings) :
    Xml.isUnclosed settings.schemaPrefix = false ∧ (∃ text, w.schema.write settings = .ok text) ∨
      Xml.isUnclosed settings.schemaPrefix ∧ w.schema.write settings = .error (.badValue .unclosedName) := by
  have hschema : w.schema = { SchemaOf.empty space elementForm attributeForm with
      elements := [(some name, w.store.tree root)] } := by
    rw [Workspace.schema, h.target_eq]
    rfl
  rw [hschema]
  refine Schema.write_cases (Writer.written_toTree (fun n hn => ?_) rfl rfl rfl rfl settings.schemaPrefix)
  obtain rfl : n = w.store.tree root := by simpa [Table.values] using hn
  refine ⟨?_, h.top.shows.finished⟩
  rw [shape_tree h.top.shows.holds, Shape.kind_map, h.top.kind]

end Trees

/-! ## Synthesis -/

section Synthesis

variable {m : Message} {source : Schema} {settings : Settings} {log log' : Array Log.Entry} {text : String}

theorem proper_source (hread : ∀ s ∈ m.schemas, IsRead s) (hsource : m.source = .ok source) :
    source.Proper := by
  rw [Message.source] at hsource
  split at hsource
  · cases hsource
    refine ⟨fun table entry hentry => ?_, fun table => ?_⟩
    · cases table <;> cases hentry
    · cases table <;> exact List.nodup_nil
  · rename_i s hschemas
    cases hsource
    exact (hread source (by simp [hschemas])).proper
  · cases hsource

/-- The workspace in which a payload schema is made. -/
def start (source : Schema) : Workspace :=
  .ofForms source.space source.elementForm source.attributeForm

private theorem run_toRun {α : Type} (step : Work α) (w : Workspace) (log : Array Log.Entry) :
    (step.toRun w).run.run log = ((step.runIn w).1, log ++ (step.runIn w).2.log) := by
  unfold Work.toRun
  match step.runIn w with
  | (.ok a, w') => rfl
  | (.error f, w') => rfl

/-- To synthesize a payload is to write it, unless the message is refused at once. -/
theorem run_synthesize (settings : Settings) (m : Message) (log : Array Log.Entry) :
    (synthesize settings m).run.run log =
      match m.source with
      | .error p => (.error (.problem p), log)
      | .ok source =>
        if m.use = .encoded then (.error (.problem .encodedUse), log)
        else
          let (result, w) := (writePayload settings m source).runIn (start source)
          (result.mapError (inMessage m), log ++ w.log) := by
  unfold synthesize
  match m.source with
  | .error p => rfl
  | .ok source =>
    by_cases huse : m.use = .encoded
    · simp only [huse, if_true]
      rfl
    · simp only [huse, if_false]
      change (tryCatch ((writePayload settings m source).toRun (start source))
        fun f => throw (inMessage m f)).run.run log = _
      generalize writePayload settings m source = payload
      have hcatch := Run.run_tryCatch (payload.toRun (start source)) (fun f => throw (inMessage m f)) log
      rw [run_toRun] at hcatch
      refine hcatch.trans ?_
      match payload.runIn (start source) with
      | (.ok a, w) => rfl
      | (.error f, w) => rfl

theorem build_eq_ok {w₀ w' : Workspace} {s : Schema} :
    (build settings m source).runIn w₀ = (.ok s, w') ↔
      ∃ w₁ w₂, (addPayload (context settings source) m).runIn w₀ = (.ok (), w₁) ∧
        (drain (context settings source)).runIn w₁ = (.ok (), w₂) ∧
        (markAll settings.searchDepth [] (markedNames m)).runIn w₂ = (.ok (), w') ∧ s = w'.schema := by
  simp only [build, Work.runIn_bind_eq_ok, Work.runIn_get, Work.runIn_pure, Prod.mk.injEq]
  constructor
  · rintro ⟨_, w₁, hadd, _, w₂, hdrain, _, w₃, hmark, w, _, ⟨hw, rfl⟩, hs, rfl⟩
    cases hw
    cases hs
    exact ⟨w₁, w₂, hadd, hdrain, hmark, rfl⟩
  · rintro ⟨w₁, w₂, hadd, hdrain, hmark, rfl⟩
    exact ⟨_, w₁, hadd, _, w₂, hdrain, _, w', hmark, w', w', ⟨rfl, rfl⟩, rfl, rfl⟩

/-- A payload that has been put together and drained is laid out as the message asks for. -/
theorem exists_laid {c : Context} {w₁ w₂ : Workspace} (hs : c.source.Proper)
    (hadd : (addPayload c m).runIn (start c.source) = (.ok (), w₁))
    (hdrain : (drain c).runIn w₁ = (.ok (), w₂)) :
    ∃ calls header body root name, Laid (Stands w₂ []) (Filled c w₂) m
      (.empty c.source.space c.source.elementForm c.source.attributeForm) w₂ calls header body root
      name := by
  obtain ⟨asked, calls, header, body, root, name, hassembled⟩ :=
    assembled_addPayload hs (gathers_ofForms c _ _ _) hadd
  exact ⟨calls, header, body, root, name, laid_drain hs hassembled hdrain⟩

theorem exists_laid_marked {w₀ w₁ w₂ : Workspace} {c : Context} {depth : Nat} {names : List QName}
    (hs : c.source.Proper) (hadd : (addPayload c m).runIn (start c.source) = (.ok (), w₀))
    (hdrain : (drain c).runIn w₀ = (.ok (), w₁))
    (hmark : (markAll depth [] names).runIn w₁ = (.ok (), w₂)) :
    ∃ calls header body root name, Laid (StandsMarked w₂) (Named w₂) m
      (.empty c.source.space c.source.elementForm c.source.attributeForm) w₂ calls header body root
      name := by
  obtain ⟨calls, header, body, root, name, hlaid⟩ := exists_laid hs hadd hdrain
  exact ⟨calls, header, body, root, name, (hlaid.named hs).leaves (leaves_markAll hlaid.onTop hmark)⟩

/-- A payload schema that has been built can be written, unless the prefix leaves a brace open. -/
theorem write_cases {w' : Workspace} {s : Schema} (hs : source.Proper)
    (hbuild : (build settings m source).runIn (start source) = (.ok s, w')) :
    Xml.isUnclosed settings.schemaPrefix = false ∧ (∃ text, s.write settings = .ok text) ∨
      Xml.isUnclosed settings.schemaPrefix ∧ s.write settings = .error (.badValue .unclosedName) := by
  obtain ⟨w₁, w₂, hadd, hdrain, hmark, rfl⟩ := build_eq_ok.1 hbuild
  obtain ⟨calls, header, body, root, name, hlaid⟩ :=
    exists_laid_marked (c := context settings source) hs hadd hdrain hmark
  exact hlaid.write_cases settings

theorem exists_text {w' : Workspace} {s : Schema} (hs : source.Proper)
    (hlabel : Xml.isUnclosed settings.schemaPrefix = false)
    (hbuild : (build settings m source).runIn (start source) = (.ok s, w')) :
    ∃ text, s.write settings = .ok text := by
  rcases write_cases hs hbuild with ⟨-, htext⟩ | ⟨hopen, -⟩
  · exact htext
  · rw [hlabel] at hopen
    cases hopen

theorem runIn_writePayload (settings : Settings) (m : Message) (source : Schema) (w : Workspace) :
    (writePayload settings m source).runIn w =
      (((build settings m source).runIn w).1.bind (·.write settings),
        ((build settings m source).runIn w).2) := by
  rw [writePayload, Work.runIn_bind]
  match (build settings m source).runIn w with
  | (.ok s, w') => exact Work.runIn_ofExcept _ _
  | (.error f, w') => rfl

theorem synthesize_eq_ok :
    (synthesize settings m).run.run log = (.ok text, log') ↔
      ∃ source s w, m.source = .ok source ∧ m.use = .literal ∧
        (build settings m source).runIn (start source) = (.ok s, w) ∧ s.write settings = .ok text ∧
        log' = log ++ w.log := by
  rw [run_synthesize]
  constructor
  · intro h
    cases hsource : m.source with
    | error p =>
      rw [hsource] at h
      cases h
    | ok source =>
      cases huse : m.use with
      | encoded =>
        simp only [hsource, huse, if_true] at h
        cases h
      | literal =>
        simp only [hsource, huse, reduceCtorEq, if_false, runIn_writePayload] at h
        match hbuild : (build settings m source).runIn (start source) with
        | (.error f, w) =>
          rw [hbuild] at h
          cases h
        | (.ok s, w) =>
          rw [hbuild] at h
          cases hwrite : s.write settings with
          | error f =>
            rw [Except.bind, hwrite] at h
            cases h
          | ok written =>
            rw [Except.bind, hwrite] at h
            cases h
            exact ⟨source, s, w, rfl, rfl, hbuild, hwrite, rfl⟩
  · rintro ⟨source, s, w, hsource, huse, hbuild, hwrite, rfl⟩
    simp only [hsource, huse, reduceCtorEq, if_false, runIn_writePayload, hbuild, Except.bind, hwrite]
    rfl

/-- When the payload of a message has been synthesized, what is written is a schema with one element at its
top, in which the elements of the parts stand as the style of the message, its direction and its header ask
for, each of them once, in order and under its name.  Before the marks these elements are the inlined ones,
and the elements around them have nothing beside them. -/
theorem synthesize_lays_out (hread : ∀ s ∈ m.schemas, IsRead s)
    (hrun : (synthesize settings m).run.run log = (.ok text, log')) :
    ∃ source w w', m.source = .ok source ∧
      (do
        addPayload (context settings source) m
        drain (context settings source)).runIn (start source) = (.ok (), w) ∧
      IsPayload (Around []) (fun topLevel part n =>
        (inlinePart (context settings source) topLevel part).Gives n) m w.schema ∧
      (markAll settings.searchDepth [] (markedNames m)).runIn w = (.ok (), w') ∧
      IsPayload (fun topLevel name items n => ∃ attributes, Around attributes topLevel name items n)
        (fun topLevel part n => n.shape.kind = .element ∧
          n.shape.component? = some ⟨some part.label, topLevel⟩) m w'.schema ∧
      w'.schema.write settings = .ok text := by
  obtain ⟨source, s, w', hsource, -, hbuild, hwrite, -⟩ := synthesize_eq_ok.1 hrun
  have hs : (context settings source).source.Proper := proper_source hread hsource
  obtain ⟨w₁, w₂, hadd, hdrain, hmark, rfl⟩ := build_eq_ok.1 hbuild
  obtain ⟨calls, header, body, root, name, hlaid⟩ := exists_laid hs hadd hdrain
  have hmarked := (hlaid.named hs).leaves (leaves_markAll hlaid.onTop hmark)
  refine ⟨source, w₂, w', hsource, ?_, ?_, hmark, ?_, hwrite⟩
  · rw [Work.runIn_bind_of_ok hadd, hdrain]
  · exact hlaid.isPayload (fun _ _ _ _ hp => around_tree hp) fun _ _ _ hp => hp.gives
  · refine hmarked.isPayload (fun _ _ _ _ ⟨attributes, hp⟩ => ⟨_, around_tree hp⟩) fun _ _ p hp => ?_
    rw [shape_tree hp.shows.shows.holds, Shape.kind_map, Shape.component?_map]
    exact ⟨hp.shows.kind, hp.component⟩

end Synthesis

/-! ## A sample -/

/-- The answer to a call, with a header, a part of a named type and one of a type that is built in. -/
def sampleMessage : Message where
  operation := ⟨"urn:s", "call"⟩
  direction := .output
  style := .rpc
  use := .literal
  body := [⟨⟨"urn:p", "b"⟩, none, some ⟨"urn:s", "T"⟩⟩, ⟨⟨"urn:p", "c"⟩, none, some (xsd "int")⟩]
  header := [⟨⟨"urn:p", "h"⟩, some ⟨"urn:s", "a"⟩, none⟩]
  schemas := [sampleSchema]
  space := "urn:s"

theorem isRead_sampleMessage : ∀ s ∈ sampleMessage.schemas, IsRead s := by
  simpa [sampleMessage] using isRead_sampleSchema

theorem exists_synthesize_sampleMessage :
    ∃ text log, (synthesize .standard sampleMessage).run.run #[] = (.ok text, log) := by
  have hok : ((build .standard sampleMessage sampleSchema).runIn (start sampleSchema)).1.toOption.isSome := by
    decide +kernel
  obtain ⟨s, w, hbuild⟩ : ∃ s w,
      (build .standard sampleMessage sampleSchema).runIn (start sampleSchema) = (.ok s, w) := by
    revert hok
    generalize (build .standard sampleMessage sampleSchema).runIn (start sampleSchema) = run
    obtain ⟨_ | s, w⟩ := run
    · rintro ⟨⟩
    · exact fun _ => ⟨s, w, rfl⟩
  obtain ⟨text, htext⟩ := exists_text isRead_sampleSchema.proper (by decide) hbuild
  exact ⟨text, _, synthesize_eq_ok.2 ⟨sampleSchema, s, w, rfl, rfl, hbuild, htext, rfl⟩⟩

/-- The sample is laid out as an envelope around a header and a body. -/
theorem synthesize_lays_out_sample :
    ∃ s, IsPayload (fun topLevel name items n => ∃ attributes, Around attributes topLevel name items n)
        (fun topLevel part n => n.shape.kind = .element ∧
          n.shape.component? = some ⟨some part.label, topLevel⟩) sampleMessage s ∧
      ∃ text log, (synthesize .standard sampleMessage).run.run #[] = (.ok text, log) ∧
        s.write .standard = .ok text := by
  obtain ⟨text, log, hrun⟩ := exists_synthesize_sampleMessage
  obtain ⟨_, _, w', -, -, -, -, hlaid, hwrite⟩ := synthesize_lays_out isRead_sampleMessage hrun
  exact ⟨w'.schema, hlaid, text, log, hrun, hwrite⟩

end PayloadSchema.Payload
