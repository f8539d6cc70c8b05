import PayloadSchema.Extraction.Queue
import PayloadSchema.Extraction.Rule
import PayloadSchema.Extraction.Store
import PayloadSchema.Log.Basic

/-!
# Workspaces

An extraction fills a target schema in a workspace. The places that are not complete wait in a queue, each
with the node that it is a copy of and with the path of components through which it was reached. What has
been done stays done when a step stops with a fault.
-/

namespace PayloadSchema.Extraction

open Schema

/-- A place whose copy is not complete. -/
structure WorkItem where
  place : Place
  origin : Node
  /-- The components through which the node was reached, the first one first. -/
  path : List ComponentKey

/-- The state of an extraction. -/
structure Workspace where
  target : SchemaOf Place
  store : Store
  queue : Queue WorkItem
  /-- How many items have been handled so far. -/
  handled : Nat
  log : Array Log.Entry

/-- A step of an extraction. -/
abbrev Work := ExceptT Fault (StateM Workspace)

namespace Workspace

def ofForms (space elementForm attributeForm : String) : Workspace :=
  ⟨.empty space elementForm attributeForm, .empty, .empty, 0, #[]⟩

def ofSchema (s : Schema) : Workspace :=
  let push (t : Components Node) : StateM Store (Components Place) :=
    t.mapM fun e => do pure (e.1, ← Store.pushTree e.2)
  let fill : StateM Store (SchemaOf Place) := do
    pure ⟨s.space, s.elementForm, s.attributeForm, ← push s.elements, ← push s.attributes,
      ← push s.types, ← push s.groups, ← push s.attributeGroups⟩
  let (target, store) := fill.run .empty
  ⟨target, store, .empty, 0, #[]⟩

def schema (w : Workspace) : Schema :=
  w.target.map w.store.tree

def places (w : Workspace) : List Place :=
  w.target.roots.flatMap w.store.places

end Workspace

namespace Work

def runIn (w : Workspace) (step : Work α) : Except Fault α × Workspace :=
  step.run.run w

def toRun (w : Workspace) (step : Work α) : Run α := do
  let (result, w) := step.runIn w
  modify (· ++ w.log)
  Run.ofExcept result

def ofExcept : Except Fault α → Work α
  | .ok a => pure a
  | .error f => throw f

def warn (text : String) : Work Unit :=
  modify fun w => { w with log := w.log.push ⟨.warning, text⟩ }

def onStore (f : StateM Store α) : Work α :=
  modifyGet fun w =>
    let (a, store) := f.run w.store
    (a, { w with store := store })

def look (p : Place) : Work (Shape Place) := do
  pure ((← get).store.get p)

def push (shape : Shape Place) : Work Place :=
  onStore (modifyGet (·.push shape))

def update (p : Place) (f : Shape Place → Shape Place) : Work Unit :=
  onStore (modify (·.update p f))

def register (table : TableName) (name : Option String) (p : Place) : Work Unit :=
  modify fun w => { w with target := w.target.put table name p }

end Work

/-! ## Edits at work -/

/-- Queues the copy of a node at a place, unless its component is on the path already. -/
def schedule (path : List ComponentKey) (key : Option ComponentKey) (p : Place) (n : Node) :
    Work Unit := do
  match key with
  | some k =>
    if k ∈ path then throw (.problem (.circularType (path.map (·.name)) k.name))
  | none => pure ()
  modify fun w => { w with queue := w.queue.push ⟨p, n, path ++ key.toList⟩ }

def create (c : Context) (path : List ComponentKey) (child : Child) : Work Place := do
  let shape ← Work.ofExcept child.outline
  let p ← Work.onStore do
    let shape ← shape.traverse Store.pushTree
    modifyGet (·.push shape)
  schedule path (child.key? c.source.space) p child.origin
  pure p

def perform (c : Context) (path : List ComponentKey) (p : Place) : Edit → Work Unit
  | .attach slot child => do
    let place ← create c path child
    Work.update p (slot.fill place)
  | .attachSequence first second => do
    let a ← create c path first
    let b ← create c path second
    let place ← Work.push (.modelGroup .sequence .once [a, b])
    Work.update p (Slot.particle.fill place)
  | .discard child => do
    let _ ← create c path child
  | .follow n => schedule path (n.shape.key? c.source.space) p n
  | .change change => Work.update p change.apply
  | .wildcard w => do
    let place ← Work.push (.anyAttribute w)
    Work.update p (·.withAny (some place))
  | .warn text => Work.warn text
  | .stop f => throw f

def performAll (c : Context) (path : List ComponentKey) (p : Place) (es : List Edit) : Work Unit :=
  es.forM (perform c path p)

/-! ## Roots and draining -/

def blankElement {α : Type} (name : Option String) (topLevel : Bool) (form : Option String) : Shape α :=
  .element ⟨name, topLevel⟩ ⟨none, none, .once, false, false, none, none, form⟩ none

/-- Puts an empty element at a new place and, if asked for, at the top of the target. -/
def addElement (name : Option String) (topLevel : Bool) (form : Option String) : Work Place := do
  let p ← Work.push (blankElement name topLevel form)
  if topLevel then Work.register .elements name p
  pure p

/-- Starts the copy of an element of the source. Below the top of the target, where its form is not the
default, the form is stated. -/
def extractElement (c : Context) (n : Option Node) (topLevel : Bool) : Work Place := do
  match n with
  | none => throw .wrongNode
  | some n =>
    match n.shape.component? with
    | none => throw .wrongNode
    | some own =>
      let form := if !topLevel && own.topLevel && c.elementForm ≠ qualified then some qualified else none
      let p ← addElement own.name topLevel form
      performAll c [] p (followEdits .element n)
      pure p

def extractType (c : Context) (name : Option String) (n : Option Node) (topLevel : Bool) :
    Work Place := do
  let p ← addElement name topLevel none
  match n with
  | none => throw .wrongNode
  | some n =>
    perform c [] p (.attach .type (.plain n))
    pure p

def handle (c : Context) (item : WorkItem) : Work Unit := do
  let shape ← Work.look item.place
  performAll c item.path item.place (edits c shape.kind item.origin)

def next? : Work (Option WorkItem) :=
  modifyGet fun w =>
    match w.queue.pop? with
    | none => (none, w)
    | some (item, queue) => (some item, { w with queue := queue })

/-- Completes the copies in the queue, the oldest first, as long as the budget lasts. -/
def drainWithin (c : Context) : (budget : Nat) → Work Unit
  | 0 => do
    match ← next? with
    | none => pure ()
    | some _ => throw (.problem (.workLimit c.limit))
  | budget + 1 => do
    match ← next? with
    | none => pure ()
    | some item =>
      modify fun w => { w with handled := w.handled + 1 }
      handle c item
      drainWithin c budget

/-- Completes all copies in the queue. The limit counts the items of all drains of a workspace. -/
def drain (c : Context) : Work Unit := do
  drainWithin c (c.limit - (← get).handled)

end PayloadSchema.Extraction
