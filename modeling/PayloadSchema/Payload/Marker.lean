import PayloadSchema.Extraction.Workspace

/-!
# Namespace markers

A part that is declared by a type, and the wrapper of a call, have a namespace that a local declaration
cannot state. It is recorded by a marker: an attribute of the element with a fixed value. The element that
a name stands for is searched from the top of the schema downwards, level by level, through the sequences
of complex types.
-/

namespace PayloadSchema.Payload

open Schema Extraction

/-! ## Searching -/

def shapeAt (w : Workspace) (p : Place) : Shape Place :=
  w.store.get p

def childElements (w : Workspace) (p : Place) : List Place :=
  match (shapeAt w p).ownType? with
  | some (some t) =>
    (((shapeAt w t).sequence? (shapeAt w)).getD []).filter fun i => (shapeAt w i).kind = .element
  | _ => []

def isNamed (w : Workspace) (name : String) (p : Place) : Bool :=
  match (shapeAt w p).component? with
  | some c => c.name = some name
  | none => false

/-- The first element of a name in a level or, going down as deep as allowed, in the levels below it. -/
def findBelow? (w : Workspace) (name : String) (skip : List Place) : (depth : Nat) → List Place →
    Option Place
  | 0, _ => none
  | depth + 1, level =>
    if level.isEmpty then none
    else
      match level.find? fun p => isNamed w name p && p ∉ skip with
      | some p => some p
      | none => findBelow? w name skip depth (level.flatMap (childElements w))

/-- The element of a name: the one at the top of the schema, or the first one below it. Everything at the
top has to have a type of its own or the lack of one. -/
def find? (w : Workspace) (name : String) (depth : Nat) (skip : List Place) :
    Except Fault (Option Place) :=
  match (w.target.elements.get? (some name)).filter (· ∉ skip) with
  | some p => .ok (some p)
  | none =>
    let top := w.target.elements.values
    if top.all fun p => (shapeAt w p).ownType?.isSome then
      .ok (findBelow? w name skip depth (top.flatMap (childElements w)))
    else .error .wrongNode

/-! ## Marking -/

def markerName : String := "soap-payload-namespace"

/-- What the name of an element is extended by for the element that takes over its simple type. -/
def valueSuffix : String := "-xml-simpletype-value"

def marker (space : String) : Shape Place :=
  .attribute ⟨some markerName, false⟩
    ⟨some (xsd "anyURI"), ⟨none, none, some space⟩, none⟩ none

def addMarker (p note : Place) : Work Unit := do
  if (← Work.look p).attributes?.isSome then Work.update p (·.addAttribute note)
  else throw .wrongNode

def plainType (attributes : List Place) (model particle : Option Place) : Shape Place :=
  .complexType ⟨none, false⟩ ⟨false, false⟩ attributes none model particle

def typeName? : Shape Place → Option QName
  | .element _ d _ => d.typeName
  | .attribute _ d _ => d.typeName
  | _ => none

/-- Marks an element with a namespace. A complex type takes the marker as an attribute, on its derivation
if it has one. A simple type moves into a value element inside a complex type, and a named type becomes the
base of simple content. -/
def mark (p : Place) (space : String) : Work Unit := do
  let note ← Work.push (marker space)
  let shape ← Work.look p
  let own ← match shape.ownType? with
    | none => throw .wrongNode
    | some own => pure own
  let type ← match own with
    | none => pure .schemaNode
    | some t => Work.look t
  match own, type with
  | some t, .complexType _ _ _ _ none _ => Work.update t (·.addAttribute note)
  | some t, .complexType _ _ _ _ (some model) _ =>
    match (← Work.look model).content? with
    | none => throw .wrongNode
    | some none => Work.update t (·.addAttribute note)
    | some (some derivation) => addMarker derivation note
  | some t, .simpleType .. =>
    let name := (shape.component?.bind (·.name)).getD ""
    let value ← Work.push (blankElement (some (name ++ valueSuffix)) false none)
    Work.update value (Slot.type.fill t)
    let sequence ← Work.push (.modelGroup .sequence .once [value])
    let wrapper ← Work.push (plainType [note] none (some sequence))
    Work.update p (·.withOwnType (some wrapper))
  | _, _ =>
    let base := (typeName? shape).getD (xsd "anySimpleType")
    let extension ← Work.push (.simpleContentExtension (some base) [note] none)
    let model ← Work.push (.simpleContent (some extension))
    let wrapper ← Work.push (plainType [] (some model) none)
    Work.update p (Slot.type.fill wrapper)

/-- Marks the elements that some names stand for. Names that share their local part are matched in order,
so an element is marked once. -/
def markAll (depth : Nat) (marked : List Place) : List QName → Work Unit
  | [] => pure ()
  | q :: qs => do
    match ← Work.ofExcept (find? (← get) q.name depth marked) with
    | none => throw (.problem (.missingPartElement q))
    | some p =>
      mark p q.space
      markAll depth (p :: marked) qs

end PayloadSchema.Payload
