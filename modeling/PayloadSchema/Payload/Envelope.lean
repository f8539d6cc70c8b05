import PayloadSchema.Message.Basic
import PayloadSchema.Payload.Marker
import PayloadSchema.Schema.Writer

/-!
# Payload schemas

The payload schema of a message has exactly one element at its top, which describes the whole payload. A
call is an element named after its operation that holds the body parts. A document with one part is the
element of the part, and any other document is an envelope around its parts. Where there are header parts,
the envelope holds one element for the header and one for the body.
-/

namespace PayloadSchema.Payload

open Schema Extraction

def envelopeName : String := "soap-payload-envelope"

def headerName : String := "soap-payload-header"

def bodyName : String := "soap-payload-body"

/-! ## Parts -/

/-- Whether the namespace of a part has to be marked, which is so when it is declared by a type. -/
def isMarked (p : Part) : Bool :=
  p.element.isNone

def markedNames (m : Message) : List QName :=
  let parts := ((m.header ++ m.body).filter isMarked).map (·.name)
  match m.style with
  | .rpc => m.wrapper :: parts
  | .document => parts

def addPart (c : Context) (topLevel : Bool) (p : Part) : Work Place :=
  match p.element, p.type with
  | some q, _ =>
    match c.source.find? .elements (some q) with
    | none => throw (.problem (.undeclaredElement q p.name))
    | some n => extractElement c (some n) topLevel
  | none, some q =>
    if q.isBuiltin then do
      let place ← addElement (some p.name.name) topLevel none
      Work.update place (Change.typeName (some q)).apply
      pure place
    else
      match c.source.find? .types (some q) with
      | none => throw (.problem (.undeclaredType q p.name))
      | some n => extractType c (some p.name.name) (some n) topLevel
  | none, none => throw (.problem (.untypedPart p.name))

def addParts (c : Context) (topLevel : Bool) (parts : List Part) : Work (List Place) :=
  parts.mapM (addPart c topLevel)

/-! ## Wrappers -/

def addWrapper (name : String) (topLevel : Bool) (items : List Place) : Work Place := do
  let sequence ← Work.push (.modelGroup .sequence .once items)
  let type ← Work.push (plainType [] none (some sequence))
  let place ← addElement (some name) topLevel none
  Work.update place (Slot.type.fill type)
  pure place

def addEnvelope (header body : List Place) : Work Unit := do
  let header ← addWrapper headerName false header
  let body ← addWrapper bodyName false body
  discard (addWrapper envelopeName true [header, body])

def addPayload (c : Context) (m : Message) : Work Unit := do
  match m.style, m.hasHeader with
  | .rpc, false =>
    let body ← addParts c false m.body
    discard (addWrapper m.wrapper.name true body)
  | .rpc, true =>
    let header ← addParts c false m.header
    let body ← addParts c false m.body
    addEnvelope header [← addWrapper m.wrapper.name false body]
  | .document, true =>
    let header ← addParts c false m.header
    let body ← addParts c false m.body
    addEnvelope header body
  | .document, false =>
    if m.body.length = 1 then discard (addParts c true m.body)
    else
      let body ← addParts c false m.body
      discard (addWrapper envelopeName true body)

/-! ## Synthesis -/

def context (settings : Settings) (source : Schema) : Context :=
  ⟨source, source.elementForm, source.attributeForm, settings.maxWorkItems⟩

def build (settings : Settings) (m : Message) (source : Schema) : Work Schema := do
  let c := context settings source
  addPayload c m
  drain c
  markAll settings.searchDepth [] (markedNames m)
  pure (← get).schema

def writePayload (settings : Settings) (m : Message) (source : Schema) : Work String := do
  let s ← build settings m source
  Work.ofExcept (s.write settings)

/-- The fault of a message: a problem tells which message it was met in. -/
def inMessage (m : Message) : Fault → Fault
  | .problem p => .problem (.inMessage m.direction m.operation p)
  | f => f

/-- The text of the payload schema of a message. Messages with several schemas, and encoded ones, are
refused at once. -/
def synthesize (settings : Settings) (m : Message) : Run String := do
  let source ← Run.ofExcept (m.source.mapError .problem)
  if m.use = .encoded then throw (.problem .encodedUse)
  let start := Workspace.ofForms source.space source.elementForm source.attributeForm
  tryCatch ((writePayload settings m source).toRun start) fun f => throw (inMessage m f)

end PayloadSchema.Payload
