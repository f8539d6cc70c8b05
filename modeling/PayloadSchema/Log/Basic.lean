import PayloadSchema.Fault

/-!
# Log entries

A computation may report entries of a log beside its result, and it keeps them when it stops with a fault.
`Run` is the monad of such computations.
-/

namespace PayloadSchema.Log

inductive Level where
  | debug
  | info
  | warning
  | error
  | critical
deriving DecidableEq, Repr

namespace Level

def name : Level → String
  | .debug => "DEBUG"
  | .info => "INFO"
  | .warning => "WARNING"
  | .error => "ERROR"
  | .critical => "CRITICAL"

def number : Level → Nat
  | .debug => 10
  | .info => 20
  | .warning => 30
  | .error => 40
  | .critical => 50

def ofName? (s : String) : Option Level :=
  [Level.debug, .info, .warning, .error, .critical].find? (·.name == s)

end Level

structure Entry where
  level : Level
  text : String
deriving DecidableEq, Repr

end PayloadSchema.Log

namespace PayloadSchema

abbrev Run := ExceptT Fault (StateM (Array Log.Entry))

namespace Run

def report (level : Log.Level) (text : String) : Run Unit :=
  modify (·.push ⟨level, text⟩)

def warn (text : String) : Run Unit :=
  report .warning text

def ofExcept : Except Fault α → Run α
  | .ok a => pure a
  | .error f => throw f

def result (r : Run α) : Except Fault α × Array Log.Entry :=
  (r.run).run #[]

end Run

end PayloadSchema
