import PayloadSchema.Settings.Environment

/-!
# Log output

An application that embeds the library sets a threshold once and then gets each record of the library at
or above it as one line of named fields. The threshold is named by the caller or by a variable.
-/

namespace PayloadSchema.Log

def rootLogger : String := "soap_api"

/-- Upper case for the letters a to z, the dotless i and the long s. No other character turns into letters
of a threshold name. -/
def upper (s : String) : String :=
  String.ofList (s.toList.map fun c => if c = 'ı' then 'I' else if c = 'ſ' then 'S' else c.toUpper)

/-- The number of a named threshold. Besides the levels there are a short name for a warning, a second
name for a critical error, and the name for no threshold at all. -/
def threshold? (name : String) : Option Nat :=
  match name with
  | "WARN" => some Level.warning.number
  | "FATAL" => some Level.critical.number
  | "NOTSET" => some 0
  | _ => (Level.ofName? name).map Level.number

/-- The threshold that a caller names; without a name it is taken from the environment. -/
def setThreshold (env : Settings.Environment) (name : Option String) : Run Nat := do
  let given ← match name with
    | none | some "" => env.text? "SOAP_LOG_LEVEL" (some "INFO")
    | some s => pure (some s)
  match threshold? (upper (given.getD "")) with
  | some n => pure n
  | none => throw (.badValue .logLevel)

structure Record (φ : Type) where
  logger : String
  level : Level
  message : String
  further : List (String × φ)

inductive Field (φ : Type) where
  | text (s : String)
  | further (a : φ)
  | absent

def isOwn (logger : String) : Bool :=
  logger == rootLogger || (rootLogger ++ ".").toList.isPrefixOf logger.toList

/-- Whether a record is written. Without a threshold of its own the library takes the one that all
loggers share, which lets warnings pass. -/
def Record.isWritten (threshold : Nat) (r : Record φ) : Bool :=
  isOwn r.logger &&
    (if threshold = 0 then Level.warning.number else threshold) ≤ r.level.number

/-- The fields of a written record. The operation and the direction are always there; further fields
whose names start with an underscore are private and left out. -/
def Record.fields (r : Record φ) : List (String × Field φ) :=
  let named (key : String) : String × Field φ :=
    (key, match r.further.lookup key with
      | some a => .further a
      | none => .absent)
  [("name", .text r.logger), ("levelname", .text r.level.name), ("message", .text r.message),
    named "operation", named "direction"] ++
    (r.further.filter fun f =>
      f.1 ≠ "operation" && f.1 ≠ "direction" && !("_".toList.isPrefixOf f.1.toList)).map
      fun f => (f.1, .further f.2)

end PayloadSchema.Log
