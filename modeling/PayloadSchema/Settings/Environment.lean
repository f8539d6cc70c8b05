import PayloadSchema.Log.Basic
import PayloadSchema.Text.Integer

/-!
# Environment variables

Settings come from environment variables. Their values are read with the blanks at both ends dropped, and
a value that does not fit falls back to a default; both are reported by warnings.
-/

namespace PayloadSchema.Settings

open Text

abbrev Environment := List (String × String)

def flagText : Option Bool → String
  | none => "None"
  | some true => "True"
  | some false => "False"

def integerText : Option Int → String
  | none => "None"
  | some n => toString n

def asciiLower (s : String) : String :=
  String.ofList (s.toList.map Char.toLower)

namespace Environment

/-- The value of a variable, or the default, without the blanks at its ends. -/
def text? (env : Environment) (key : String) (default : Option String) : Run (Option String) :=
  match (env.lookup key).or default with
  | none => pure none
  | some raw => do
    let cleaned := trim raw
    if raw ≠ cleaned then
      Run.warn <| s!"Environment variable {key} had trailing whitespace/line endings: raw=" ++
        quoted raw ++ ", cleaned=" ++ quoted cleaned
    pure (some cleaned)

/-- The value of a variable as an integer that is not below the minimum, if one is given. -/
def integer? (env : Environment) (key : String) (default minimum : Option Int) : Run (Option Int) := do
  match ← env.text? key none with
  | none | some "" => pure default
  | some value =>
    match readInteger value with
    | .error _ =>
      Run.warn <| s!"Environment variable {key} is not a valid integer: " ++ quoted value ++
        ". Using default: " ++ integerText default
      pure default
    | .ok n =>
      match minimum with
      | none => pure (some n)
      | some least =>
        if n < least then
          Run.warn <| s!"Environment variable {key}={n} is below the minimum of {least}. " ++
            "Using default: " ++ integerText default
          pure default
        else pure (some n)

/-- The value of a variable as a truth value. The words for yes and no are compared without regard to
case, and an empty value means no. -/
def flag? (env : Environment) (key : String) (default : Option Bool) : Run (Option Bool) := do
  match ← env.text? key none with
  | none => pure default
  | some value =>
    let word := asciiLower value
    if word ∈ ["true", "1", "yes", "on"] then pure (some true)
    else if word ∈ ["false", "0", "no", "off", ""] then pure (some false)
    else
      Run.warn <| s!"Environment variable {key} has unexpected boolean value: " ++ quoted value ++
        ". Using default: " ++ flagText default
      pure default

end Environment

end PayloadSchema.Settings
