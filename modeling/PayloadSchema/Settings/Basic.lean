import PayloadSchema.Settings.Environment

/-!
# Settings

The settings of extraction and of writing. Each has a default and can be set by an environment variable.
-/

namespace PayloadSchema

structure Settings where
  /-- How many levels below the top are searched for the element of a part. -/
  searchDepth : Nat
  /-- How many nodes one extraction may copy. -/
  maxWorkItems : Nat
  /-- The prefix bound to the namespace of XML Schema in written documents. -/
  schemaPrefix : String
  /-- Whether written documents are indented. -/
  prettyPrint : Bool
deriving DecidableEq, Repr

namespace Settings

def standard : Settings := ⟨3, 100000, "xs", false⟩

def ofEnvironment (env : Environment) : Run Settings := do
  let depth ← env.integer? "SOAP_NAMESPACE_SEARCH_DEPTH" (some standard.searchDepth) (some 1)
  let items ← env.integer? "SOAP_MAX_WORK_ITEMS" (some standard.maxWorkItems) (some 1)
  let label ← env.text? "SOAP_SCHEMA_PREFIX" (some standard.schemaPrefix)
  let pretty ← env.flag? "SOAP_SCHEMA_PRETTY_PRINT" (some standard.prettyPrint)
  pure {
    searchDepth := (depth.getD 0).toNat
    maxWorkItems := (items.getD 0).toNat
    schemaPrefix := if label = some "" then standard.schemaPrefix else label.getD standard.schemaPrefix
    prettyPrint := pretty.getD standard.prettyPrint }

def toText (s : Settings) : String :=
  s!"ExtractionConfig(namespace_search_depth={s.searchDepth}, max_work_items={s.maxWorkItems}, " ++
    "schema_prefix=" ++ Text.quoted s.schemaPrefix ++ ", pretty_print=" ++
    flagText (some s.prettyPrint) ++ ")"

end Settings

end PayloadSchema
