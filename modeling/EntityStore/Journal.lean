/-!
# Journal entries

An operation may leave entries in the journal of the program: short reports for a human reader,
each with a level, a message and named fields.  They are output only, and no operation reads them.
-/

namespace EntityStore

/-- How much an entry matters. -/
inductive Level where
  /-- A detail. -/
  | trace
  /-- A step worth knowing when looking for an error. -/
  | debug
  /-- Something that should not have happened. -/
  | warn
deriving DecidableEq

/-- The name of a level. -/
def Level.name : Level → String
  | .trace => "TRACE"
  | .debug => "DEBUG"
  | .warn => "WARN"

/-- The content of a field. -/
inductive Field where
  /-- A number. -/
  | number (n : Nat)
  /-- Text. -/
  | text (s : String)
deriving DecidableEq

/-- An entry of the journal. -/
structure Report where
  /-- How much it matters. -/
  level : Level
  /-- What happened. -/
  message : String
  /-- To what. -/
  fields : List (String × Field)
deriving DecidableEq

end EntityStore
