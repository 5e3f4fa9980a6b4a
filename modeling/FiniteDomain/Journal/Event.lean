/-!
# Journal events

A journal records what happens in a run, in order. An event has a level, a message and named fields.
-/

namespace FiniteDomain.Journal

/-- How much an event matters. -/
inductive Level where
  /-- The start and the end of a solve. -/
  | info
  /-- Something is wrong with the input. -/
  | warn
  /-- A stage of a run. -/
  | debug
  /-- A single step. -/
  | trace
  deriving DecidableEq

/-- The name of a level. -/
def Level.text : Level → String
  | info => "INFO"
  | warn => "WARN"
  | debug => "DEBUG"
  | trace => "TRACE"

/-- The value of a field. -/
inductive FieldValue where
  /-- A text. -/
  | text (value : String)
  /-- A number. -/
  | number (value : Int)
  /-- A truth value. -/
  | flag (value : Bool)
  deriving DecidableEq

/-- An event. -/
structure Event where
  /-- How much it matters. -/
  level : Level
  /-- What happened. -/
  message : String
  /-- The circumstances. -/
  fields : List (String × FieldValue)
  deriving DecidableEq

end FiniteDomain.Journal
