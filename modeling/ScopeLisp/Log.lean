/-!
# The log

What happens in a session is logged in entries that say how grave they are and which part of the
library they come from. An entry becomes a line only when it is grave enough for the threshold. An
entry about a value that cannot be written never becomes a line; what is reported in its place says
nothing about the session and is left out here.
-/

namespace ScopeLisp.Log

/-- How grave an entry is. -/
inductive Level where
  | debug
  | info
deriving DecidableEq

/-- The place of a level in the order of thresholds. -/
def Level.severity : Level → Nat
  | .debug => 10
  | .info => 20

def Level.name : Level → String
  | .debug => "DEBUG"
  | .info => "INFO"

/-- The part of the library that an entry comes from. -/
inductive Origin where
  | reader
  | evaluator
  | commit
  | interpreter
  | console
deriving DecidableEq

/-- The name of an origin in a line. The console goes by the name under which it was started. -/
def Origin.name (consoleName : String) : Origin → String
  | .reader => "guci.reader.parser"
  | .evaluator => "guci.evaluation.evaluator"
  | .commit => "guci.evaluation.actions"
  | .interpreter => "guci.interpreter"
  | .console => consoleName

/-- One thing that happened. -/
structure Entry where
  level : Level
  origin : Origin
  /-- What is said, if it can be written. -/
  message : Option String
deriving DecidableEq

/-- The line of an entry. -/
def Entry.line? (consoleName : String) (entry : Entry) : Option String :=
  entry.message.map fun message =>
    entry.level.name ++ ":" ++ entry.origin.name consoleName ++ ":" ++ message

/-- The lines of the entries that reach the threshold. -/
def lines (consoleName : String) (threshold : Nat) (entries : List Entry) : List String :=
  (entries.filter fun entry => threshold ≤ entry.level.severity).filterMap (·.line? consoleName)

end ScopeLisp.Log
