import ScopeLisp.Evaluation.Basic
import ScopeLisp.Reader.Expression

/-!
# The interpreter

The interpreter reads one expression at a time and evaluates it in a global context, which lives
as long as the session. Errors of the language and of the input become answers. A malformed setting
does not, nor does a value with a number in it that has too many digits to be written.

* `respond`: the answer to an expression, which is its value or the message of its error.
-/

namespace ScopeLisp.Interpreter

/-- The context of all expressions of a session: its first frame. -/
def globalContext : Context := ⟨0, 1⟩

/-- The arena of a fresh session: one frame with the standard functions. -/
def globalArena : Arena :=
  { frames := [{ functions := standardFunctions, parent := none, generation := 1 }]
    nextGeneration := 2 }

/-- A fresh session. -/
def start : Machine := { arena := globalArena }

/-- Why an expression is not answered by a value. -/
inductive Obstacle where
  /-- It cannot be read. -/
  | unreadable (failure : Reader.Failure)
  /-- Its evaluation was stopped. -/
  | fault (fault : Fault)
deriving DecidableEq

def Obstacle.message : Obstacle → String
  | .unreadable f => f.message
  | .fault f => f.message

/-- What the log says about an input that cannot be read. -/
def unreadableNote (source : String) (failure : Reader.Failure) : String :=
  match failure.cause with
  | .incomplete =>
    "incomplete parse, trailing input " ++ String.ofList (Text.quoted (failure.rest.getD []))
  | _ => "parse failed: " ++ failure.message ++ " (input " ++ Text.quotedString source ++ ")"

/-- Reads an expression. An input that cannot be read is logged. -/
def read (width : WidthSetting) (source : String) : EStateM Obstacle Machine Term := fun machine =>
  match Reader.parse width source with
  | .ok term => .ok term machine
  | .error (.setting e) => .error (.fault (.setting e)) machine
  | .error (.failure failure) =>
    .error (.unreadable failure) (machine.note .debug .reader (unreadableNote source failure))

/-- Evaluates a term in the global context. -/
def evaluate (width : WidthSetting) (term : Term) : EStateM Obstacle Machine Term := fun machine =>
  match Evaluation.evaluate width term globalContext machine with
  | .ok result machine => .ok result.term machine
  | .error fault machine => .error (.fault fault) machine

/-- Reads and evaluates an expression. -/
def eval (width : WidthSetting) (source : String) : EStateM Obstacle Machine Term := do
  evaluate width (← read width source)

/-- The answer to an expression: its value in one line, or the message of its error. There is no
answer for a malformed setting, for misuse of the library, or for a value that cannot be written.
What the expression has bound stays bound all the same. -/
def respond (width : WidthSetting) (source : String) : Eval String := fun machine =>
  match eval width source machine with
  | .ok term machine =>
    match term.render with
    | .ok text => .ok text machine
    | .error e => .error (.misuse e) machine
  | .error (.unreadable failure) machine =>
    .ok failure.message
      (machine.note .debug .interpreter (failure.label ++ ": " ++ failure.message))
  | .error (.fault (.language e)) machine =>
    .ok e.message (machine.note .debug .interpreter (e.label ++ ": " ++ e.message))
  | .error (.fault fault) machine => .error fault machine

/-- The global arena is the one that binding the standard functions in a first frame gives. -/
theorem root_standardFunctions :
    Context.root {} standardFunctions [] = .ok (globalContext, globalArena) := by
  rfl

end ScopeLisp.Interpreter
