import ScopeLisp.Machine

/-!
# Pending bindings

Evaluation does not bind names at once. A call yields its value together with the bindings that it
asks for, and they are committed once the call has succeeded. A batch is checked as a whole before
any of it is bound, so a batch that fails binds nothing.

* `commit_nil`: committing nothing does nothing, even to a context whose frame is gone.
-/

namespace ScopeLisp

/-- A change that waits to be committed. -/
inductive Action where
  /-- Binds a name to a value. -/
  | setValue (name : String) (value : Term)
  /-- Something that is no change the library knows. -/
  | foreign (value : Foreign)
deriving DecidableEq

/-- A value and the changes that wait to be committed. -/
structure Yield where
  term : Term
  actions : List Action := []
deriving DecidableEq

namespace Evaluation

/-- Whether all of a batch can be bound, `pending` being the names of the batch so far. -/
def check (context : Context) (arena : Arena) : (pending : List String) → List Action →
    Except Fault Unit
  | _, [] => .ok ()
  | pending, .setValue name _ :: rest =>
    match context.frame arena with
    | .error e => .error (.misuse e)
    | .ok frame =>
      if frame.values.binds name || pending.contains name then .error (.language .duplicateValue)
      else check context arena (name :: pending) rest
  | _, .foreign value :: _ => .error (.misuse (.unknownAction value))

/-- What the log says about a binding, if the value can be written. -/
def commitNote (context : Context) (name : String) (value : Term) : Option String :=
  value.text.toOption.map fun text =>
    "commit: " ++ name ++ " <- " ++ text ++ " (frame " ++ Text.decimal context.handle ++ ")"

/-- Binds a batch that was checked, in order. -/
def bindEach (context : Context) : List Action → Eval Unit
  | [] => pure ()
  | .setValue name value :: rest => do
    Eval.note .debug .commit (commitNote context name value)
    Eval.change fun arena => context.setValue arena name value
    bindEach context rest
  | .foreign _ :: rest => bindEach context rest

/-- Binds a batch in the frame of a context, all of it or nothing. -/
def commit (context : Context) (actions : List Action) : Eval Unit :=
  if actions.isEmpty then pure ()
  else do
    Eval.change fun arena => (check context arena [] actions).map fun _ => arena
    bindEach context actions

@[simp] theorem commit_nil (context : Context) : commit context [] = pure () := rfl

end Evaluation

end ScopeLisp
