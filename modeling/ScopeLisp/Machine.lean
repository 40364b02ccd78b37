import ScopeLisp.Context
import ScopeLisp.Log

/-!
# The state of a session

Evaluation works on a machine: the arena of frames, the wish to quit, and the log. A computation
that fails leaves the machine as it was when it failed, so bindings made before the failure stay.
-/

namespace ScopeLisp

/-- All that a later evaluation can see of the earlier ones. -/
structure Machine where
  arena : Arena := {}
  /-- Whether the session was asked to end. -/
  quit : Bool := false
  /-- What happened so far, in order. -/
  log : Array Log.Entry := #[]
deriving DecidableEq

namespace Machine

/-- The machine with one more entry in its log. -/
def note (machine : Machine) (level : Log.Level) (origin : Log.Origin)
    (message : Option String) : Machine :=
  { machine with log := machine.log.push { level, origin, message } }

/-- The entries of the log, and the machine with an empty one. -/
def takeLog (machine : Machine) : List Log.Entry × Machine :=
  (machine.log.toList, { machine with log := #[] })

end Machine

/-- A computation on a machine that may fail. -/
abbrev Eval (α : Type) := EStateM Fault Machine α

namespace Eval

variable {α : Type}

/-- Fails with an error of the language. -/
def fail (error : EvalError) : Eval α := throw (.language error)

/-- The value of a computation that needs no machine. -/
def ofExcept (outcome : Except Fault α) : Eval α :=
  match outcome with
  | .ok a => pure a
  | .error e => throw e

/-- What a look at the arena gives. -/
def look (query : Arena → Except Misuse α) : Eval α := fun machine =>
  match query machine.arena with
  | .ok a => .ok a machine
  | .error e => .error (.misuse e) machine

/-- Changes the arena, or fails and leaves it. -/
def change (update : Arena → Except Fault Arena) : Eval Unit := fun machine =>
  match update machine.arena with
  | .ok arena => .ok () { machine with arena }
  | .error e => .error e machine

/-- Adds an entry to the log. -/
def note (level : Log.Level) (origin : Log.Origin) (message : Option String) : Eval Unit :=
  modify fun machine => machine.note level origin message

/-- Adds a frame below a context. -/
def openFrame (context : Context) : Eval Context := fun machine =>
  match machine.arena.allocate (some context.handle) with
  | .ok (inner, arena) => .ok inner { machine with arena }
  | .error e => .error (.misuse e) machine

/-- Releases the frame of a context. -/
def closeFrame (context : Context) : Eval Unit :=
  change fun arena =>
    match arena.release context.handle with
    | .ok arena => .ok arena
    | .error e => .error (.misuse e)

/-- Runs a computation in a new frame below a context and releases the frame, whether the
computation succeeds or fails. -/
def inChild (context : Context) (body : Context → Eval α) : Eval α := do
  let inner ← openFrame context
  fun machine =>
    match body inner machine with
    | .ok a machine =>
      match closeFrame inner machine with
      | .ok _ machine => .ok a machine
      | .error e machine => .error e machine
    | .error e machine =>
      match closeFrame inner machine with
      | .ok _ machine => .error e machine
      | .error e machine => .error e machine

end Eval

end ScopeLisp
