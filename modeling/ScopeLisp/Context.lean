import ScopeLisp.Arena
import ScopeLisp.Term.Printer

/-!
# Contexts

A context is a view of one frame. Names are looked up in its frame first and then in those that
it hangs below. Names are bound in its own frame only, and never twice; a name of an outer frame
may be bound again. Every use of a view whose frame is gone is refused, except that a new frame
may be hung below it as long as its handle is in range.

* `findValue_eq_ok_iff`: what is found is the nearest binding in the chain of frames.
-/

namespace ScopeLisp.Context

/-! ## Frames -/

/-- The frame of a context. -/
def frame (context : Context) (arena : Arena) : Except Misuse Frame :=
  arena.get context.handle context.generation

/-- The frame of a context and those that it hangs below, nearest first. -/
def chain (context : Context) (arena : Arena) : Except Misuse (List Frame) := do
  let _ ← context.frame arena
  return chainAt arena.frames context.handle

/-- A view of the frame that the frame of a context hangs below. -/
def parent (context : Context) (arena : Arena) : Except Misuse (Option Context) := do
  let frame ← context.frame arena
  match frame.parent with
  | none => return none
  | some handle =>
    match frameAt? arena.frames handle with
    | some above => return some ⟨handle, above.generation⟩
    | none => throw .indexOutOfRange

/-! ## Looking up -/

/-- The nearest value bound to a name. -/
def findValue (context : Context) (arena : Arena) (name : String) :
    Except Misuse (Option Term) := do
  return (← context.chain arena).findSome? fun frame => frame.values.lookup name

/-- The nearest function bound to a name. -/
def findFunction (context : Context) (arena : Arena) (name : String) :
    Except Misuse (Option Function) := do
  return (← context.chain arena).findSome? fun frame => frame.functions.lookup name

/-- Whether the frame of a context itself binds a name. -/
def contains (context : Context) (arena : Arena) (name : String) : Except Misuse Bool := do
  return (← context.frame arena).binds name

/-- Whether some frame in the chain of a context binds a name. -/
def isBound (context : Context) (arena : Arena) (name : String) : Except Misuse Bool := do
  return (← context.chain arena).any fun frame => frame.binds name

theorem findValue_eq_ok_iff {context : Context} {arena : Arena} {name : String}
    {found : Option Term} :
    context.findValue arena name = .ok found ↔
      ∃ frames, context.chain arena = .ok frames ∧
        (frames.findSome? fun frame => frame.values.lookup name) = found := by
  unfold findValue
  cases context.chain arena with
  | error e => simp [bind, Except.bind]
  | ok frames => simp [bind, Except.bind, pure, Except.pure]

/-! ## Binding -/

/-- Changes the frame of a context, unless it binds already what the change would bind. -/
def bindIn (context : Context) (isBound : Frame → Bool) (duplicate : EvalError)
    (change : Frame → Frame) : EStateM Fault Arena Unit := do
  match context.frame (← getThe Arena) with
  | .error e => throw (.misuse e)
  | .ok frame =>
    if isBound frame then
      throw (.language duplicate)
    modify fun arena => { arena with frames := updateAt change arena.frames context.handle }

/-- Binds a name to a value in the frame of a context. -/
def putValue (context : Context) (name : String) (value : Term) : EStateM Fault Arena Unit :=
  context.bindIn (fun frame => frame.values.binds name) .duplicateValue fun frame =>
    { frame with values := frame.values.bind name value }

/-- Binds a name to a function in the frame of a context. -/
def putFunction (context : Context) (name : String) (fn : Function) :
    EStateM Fault Arena Unit :=
  context.bindIn (fun frame => frame.functions.binds name) .duplicateFunction fun frame =>
    { frame with functions := frame.functions.bind name fn }

/-- The arena with a name bound to a value in the frame of a context. -/
def setValue (context : Context) (arena : Arena) (name : String) (value : Term) :
    Except Fault Arena :=
  settle (context.putValue name value) arena

/-- The arena with a name bound to a function in the frame of a context. -/
def setFunction (context : Context) (arena : Arena) (name : String) (fn : Function) :
    Except Fault Arena :=
  settle (context.putFunction name fn) arena

section BindIn

variable {context : Context} {arena after : Arena} {isBound : Frame → Bool}
  {duplicate : EvalError} {change : Frame → Frame}

theorem bindIn_eq (context : Context) (arena : Arena) (isBound : Frame → Bool)
    (duplicate : EvalError) (change : Frame → Frame) :
    context.bindIn isBound duplicate change arena = match context.frame arena with
      | .error e => .error (.misuse e) arena
      | .ok frame =>
        if isBound frame then .error (.language duplicate) arena
        else .ok () { arena with frames := updateAt change arena.frames context.handle } := by
  show (match context.frame arena with | .error _ => _ | .ok _ => _ : EStateM ..) arena = _
  cases context.frame arena with
  | error e => rfl
  | ok frame =>
    dsimp only
    cases isBound frame <;> rfl

theorem bindIn_ok (h : context.bindIn isBound duplicate change arena = .ok () after) :
    after = { arena with frames := updateAt change arena.frames context.handle } := by
  rw [bindIn_eq] at h
  split at h
  · cases h
  · split at h <;> cases h
    rfl

/-- A frame that refuses a binding is left as it is. -/
theorem bindIn_error {fault : Fault}
    (h : context.bindIn isBound duplicate change arena = .error fault after) : after = arena := by
  rw [bindIn_eq] at h
  split at h
  · cases h
    rfl
  · split at h <;> cases h
    rfl

theorem settle_bindIn (context : Context) (arena : Arena) (isBound : Frame → Bool)
    (duplicate : EvalError) (change : Frame → Frame) :
    settle (context.bindIn isBound duplicate change) arena = match context.frame arena with
      | .error e => .error (.misuse e)
      | .ok frame =>
        if isBound frame then .error (.language duplicate)
        else .ok { arena with frames := updateAt change arena.frames context.handle } := by
  rw [settle, bindIn_eq]
  cases context.frame arena with
  | error e => rfl
  | ok frame =>
    dsimp only
    cases isBound frame <;> rfl

theorem setValue_eq (context : Context) (arena : Arena) (name : String) (value : Term) :
    context.setValue arena name value = match context.frame arena with
      | .error e => .error (.misuse e)
      | .ok frame =>
        if frame.values.binds name then .error (.language .duplicateValue)
        else
          .ok { arena with
            frames := updateAt (fun frame => { frame with values := frame.values.bind name value })
              arena.frames context.handle } :=
  settle_bindIn ..

theorem setFunction_eq (context : Context) (arena : Arena) (name : String) (fn : Function) :
    context.setFunction arena name fn = match context.frame arena with
      | .error e => .error (.misuse e)
      | .ok frame =>
        if frame.functions.binds name then .error (.language .duplicateFunction)
        else
          .ok { arena with
            frames := updateAt
              (fun frame => { frame with functions := frame.functions.bind name fn })
              arena.frames context.handle } :=
  settle_bindIn ..

end BindIn

/-- Binds several names to functions, in order. -/
def setFunctions (context : Context) : Table Function → Arena → Except Fault Arena
  | [], arena => .ok arena
  | (name, fn) :: rest, arena => do
    context.setFunctions rest (← context.setFunction arena name fn)

/-- Binds several names to values, in order. -/
def setValues (context : Context) : Table Term → Arena → Except Fault Arena
  | [], arena => .ok arena
  | (name, value) :: rest, arena => do
    context.setValues rest (← context.setValue arena name value)

/-! ## New contexts -/

/-- A view of a new frame below a handle, with functions and values bound in it. Both tables bind
each name once, as mappings do, so that nothing but the handle can be refused. -/
def create (arena : Arena) (parent : Option Int) (functions : Table Function)
    (values : Table Term) : Except Fault (Context × Arena) :=
  match arena.allocate parent with
  | .error e => .error (.misuse e)
  | .ok (context, arena) => do
    let arena ← context.setFunctions functions arena
    let arena ← context.setValues values arena
    return (context, arena)

/-- A view of a new frame below none. -/
def root (arena : Arena) (functions : Table Function) (values : Table Term) :
    Except Fault (Context × Arena) :=
  create arena none functions values

/-- A view of a new frame below the handle of a context. -/
def child (context : Context) (arena : Arena) (functions : Table Function)
    (values : Table Term) : Except Fault (Context × Arena) :=
  create arena (some context.handle) functions values

/-! ## Written forms -/

/-- The bindings of a frame: values with their terms, functions by name. -/
def frameText (frame : Frame) : Except Misuse String := do
  let values ← frame.values.mapM fun entry => do return entry.1 ++ ": " ++ (← entry.2.text)
  let functions := "fns: " ++ String.intercalate " " (frame.functions.map Prod.fst)
  return "\x7b" ++ String.intercalate ", " values ++
    (if frame.functions.isEmpty then ""
      else if frame.values.isEmpty then functions
      else "; " ++ functions) ++ "\x7d"

/-- The bindings of the frame of a context, with a mark if it hangs below another one. -/
def text (context : Context) (arena : Arena) : Except Misuse String := do
  let frame ← context.frame arena
  return (← frameText frame) ++ (if frame.parent.isSome then " -> ..." else "")

/-- The bindings of all frames in the chain of a context. -/
def debug (context : Context) (arena : Arena) : Except Misuse String := do
  let frames ← context.chain arena
  let shown ← frames.mapM frameText
  return "<EvaluationContext #" ++ Text.decimal context.handle ++ ": " ++
    String.intercalate " -> " shown ++ ">"

end ScopeLisp.Context
