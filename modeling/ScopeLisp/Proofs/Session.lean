import ScopeLisp.Interpreter
import ScopeLisp.Proofs.Refinement.Evaluation

/-!
# Sessions

A session is a fresh interpreter and the inputs that it was given, each of them either evaluated
(`Interpreter.eval`) or answered (`Interpreter.respond`), under whatever width was set at that
time. Between inputs the stack holds the global frame alone, with the standard functions
(`AtRest`), so an input is evaluated as the scopes say, in a single scope.

* `atRest_run`: a session is at rest after any sequence of inputs, failed ones included.
* `eval_cases`: an input that cannot be read changes no frame, and one that can be read has the
  outcome of its term.
-/

namespace ScopeLisp.Session

open Scopes Interpreter

/-! ## Inputs -/

/-- The machine in which a computation ended, successfully or not. -/
def ending {ε α : Type} : EStateM.Result ε Machine α → Machine
  | .ok _ machine => machine
  | .error _ machine => machine

/-- The value or the error of a computation, without the machine in which it ended. -/
def answer {ε α : Type} : EStateM.Result ε Machine α → Except ε α
  | .ok value _ => .ok value
  | .error error _ => .error error

/-- One input of a session, and the width under which it is read and evaluated. -/
inductive Input where
  /-- The input is evaluated, and its value or its error goes back to the caller. -/
  | eval (width : WidthSetting) (source : String)
  /-- The input is answered by a text. -/
  | respond (width : WidthSetting) (source : String)

/-- The width under which an input is read and evaluated. -/
def Input.width : Input → WidthSetting
  | .eval width _ => width
  | .respond width _ => width

/-- The text of an input. -/
def Input.source : Input → String
  | .eval _ source => source
  | .respond _ source => source

/-- The machine after an input. -/
def step (machine : Machine) : Input → Machine
  | .eval width source => ending (Interpreter.eval width source machine)
  | .respond width source => ending (Interpreter.respond width source machine)

/-- The machine after a sequence of inputs. -/
def run (inputs : List Input) (machine : Machine) : Machine := inputs.foldl step machine

theorem run_append (first second : List Input) (machine : Machine) :
    run (first ++ second) machine = run second (run first machine) :=
  List.foldl_append

/-! ## The global frame -/

/-- The global frame with the given values. -/
def globalFrame (values : Table Term) : Frame :=
  { values, functions := standardFunctions, parent := none, generation := 1 }

/-- The values that the global frame binds. -/
def globalValues (machine : Machine) : Table Term :=
  match globalContext.frame machine.arena with
  | .ok frame => frame.values
  | .error _ => []

/-- The functions that the global frame binds. -/
def globalFunctions (machine : Machine) : Table Function :=
  match globalContext.frame machine.arena with
  | .ok frame => frame.functions
  | .error _ => []

/-- The scope of the global frame: six functions under their usual names. -/
def globalScope (values : Table Term) : Scope := { values, functions := standardForms }

theorem standard_globalScope (values : Table Term) : Standard [globalScope values] := by
  intro name
  rw [findForm, List.findSome?_cons, globalScope]
  cases standardForms.lookup name <;> rfl

/-- No evaluation is going on: the global frame is the only one. -/
def AtRest (machine : Machine) : Prop :=
  ∃ values, machine.arena.frames = [globalFrame values]

section AtRest

variable {machine : Machine} {values : Table Term}

theorem atRest_start : AtRest start := ⟨[], rfl⟩

theorem frame_of_frames_eq (h : machine.arena.frames = [globalFrame values]) :
    globalContext.frame machine.arena = .ok (globalFrame values) := by
  rw [Context.frame_eq_ok_iff, h]
  exact ⟨rfl, rfl⟩

theorem globalValues_of_frames_eq (h : machine.arena.frames = [globalFrame values]) :
    globalValues machine = values := by
  rw [globalValues, frame_of_frames_eq h]
  rfl

theorem globalFunctions_of_frames_eq (h : machine.arena.frames = [globalFrame values]) :
    globalFunctions machine = standardFunctions := by
  rw [globalFunctions, frame_of_frames_eq h]
  rfl

theorem AtRest.frames_eq (h : AtRest machine) :
    machine.arena.frames = [globalFrame (globalValues machine)] := by
  obtain ⟨values, hframes⟩ := h
  rw [globalValues_of_frames_eq hframes]
  exact hframes

theorem showsPlain_of_frames_eq (h : machine.arena.frames = [globalFrame values]) :
    globalContext.ShowsPlain machine.arena (globalFrame values) [] where
  shows :=
    { frameAt?_eq := by rw [h]; rfl
      generation_eq := rfl
      chainAt_eq := by rw [h]; rfl }
  plain := by
    intro shown hshown
    rw [List.mem_singleton.mp hshown]
    exact fun entry hentry => .inl (List.mem_map_of_mem hentry)

end AtRest

/-! ## What an input does -/

/-- The outcome of a term in the global scope. -/
def globalOutcome (width : WidthSetting) (term : Term) (machine : Machine) : Outcome :=
  Scopes.evaluate width term (globalScope (globalValues machine)) [] machine.quit

/-- The result of an input that is the given term. -/
def inputResult (outcome : Outcome) (machine : Machine) : EStateM.Result Obstacle Machine Term :=
  match outcome.answer with
  | .ok value => .ok value machine
  | .error stop => .error (.fault stop.fault) machine

theorem evaluate_run (width : WidthSetting) (term : Term) {machine : Machine}
    (h : AtRest machine) :
    ∃ after, Interpreter.evaluate width term machine
        = inputResult (globalOutcome width term machine) after ∧
      after.quit = (globalOutcome width term machine).quit ∧
      after.arena.frames = [globalFrame (globalOutcome width term machine).values] := by
  have hs := showsPlain_of_frames_eq h.frames_eq
  obtain ⟨after, hrun, hquit, hrebinds⟩ := Evaluation.refines width term _ machine _ _ hs
  have hrun : Evaluation.evaluate width term globalContext machine
    = (globalOutcome width term machine).result after := hrun
  refine ⟨after, ?_, hquit, ?_⟩
  · rw [Interpreter.evaluate, hrun, Outcome.result, inputResult]
    cases (globalOutcome width term machine).answer <;> rfl
  · rw [hrebinds.frames_eq, h.frames_eq]
    rfl

/-- An input is refused for a malformed setting, or cannot be read, or is a term that is
evaluated. Only a term changes what is bound. -/
theorem eval_cases (width : WidthSetting) (source : String) {machine : Machine}
    (h : AtRest machine) :
    (∃ e, Reader.parse width source = .error (.setting e) ∧
      Interpreter.eval width source machine = .error (.fault (.setting e)) machine) ∨
    (∃ failure after, Reader.parse width source = .error (.failure failure) ∧
      Interpreter.eval width source machine = .error (.unreadable failure) after ∧
      after.quit = machine.quit ∧ after.arena = machine.arena) ∨
    (∃ term after, Reader.parse width source = .ok term ∧
      Interpreter.eval width source machine
        = inputResult (globalOutcome width term machine) after ∧
      after.quit = (globalOutcome width term machine).quit ∧
      after.arena.frames = [globalFrame (globalOutcome width term machine).values]) := by
  cases hparse : Reader.parse width source with
  | error e =>
    cases e with
    | setting e =>
      refine .inl ⟨e, rfl, ?_⟩
      simp only [Interpreter.eval, bind, EStateM.bind, Interpreter.read, hparse]
    | failure failure =>
      refine .inr (.inl ⟨failure, machine.note .debug .reader (unreadableNote source failure), rfl,
        ?_, rfl, rfl⟩)
      simp only [Interpreter.eval, bind, EStateM.bind, Interpreter.read, hparse]
  | ok term =>
    obtain ⟨after, hrun, hquit, hframes⟩ := evaluate_run width term h
    refine .inr (.inr ⟨term, after, rfl, ?_, hquit, hframes⟩)
    simp only [Interpreter.eval, bind, EStateM.bind, Interpreter.read, hparse]
    exact hrun

@[simp] theorem ending_result (outcome : Outcome) (machine : Machine) :
    ending (outcome.result machine) = machine := by
  unfold Outcome.result
  cases outcome.answer <;> rfl

@[simp] theorem ending_inputResult (outcome : Outcome) (machine : Machine) :
    ending (inputResult outcome machine) = machine := by
  unfold inputResult
  cases outcome.answer <;> rfl

/-- An answer in words leaves the same frames, and the same wish to quit, as an evaluation. -/
theorem ending_respond (width : WidthSetting) (source : String) (machine : Machine) :
    (ending (Interpreter.respond width source machine)).arena
        = (ending (Interpreter.eval width source machine)).arena ∧
      (ending (Interpreter.respond width source machine)).quit
        = (ending (Interpreter.eval width source machine)).quit := by
  unfold Interpreter.respond
  cases Interpreter.eval width source machine with
  | ok term after =>
    dsimp only
    cases term.render <;> exact ⟨rfl, rfl⟩
  | error obstacle after =>
    cases obstacle with
    | unreadable failure => exact ⟨rfl, rfl⟩
    | fault fault => cases fault <;> exact ⟨rfl, rfl⟩

/-! ## Runs -/

theorem ending_eval_frames {machine : Machine} (h : AtRest machine) (width : WidthSetting)
    (source : String) :
    (ending (Interpreter.eval width source machine)).arena.frames = machine.arena.frames ∨
    ∃ term, Reader.parse width source = .ok term ∧
      (ending (Interpreter.eval width source machine)).arena.frames
        = [globalFrame (globalOutcome width term machine).values] := by
  rcases eval_cases width source h with
    ⟨e, -, hrun⟩ | ⟨failure, after, -, hrun, -, harena⟩ | ⟨term, after, hparse, hrun, -, hframes⟩
  · rw [hrun]
    exact .inl rfl
  · rw [hrun]
    exact .inl (congrArg Arena.frames harena)
  · rw [hrun, ending_inputResult]
    exact .inr ⟨term, hparse, hframes⟩

/-- What a session binds after one more input: nothing new, or what the outcome of its term
says. -/
theorem step_frames {machine : Machine} (h : AtRest machine) (input : Input) :
    (step machine input).arena.frames = machine.arena.frames ∨
    ∃ term, Reader.parse input.width input.source = .ok term ∧
      (step machine input).arena.frames
        = [globalFrame (globalOutcome input.width term machine).values] := by
  cases input with
  | eval width source => exact ending_eval_frames h width source
  | respond width source =>
    rw [step, (ending_respond width source machine).1]
    exact ending_eval_frames h width source

theorem atRest_step {machine : Machine} (h : AtRest machine) (input : Input) :
    AtRest (step machine input) := by
  rcases step_frames h input with hframes | ⟨term, -, hframes⟩
  · exact ⟨globalValues machine, hframes.trans h.frames_eq⟩
  · exact ⟨_, hframes⟩

theorem atRest_run {machine : Machine} (h : AtRest machine) (inputs : List Input) :
    AtRest (run inputs machine) := by
  induction inputs generalizing machine with
  | nil => exact h
  | cons input rest ih => exact ih (atRest_step h input)

end ScopeLisp.Session
