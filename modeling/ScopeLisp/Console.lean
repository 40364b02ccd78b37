import ScopeLisp.Interpreter

/-!
# The console

The console prompts for a line, writes the answer to it and looks at the wish to quit before it
prompts again. Blank lines get no answer. The conversation is a function of the lines: it gives
what was prompted and written, in order, and how it stopped.

* `converse_of_quit`: a session that was asked to end is over at once.
* `length_prompts_le`: there is at most one prompt for each line and one for the end of the input.
-/

namespace ScopeLisp.Console

/-- What happens when the lines are used up. -/
inductive Ending where
  | endOfInput
  | interrupt
deriving DecidableEq

/-- How a conversation stopped. -/
inductive Stop where
  | quit
  | endOfInput
  | interrupted
  | failed (fault : Fault)
deriving DecidableEq

/-- How a conversation stops when the lines are used up. -/
def Ending.stop : Ending → Stop
  | .endOfInput => .endOfInput
  | .interrupt => .interrupted

/-- What a user sees of a conversation. -/
inductive Event where
  | prompted (prompt : String)
  | wrote (text : String)
deriving DecidableEq

/-- A conversation that is over. -/
structure Transcript where
  events : List Event
  machine : Machine
  stop : Stop

namespace Transcript

/-- The prompts that were given. -/
def prompts (transcript : Transcript) : List String :=
  transcript.events.filterMap fun
    | .prompted prompt => some prompt
    | .wrote _ => none

/-- The answers that were written. -/
def written (transcript : Transcript) : List String :=
  transcript.events.filterMap fun
    | .prompted _ => none
    | .wrote text => some text

end Transcript

/-- The answer to a line. A line of white space has none. -/
def answer (width : WidthSetting) (line : String) : Eval (Option String) :=
  if Text.isBlankLine line then pure none
  else do return some (← Interpreter.respond width line)

/-- The conversation about some lines. -/
def converse (width : WidthSetting) (prompt : String) (ending : Ending) :
    List String → Machine → Transcript
  | [], machine =>
    if machine.quit then ⟨[], machine, .quit⟩ else ⟨[.prompted prompt], machine, ending.stop⟩
  | line :: rest, machine =>
    if machine.quit then ⟨[], machine, .quit⟩
    else
      match answer width line machine with
      | .error fault machine => ⟨[.prompted prompt], machine, .failed fault⟩
      | .ok reply machine =>
        let later := converse width prompt ending rest machine
        { later with
          events := .prompted prompt :: (reply.map Event.wrote).toList ++ later.events }

theorem converse_of_quit (width : WidthSetting) (prompt : String) (ending : Ending)
    (lines : List String) {machine : Machine} (h : machine.quit = true) :
    converse width prompt ending lines machine = ⟨[], machine, .quit⟩ := by
  cases lines <;> simp [converse, h]

theorem length_prompts_le (width : WidthSetting) (prompt : String) (ending : Ending)
    (lines : List String) (machine : Machine) :
    (converse width prompt ending lines machine).prompts.length ≤ lines.length + 1 := by
  induction lines generalizing machine with
  | nil =>
    unfold converse
    split <;> simp [Transcript.prompts]
  | cons line rest ih =>
    unfold converse
    split
    · simp [Transcript.prompts]
    · split
      · simp [Transcript.prompts]
      · rename_i reply machine' _
        have := ih machine'
        cases reply <;> simp [Transcript.prompts] at this ⊢ <;> omega

/-! ## Log -/

/-- The machine after the console has logged that it started. -/
def logStart (machine : Machine) : Machine :=
  machine.note .info .console "repl started"

/-- The machine after the console has logged that it finished. -/
def logFinish (machine : Machine) : Machine :=
  machine.note .info .console
    ("repl finished (quit requested: " ++ (if machine.quit then "True" else "False") ++ ")")

/-- The conversation about some lines, with its start and its end in the log. A conversation that
was interrupted or failed has no end there. -/
def run (width : WidthSetting) (prompt : String) (ending : Ending) (lines : List String)
    (machine : Machine) : Transcript :=
  let transcript := converse width prompt ending lines (logStart machine)
  match transcript.stop with
  | .quit | .endOfInput => { transcript with machine := logFinish transcript.machine }
  | .interrupted | .failed _ => transcript

/-! ## Streams -/

/-- The lines of a text, `current` being the start of the first one, reversed. A line ends with a
line feed, a carriage return or both; a last line without an end counts if it is not empty. -/
def splitLines (current : List Char) : List Char → List String
  | [] => if current.isEmpty then [] else [String.ofList current.reverse]
  | '\r' :: '\n' :: rest => String.ofList current.reverse :: splitLines [] rest
  | c :: rest =>
    if c = '\n' ∨ c = '\r' then String.ofList current.reverse :: splitLines [] rest
    else splitLines (c :: current) rest

/-- The lines of a text. -/
def linesOf (text : String) : List String := splitLines [] text.toList

/-- What an event puts on the output. A prompt leaves the line open. -/
def Event.output : Event → String
  | .prompted prompt => prompt
  | .wrote text => text ++ "\n"

/-- What a session leaves on its two streams, and how it stopped. -/
structure Report where
  output : String
  log : String
  stop : Stop

/-- A whole session on the text of an input, under the settings of an environment. -/
def session (env : Environment) (consoleName : String) (ending : Ending) (input : String) :
    Report :=
  let transcript := run env.width env.prompt ending (linesOf input) Interpreter.start
  let entries := transcript.machine.log.toList
  { output := String.join (transcript.events.map Event.output) ++
      (if transcript.stop = .interrupted then "\n" else "")
    log := String.join
      ((Log.lines consoleName env.logThreshold entries).map fun line => line ++ "\n")
    stop := transcript.stop }

end ScopeLisp.Console
