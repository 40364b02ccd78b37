import ScopeLisp.Console

/-!
# The command line

Reads lines from standard input, writes answers to standard output and the log to standard error.
-/

namespace ScopeLisp.Main

/-- The variables of the environment that the library looks at. -/
def settingKeys : List String := ["GUCI_INT_BITS", "GUCI_PROMPT", "GUCI_LOG_LEVEL"]

/-- The environment of the process. -/
def readEnvironment : IO Environment := do
  let mut env : Environment := []
  for key in settingKeys do
    env := env.update key (← IO.getEnv key)
  return env

/-- Writes the log of a machine to standard error and empties it. -/
def flushLog (env : Environment) (machine : Machine) : IO Machine := do
  let (entries, machine) := machine.takeLog
  for line in Log.lines "guci.repl" env.logThreshold entries do
    IO.eprintln line
  return machine

/-- Logs that the session finished and ends the program. -/
def finish (env : Environment) (machine : Machine) : IO UInt32 := do
  let _ ← flushLog env (Console.logFinish machine)
  return 0

/-- Prompts for lines until the session is asked to end or the input is used up. The `pending`
lines have been received and not been answered yet. -/
partial def loop (env : Environment) (pending : List String) (machine : Machine) :
    IO UInt32 := do
  let machine ← flushLog env machine
  if machine.quit then finish env machine
  else
    let stdout ← IO.getStdout
    stdout.putStr env.prompt
    stdout.flush
    let pending ← if pending.isEmpty then
        pure (Console.linesOf (← (← IO.getStdin).getLine))
      else pure pending
    match pending with
    | [] => finish env machine
    | line :: later =>
      match Console.answer env.width line machine with
      | .ok reply machine =>
        if let some text := reply then IO.println text
        loop env later machine
      | .error fault machine =>
        let _ ← flushLog env machine
        IO.eprintln fault.message
        return 1

end ScopeLisp.Main

/-- Runs the console. -/
def main : IO UInt32 := do
  let env ← ScopeLisp.Main.readEnvironment
  ScopeLisp.Main.loop env [] (ScopeLisp.Console.logStart ScopeLisp.Interpreter.start)
