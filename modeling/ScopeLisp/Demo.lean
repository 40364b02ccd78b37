import ScopeLisp.Interpreter

/-!
# A demonstration

A few expressions evaluated one after the other in one session, each shown with its answer.
-/

namespace ScopeLisp.Demo

/-- The expressions of the demonstration. -/
def expressions : List String :=
  ["(+ 1 2 3)            ", "(let x 5)", "(* x 2)", "(eval (+ y 1) y 10)", "y", "(- 10 2 3)",
   "(+ foo 1)"]

/-- The lines about some expressions, up to the first that has no answer. -/
def lines (width : WidthSetting) : List String → Machine → List String × Option Fault
  | [], _ => ([], none)
  | source :: rest, machine =>
    match Interpreter.respond width source machine with
    | .error fault _ => ([], some fault)
    | .ok reply machine =>
      let (later, fault) := lines width rest machine
      ((source ++ " => " ++ reply) :: later, fault)

/-- The output of the demonstration, and what stopped it. -/
def run (width : WidthSetting) : String × Option Fault :=
  let (shown, fault) := lines width expressions Interpreter.start
  (String.join (shown.map fun line => line ++ "\n"), fault)

end ScopeLisp.Demo
