import ScopeLisp.Error

/-!
# Functions

A function is built in, with an arity and a body, or it is defined by the user. The latter has a
name at most: the language has no way yet to give it a body. A fresh session has six functions, each
with a body of its own.

A program that embeds the language may hand in any other body, and set up contexts with it. Such
bodies are not part of the library. Three of them stand for all here, one for each thing that the
six bodies of a fresh session do not do: to take all arguments as written, to ask for several
bindings at once, and to pass on what the evaluation of an argument asks for. No context of a
session has them.

* `standardFunctions`: the table of a fresh session.
-/

namespace ScopeLisp

/-- The bodies of functions: the six of a fresh session, and three that stand for those of an
embedding program. -/
inductive Primitive where
  | add
  | subtract
  | multiply
  /-- Binds a name to a term, both as written. -/
  | bind
  /-- Evaluates a term in a frame of its own. -/
  | evaluate
  /-- Asks the session to end. -/
  | quit
  /-- A body from outside: lists the arguments as written. -/
  | collect
  /-- A body from outside: binds several names to terms, all as written. -/
  | bindAll
  /-- A body from outside: evaluates the arguments in order and lists their values. -/
  | sequence
deriving DecidableEq

/-- A function that is built in. -/
structure Builtin where
  arity : Arity
  name : String
  body : Primitive
deriving DecidableEq

namespace Builtin

/-- The name under which a function goes: the one given to it, unless that is empty, then the
one of its body, then a general one. -/
def nameOf (given ofBody : Option String) : String :=
  match given with
  | some name => if name.isEmpty then ofBody.getD "builtin" else name
  | none => ofBody.getD "builtin"

/-- Makes a function of the code of its arity. -/
def make (code : Int) (body : Primitive) (given ofBody : Option String) :
    Except Misuse Builtin :=
  match Arity.ofCode? code with
  | some arity => .ok ⟨arity, nameOf given ofBody, body⟩
  | none => .error (.invalidArity code)

end Builtin

/-- A function, built in or not. -/
inductive Function where
  | builtin (builtin : Builtin)
  | userDefined (name : Option String)
deriving DecidableEq

/-- The form of a function for debugging. -/
def Function.debug : Function → Except Misuse String
  | .builtin b =>
    if b.arity.isWritable then .ok ("<builtin " ++ b.name ++ " (" ++ b.arity.describe ++ ")>")
    else .error .overlong
  | .userDefined name =>
    let shown := match name with
      | some name => if name.isEmpty then "?" else name
      | none => "?"
    .ok ("<user function " ++ shown ++ ">")

/-- What stands at the head of an application: a function, or something that is none. -/
inductive Callee where
  | function (fn : Function)
  | foreign (value : Foreign)
deriving DecidableEq

/-- The functions of a fresh session, in the order in which they are listed. -/
def standardFunctions : List (String × Function) :=
  [("+", .builtin ⟨.any, "+", .add⟩),
   ("-", .builtin ⟨.atLeastOne, "-", .subtract⟩),
   ("*", .builtin ⟨.any, "*", .multiply⟩),
   ("let", .builtin ⟨.exactly 2, "let", .bind⟩),
   ("eval", .builtin ⟨.atLeastOne, "eval", .evaluate⟩),
   ("quit", .builtin ⟨.exactly 0, "quit", .quit⟩)]

end ScopeLisp
