import ScopeLisp.Evaluation.Operand

/-!
# Application

The body of every function that is built in, and the application of a function to operands. The
last three bodies are from outside the library, and stand for any that an embedding program may hand
in (`Primitive`).

* `wrongCount_eq`: the complaint about a wrong count of operands.
-/

namespace ScopeLisp.Evaluation

/-! ## Bodies -/

/-- Runs the body of a function on its operands. -/
def runPrimitive (width : WidthSetting) (context : Context) (operands : List Operand) :
    Primitive → Eval Yield
  | .add => fold width (· + ·) context ⟨.number 0, []⟩ operands
  | .multiply => fold width (· * ·) context ⟨.number 1, []⟩ operands
  | .subtract =>
    match operands with
    | [] => throw (.misuse .indexOutOfRange)
    | first :: rest => do
      let first ← first.evaluate context
      fold width (· - ·) context first rest
  | .bind =>
    match operands with
    | [] => throw (.misuse .indexOutOfRange)
    | [name] => do
      let _ ← nameOf name
      throw (.misuse .indexOutOfRange)
    | name :: value :: _ => do
      let name ← nameOf name
      return ⟨value.term, [.setValue name value.term]⟩
  | .evaluate => evaluateLocally context operands
  | .quit => do
    modify fun machine => { machine with quit := true }
    return ⟨.nil, []⟩
  | .collect => return ⟨.list (operands.map Operand.term), []⟩
  | .bindAll => do
    let actions ← pairActions operands
    return ⟨.nil, actions⟩
  | .sequence => do
    let (terms, actions) ← evaluateEach context operands
    return ⟨.list terms, actions⟩

/-- The complaint about a wrong count of operands. It states the arity, so that has to be one that
can be written. -/
def wrongCount (fn : Builtin) (count : Nat) : Fault :=
  if fn.arity.isWritable then .language (.arityMismatch fn.name fn.arity count)
  else .misuse .overlong

theorem wrongCount_eq {fn : Builtin} (h : fn.arity.isWritable = true) (count : Nat) :
    wrongCount fn count = .language (.arityMismatch fn.name fn.arity count) := if_pos h

/-- Applies a function to operands. A wrong count of them is refused before the body runs. -/
def apply (width : WidthSetting) (callee : Callee) (context : Context)
    (operands : List Operand) : Eval Yield :=
  match callee with
  | .function (.builtin fn) =>
    if fn.arity.accepts operands.length then runPrimitive width context operands fn.body
    else throw (wrongCount fn operands.length)
  | .function (.userDefined _) => Eval.fail .undefinedFunction
  | .foreign value => Eval.fail (.notApplicable value)

end ScopeLisp.Evaluation
