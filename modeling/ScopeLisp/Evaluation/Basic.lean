import ScopeLisp.Evaluation.Application

/-!
# Evaluation

Atoms are their own values. A name has the nearest value bound to it, and stands for itself when
there is none. A list is a call: its head names a function, and what follows is handed over as
written. The bindings that a call asks for are committed to the context of the call before its
value is passed on. The recursion is on the term and ends at any depth; that a deeply nested term
may exhaust a call stack is left out.

* `evaluate_list_cons`: a call by its head and its operands.
* `operands_eq_map`: the operands are the arguments, each with its evaluation.
-/

namespace ScopeLisp.Evaluation

/-- Evaluates a call. -/
def call (width : WidthSetting) (head : Term) (operands : List Operand) (context : Context) :
    Eval Yield :=
  match head with
  | .identifier name => do
    match ← Eval.look fun arena => context.findFunction arena name with
    | none => Eval.fail .unboundFunction
    | some fn =>
      Eval.note .debug .evaluator
        ("call " ++ name ++ " with " ++ Text.decimal operands.length ++ " argument(s) in frame " ++
          Text.decimal context.handle)
      let result ← apply width (.function fn) context operands
      commit context result.actions
      return ⟨result.term, []⟩
  | _ => Eval.fail .headNotAName

/-- The value of a name. -/
def evaluateName (name : String) (context : Context) : Eval Yield := do
  match ← Eval.look fun arena => context.findValue arena name with
  | some value => return ⟨value, []⟩
  | none => return ⟨.identifier name, []⟩

mutual

/-- Evaluates a term in a context. -/
def evaluate (width : WidthSetting) : Term → Context → Eval Yield
  | .list [] => fun _ => pure ⟨.nil, []⟩
  | .list (head :: arguments) => call width head (operands width arguments)
  | .identifier name => evaluateName name
  | .foreign value => fun _ => Eval.fail (.notEvaluable value)
  | .nil => fun _ => pure ⟨.nil, []⟩
  | .boolean b => fun _ => pure ⟨.boolean b, []⟩
  | .number n => fun _ => pure ⟨.number n, []⟩
  | .string s => fun _ => pure ⟨.string s, []⟩

/-- Arguments as written, each with its evaluation. -/
def operands (width : WidthSetting) : List Term → List Operand
  | [] => []
  | t :: ts => ⟨t, evaluate width t⟩ :: operands width ts

end

theorem operands_eq_map (width : WidthSetting) (terms : List Term) :
    operands width terms = terms.map fun t => ⟨t, evaluate width t⟩ := by
  induction terms with
  | nil => simp [operands]
  | cons t ts ih => simp [operands, ih]

theorem evaluate_list_cons (width : WidthSetting) (head : Term) (arguments : List Term)
    (context : Context) :
    evaluate width (.list (head :: arguments)) context
      = call width head (arguments.map fun t => ⟨t, evaluate width t⟩) context := by
  rw [evaluate, operands_eq_map]

/-! ## Unbound names -/

mutual

/-- Whether some name in a term, at any depth, is bound neither to a value nor to a function. -/
def hasUnbound (context : Context) (arena : Arena) : Term → Except Misuse Bool
  | .identifier name => do return !(← context.isBound arena name)
  | .list terms => anyUnbound context arena terms
  | _ => .ok false

/-- Whether some name in several terms is unbound. The search ends at the first one. -/
def anyUnbound (context : Context) (arena : Arena) : List Term → Except Misuse Bool
  | [] => .ok false
  | t :: ts => do
    if ← hasUnbound context arena t then return true else anyUnbound context arena ts

end

end ScopeLisp.Evaluation
