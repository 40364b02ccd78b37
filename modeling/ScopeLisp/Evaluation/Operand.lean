import ScopeLisp.Evaluation.Commit

/-!
# Operands

A function gets its arguments as written and decides itself what to evaluate. An operand is an
argument together with its evaluation, so that the bodies of functions need not refer to the
evaluator, and no body can evaluate anything but its arguments. The ways in which the bodies of the
library use their operands are arithmetic and local scopes. What two of the bodies from outside do
with theirs comes last.

* `combine_eq_ok_iff`: a step of arithmetic succeeds on two numbers whose exact result fits.
-/

namespace ScopeLisp.Evaluation

/-- An argument as written, and what evaluating it in a context does. -/
structure Operand where
  term : Term
  evaluate : Context → Eval Yield

/-- Reads a term as a name, without evaluating it. -/
def asName : Term → Except EvalError String
  | .identifier name => .ok name
  | _ => .error .notAName

/-- Reads an operand as a name, as a step of an evaluation. -/
def nameOf (operand : Operand) : Eval String :=
  match asName operand.term with
  | .ok name => pure name
  | .error e => Eval.fail e

/-! ## Arithmetic -/

/-- One step of arithmetic. The width is looked up after the exact result is known. -/
def combine (width : WidthSetting) (op : Int → Int → Int) : Term → Term → Except Fault Term
  | .number a, .number b =>
    match width with
    | .error e => .error (.setting e)
    | .ok width =>
      if width.holds (op a b) then .ok (.number (op a b)) else .error (.language .overflow)
  | _, _ => .error (.language .operandNotANumber)

theorem combine_eq_ok_iff {width : Width} {op : Int → Int → Int} {lhs rhs result : Term} :
    combine (.ok width) op lhs rhs = .ok result ↔
      ∃ a b, lhs = .number a ∧ rhs = .number b ∧ width.holds (op a b) = true ∧
        result = .number (op a b) := by
  unfold combine
  split
  · rename_i a b
    dsimp only
    constructor
    · intro h
      split at h
      · exact ⟨a, b, rfl, rfl, by assumption, (Except.ok.inj h).symm⟩
      · cases h
    · rintro ⟨a', b', ha, hb, hh, rfl⟩
      obtain rfl := Term.number.inj ha
      obtain rfl := Term.number.inj hb
      simp [hh]
  · rename_i hne
    constructor
    · intro h
      cases h
    · rintro ⟨a, b, rfl, rfl, -⟩
      exact (hne a b rfl rfl).elim

/-- Evaluates operands from the left and combines each value with the result so far. -/
def fold (width : WidthSetting) (op : Int → Int → Int) (context : Context) :
    Yield → List Operand → Eval Yield
  | soFar, [] => pure soFar
  | soFar, operand :: rest => do
    let next ← operand.evaluate context
    let term ← Eval.ofExcept (combine width op soFar.term next.term)
    fold width op context ⟨term, soFar.actions ++ next.actions⟩ rest

/-! ## Scopes -/

/-- Binds names to the terms beside them, all as written. -/
def bindLocals (context : Context) : List Operand → Eval Unit
  | [] => pure ()
  | [name] => do
    let _ ← nameOf name
    throw (.misuse .indexOutOfRange)
  | name :: value :: rest => do
    let name ← nameOf name
    Eval.change fun arena => context.setValue arena name value.term
    bindLocals context rest

/-- Evaluates the first operand in a frame of its own, in which the names and values after it are
bound. Whatever it binds there is gone afterwards. -/
def evaluateLocally (context : Context) (operands : List Operand) : Eval Yield :=
  if operands.length % 2 ≠ 1 then Eval.fail .unpairedBindings
  else
    match operands with
    | [] => throw (.misuse .indexOutOfRange)
    | body :: bindings =>
      Eval.inChild context fun inner => do
        bindLocals inner bindings
        let result ← body.evaluate inner
        commit inner result.actions
        return ⟨result.term, []⟩

/-! ## Bodies from outside -/

/-- The bindings of names to the terms beside them, all as written. -/
def pairActions : List Operand → Eval (List Action)
  | [] => pure []
  | [name] => do
    let _ ← nameOf name
    throw (.misuse .indexOutOfRange)
  | name :: value :: rest => do
    let name ← nameOf name
    let actions ← pairActions rest
    return .setValue name value.term :: actions

/-- The values of operands that are evaluated in order, and the bindings that they ask for. -/
def evaluateEach (context : Context) : List Operand → Eval (List Term × List Action)
  | [] => pure ([], [])
  | operand :: rest => do
    let first ← operand.evaluate context
    let (terms, actions) ← evaluateEach context rest
    return (first.term :: terms, first.actions ++ actions)

end ScopeLisp.Evaluation
