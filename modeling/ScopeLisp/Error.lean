import ScopeLisp.Arity
import ScopeLisp.Foreign
import ScopeLisp.Settings

/-!
# Errors of evaluation

Three kinds of error are kept apart. An error of the language (`EvalError`) is an answer to an
expression that has no value. A setting may be malformed (`SettingError`). And the embedding
program may break the rules of the library (`Misuse`): use a frame that is gone, hand in a value
that is not a term, or have an integer written that is too long. The last may happen without any
fault of its own, under a width of so many bits that expressions have such integers.
-/

namespace ScopeLisp

/-! ## Errors of the language -/

/-- Why an expression has no value. -/
inductive EvalError where
  /-- A foreign value stands where a term is evaluated. -/
  | notEvaluable (value : Foreign)
  /-- The head of a call is not a name. -/
  | headNotAName
  /-- A foreign value is applied. -/
  | notApplicable (value : Foreign)
  /-- The head of a call names no function. -/
  | unboundFunction
  /-- A function without a body is applied. -/
  | undefinedFunction
  /-- A function is applied to a wrong number of arguments. -/
  | arityMismatch (name : String) (arity : Arity) (count : Nat)
  /-- A local name has no value beside it. -/
  | unpairedBindings
  /-- Something other than a name is to be bound. -/
  | notAName
  /-- A name is to be bound to a second value in one frame. -/
  | duplicateValue
  /-- A name is to be bound to a second function in one frame. -/
  | duplicateFunction
  /-- An operand of arithmetic is not a number. -/
  | operandNotANumber
  /-- A result of arithmetic does not fit the width. -/
  | overflow
deriving DecidableEq

namespace EvalError

def message : EvalError → String
  | .notEvaluable value => "Cannot evaluate " ++ value.debug
  | .headNotAName => "not a function"
  | .notApplicable value => "Cannot apply non-function " ++ value.debug
  | .unboundFunction => "function not found"
  | .undefinedFunction => "not defined"
  | .arityMismatch name arity count =>
    "arity mismatch: " ++ name ++ " expects " ++ arity.describe ++ ", got " ++ Text.decimal count
  | .unpairedBindings => "mismatched number of local variables and values"
  | .notAName => "term expected to be an identifier"
  | .duplicateValue => "value already exists"
  | .duplicateFunction => "function already exists"
  | .operandNotANumber => "unbound variables in arithmetic expression"
  | .overflow => "integer overflow in arithmetic expression"

/-- The class under which the log files the error. -/
def label : EvalError → String
  | .notEvaluable _ => "GuciEvalError"
  | .headNotAName | .notApplicable _ => "GuciNotAFunction"
  | .unboundFunction => "GuciUnboundFunction"
  | .undefinedFunction => "GuciUndefinedFunction"
  | .arityMismatch .. | .unpairedBindings => "GuciArityError"
  | .notAName => "GuciInvalidIdentifier"
  | .duplicateValue | .duplicateFunction => "GuciDuplicateBinding"
  | .operandNotANumber => "GuciTypeError"
  | .overflow => "GuciOverflowError"

end EvalError

/-! ## Misuse of the library -/

/-- Which rule of the library was broken. -/
inductive Misuse where
  /-- The frame behind a handle is gone. -/
  | staleFrame (handle : Int)
  /-- A new frame is to hang below a handle that is no frame. -/
  | invalidParent (handle : Int)
  /-- A frame other than the last one is released. -/
  | releasedOutOfOrder (handle : Int)
  /-- A frame of an empty arena is released. -/
  | emptyArena
  /-- An element beyond the ends of a sequence is asked for. -/
  | indexOutOfRange
  /-- An element is asked for at a position that no sequence can have. -/
  | indexTooLarge
  /-- A foreign value stands where a pending binding is committed. -/
  | unknownAction (value : Foreign)
  /-- A foreign value stands where a term is rendered. -/
  | notATerm (value : Foreign)
  /-- A number is to be made of something other than an integer. -/
  | notAnInteger (value : Foreign)
  /-- No arity has this code. -/
  | invalidArity (code : Int)
  /-- The length of a line is to be held against a value that is no number. -/
  | incomparableLimit (kind : Foreign.Kind)
  /-- An integer is to be written that has too many digits. -/
  | overlong
deriving DecidableEq

namespace Misuse

/-- A complaint that names an integer. If the integer is too long to be written, there is nothing
but the complaint about that. -/
def naming (n : Int) (complaint : String → String) : String :=
  match Text.decimal? n with
  | some numeral => complaint numeral
  | none => Text.overlongMessage

def message : Misuse → String
  | .staleFrame handle => naming handle fun numeral => "Stale context frame handle " ++ numeral
  | .invalidParent handle => naming handle fun numeral => "Invalid parent frame handle " ++ numeral
  | .releasedOutOfOrder handle =>
    naming handle fun numeral => "Frame " ++ numeral ++ " released out of order"
  | .emptyArena => "pop from empty list"
  | .indexOutOfRange => "tuple index out of range"
  | .indexTooLarge => "cannot fit 'int' into an index-sized integer"
  | .unknownAction value => "Unknown action " ++ value.debug
  | .notATerm value => "Not a term: " ++ value.debug
  | .notAnInteger value => "Number expects an int, got " ++ value.debug
  | .invalidArity code => naming code fun numeral => "Invalid arity " ++ numeral
  | .incomparableLimit kind =>
    "'<=' not supported between instances of 'int' and '" ++ kind.label ++ "'"
  | .overlong => Text.overlongMessage

end Misuse

/-! ## All of them -/

/-- Whatever may stop an evaluation. -/
inductive Fault where
  | language (error : EvalError)
  | setting (error : SettingError)
  | misuse (error : Misuse)
deriving DecidableEq

def Fault.message : Fault → String
  | .language error => error.message
  | .setting error => error.message
  | .misuse error => error.message

end ScopeLisp
