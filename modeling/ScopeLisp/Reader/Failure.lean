import ScopeLisp.Settings

/-!
# Failures to read and what may fail

A parser takes the remaining input to a value and the input after it, or fails. A failure keeps
its cause and the input at which it arose. A fatal failure belongs to a literal that cannot be
anything else, and no parser is tried in its place. A malformed setting is not a failure of the
input and passes through everything.

* `exists_of_map_ok`: changing the value of a parser changes nothing else about it.
-/

namespace ScopeLisp.Reader

/-! ## Failures -/

/-- Why an input cannot be read. -/
inductive Cause where
  /-- The next character is not among those expected. -/
  | characterMismatch
  | notANumber
  /-- A number literal does not fit the width. -/
  | numberOutOfRange
  | invalidIdentifier
  /-- A name would begin like a negative number. -/
  | identifierLikeNumber
  | notAString
  /-- The character after a backslash makes no escape, or the input ends there. -/
  | invalidEscape (escaped : Option Char)
  | unterminatedString
  | notALiteral
  | notAList
  /-- Neither a further element nor the end of the list is found. -/
  | unclosedList
  | noAlternative
  /-- Something other than blanks follows the expression. -/
  | incomplete
  /-- A cause of a parser from outside, in its own words. -/
  | reported (message : String)
deriving DecidableEq

/-- A failure to read an input. -/
structure Failure where
  cause : Cause
  /-- The input at which the failure arose, if that is known. -/
  rest : Option (List Char)
  /-- Whether no other parser may be tried instead. -/
  fatal : Bool := false
deriving DecidableEq

namespace Failure

def message (failure : Failure) : String :=
  match failure.cause with
  | .characterMismatch => "character mismatch"
  | .notANumber => "not a number"
  | .numberOutOfRange => "number literal out of range"
  | .invalidIdentifier => "invalid identifier"
  | .identifierLikeNumber => "identifier cannot begin like a number"
  | .notAString => "string should begin with '\"'"
  | .invalidEscape escaped =>
    "invalid escape sequence '\\" ++ String.ofList escaped.toList ++ "'"
  | .unterminatedString => "unterminated string literal"
  | .notALiteral => "not a literal"
  | .notAList => "list should begin with '('"
  | .unclosedList => "list should end with ')'; rest is: " ++ String.ofList (failure.rest.getD [])
  | .noAlternative => "none of the alternatives matched"
  | .incomplete => "incomplete parse"
  | .reported message => message

/-- The class under which the log files the failure. -/
def label (failure : Failure) : String :=
  match failure.cause with
  | .numberOutOfRange => "GuciOverflowParseError"
  | _ => "GuciParseError"

end Failure

/-- Whatever may stop a parser. -/
inductive ReadError where
  | failure (failure : Failure)
  | setting (error : SettingError)
deriving DecidableEq

/-- The text of an error. -/
def ReadError.message : ReadError → String
  | .failure f => f.message
  | .setting e => e.message

/-! ## Parsers -/

/-- A value that was read, and the input after it. -/
structure Parsed (α : Type) where
  value : α
  rest : List Char
deriving DecidableEq

/-- What a parser gives for an input. -/
abbrev Outcome (α : Type) := Except ReadError (Parsed α)

/-- A parser of values of type `α`. -/
abbrev Parser (α : Type) := List Char → Outcome α

/-- The failure of a parser at `rest` that leaves room for other parsers. -/
def failAt {α : Type} (cause : Cause) (rest : List Char) : Outcome α :=
  .error (.failure { cause, rest := some rest })

/-- The failure of a parser at `rest` that leaves no room for other parsers. -/
def failFatally {α : Type} (cause : Cause) (rest : List Char) : Outcome α :=
  .error (.failure { cause, rest := some rest, fatal := true })

/-- What was read with its value changed. -/
def Parsed.map {α β : Type} (f : α → β) (parsed : Parsed α) : Parsed β :=
  ⟨f parsed.value, parsed.rest⟩

/-- The same parser with its value changed. -/
def Parser.map {α β : Type} (f : α → β) (p : Parser α) : Parser β := fun source =>
  (p source).map (Parsed.map f)

/-- A changed value was read from the same input, with the same input after it. -/
theorem exists_of_map_ok {α β : Type} {f : α → β} {outcome : Outcome α} {parsed : Parsed β}
    (h : outcome.map (Parsed.map f) = .ok parsed) :
    ∃ inner, outcome = .ok inner ∧ inner.map f = parsed := by
  cases outcome with
  | error e => cases h
  | ok inner => exact ⟨inner, rfl, Except.ok.inj h⟩

end ScopeLisp.Reader
