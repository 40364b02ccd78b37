import ScopeLisp.Arena
import ScopeLisp.Arity
import ScopeLisp.Binary64.Basic
import ScopeLisp.Binary64.Printer
import ScopeLisp.Binary64.Shortest
import ScopeLisp.Console
import ScopeLisp.Context
import ScopeLisp.Demo
import ScopeLisp.Error
import ScopeLisp.Evaluation.Application
import ScopeLisp.Evaluation.Basic
import ScopeLisp.Evaluation.Commit
import ScopeLisp.Evaluation.Operand
import ScopeLisp.Foreign
import ScopeLisp.Function
import ScopeLisp.Interpreter
import ScopeLisp.Log
import ScopeLisp.Machine
import ScopeLisp.Main
import ScopeLisp.Proofs.Arena.Ancestry
import ScopeLisp.Proofs.Arena.Descent
import ScopeLisp.Proofs.Arena.Growth
import ScopeLisp.Proofs.Arena.Lifetime
import ScopeLisp.Proofs.Arena.Staleness
import ScopeLisp.Proofs.Arithmetic.Evaluation
import ScopeLisp.Proofs.Arithmetic.Exact
import ScopeLisp.Proofs.Boundness
import ScopeLisp.Proofs.Combinators
import ScopeLisp.Proofs.Combinators.Flattening
import ScopeLisp.Proofs.Combinators.Repetition
import ScopeLisp.Proofs.Commit
import ScopeLisp.Proofs.Compositional
import ScopeLisp.Proofs.Console
import ScopeLisp.Proofs.FailedInput
import ScopeLisp.Proofs.Footprint
import ScopeLisp.Proofs.Grammar.Atoms
import ScopeLisp.Proofs.Grammar.Forms
import ScopeLisp.Proofs.Grammar.MalformedLiterals
import ScopeLisp.Proofs.Grammar.Reading
import ScopeLisp.Proofs.Grammar.Rejection
import ScopeLisp.Proofs.Grammar.RoundTrip
import ScopeLisp.Proofs.Kinds
import ScopeLisp.Proofs.LocalScopes.Calls
import ScopeLisp.Proofs.LocalScopes.Merging
import ScopeLisp.Proofs.LocalScopes.Substitution
import ScopeLisp.Proofs.Locality.Evaluation
import ScopeLisp.Proofs.Locality.Independence
import ScopeLisp.Proofs.Locality.Lockstep
import ScopeLisp.Proofs.Refinement.Agreement
import ScopeLisp.Proofs.Refinement.Evaluation
import ScopeLisp.Proofs.Rendering.Spelling
import ScopeLisp.Proofs.Rendering.Unambiguous
import ScopeLisp.Proofs.Rendering.Wrapping
import ScopeLisp.Proofs.Safety
import ScopeLisp.Proofs.Scopes
import ScopeLisp.Proofs.Session
import ScopeLisp.Proofs.Stack
import ScopeLisp.Proofs.Widening.Evaluation
import ScopeLisp.Proofs.Widening.Reading
import ScopeLisp.Reader.Atom
import ScopeLisp.Reader.CharClass
import ScopeLisp.Reader.Choice
import ScopeLisp.Reader.Expression
import ScopeLisp.Reader.Failure
import ScopeLisp.Reader.Repetition
import ScopeLisp.Settings
import ScopeLisp.Term.Basic
import ScopeLisp.Term.Layout
import ScopeLisp.Term.Printer
import ScopeLisp.Term.Sequence
import ScopeLisp.Text.Blank
import ScopeLisp.Text.Decimal
import ScopeLisp.Text.Fraction
import ScopeLisp.Text.Hidden
import ScopeLisp.Text.Join
import ScopeLisp.Text.Quoted
