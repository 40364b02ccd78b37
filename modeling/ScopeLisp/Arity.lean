import ScopeLisp.Text.Decimal

/-!
# Arities

How many arguments a function takes. The embedding program may ask about any integer; a count that
is negative is no count of a call, and only the arities without a fixed number accept it.

* `Arity.accepts_exactly_iff`, `Arity.accepts_any`, `Arity.accepts_atLeastOne_iff`: when a count
  of arguments is accepted.
* `Arity.isWritable_exactly`: small counts can be written.
-/

namespace ScopeLisp

inductive Arity where
  | any
  | atLeastOne
  | exactly (count : Nat)
deriving DecidableEq

namespace Arity

/-- The arity in words, for an arity that can be written. -/
def describe : Arity → String
  | .any => "any number of arguments"
  | .atLeastOne => "at least 1 argument"
  | .exactly count =>
    "exactly " ++ Text.decimal count ++ " argument" ++ (if count = 1 then "" else "s")

/-- Whether the arity can be put into words: its count, if it has one, must not be too long. -/
def isWritable : Arity → Bool
  | .exactly count => Text.isWritable count
  | _ => true

theorem isWritable_exactly {count : Nat} (h : count < 10) : (exactly count).isWritable = true := by
  rw [isWritable, Text.isWritable, Int.natAbs_natCast, Text.natDigits, if_pos h]
  rfl

/-- Whether a call may have `count` arguments. -/
def accepts : Arity → (count : Int) → Bool
  | .any, _ => true
  | .atLeastOne, count => count != 0
  | .exactly expected, count => expected == count

@[simp] theorem accepts_any (count : Int) : any.accepts count = true := rfl

@[simp] theorem accepts_atLeastOne_iff {count : Nat} :
    atLeastOne.accepts count = true ↔ 0 < count := by
  simp [accepts, Nat.pos_iff_ne_zero]

@[simp] theorem accepts_exactly_iff {expected count : Nat} :
    (exactly expected).accepts count = true ↔ expected = count := by
  simp only [accepts, beq_iff_eq]
  omega

/-- The arity behind a code: a count that is not negative, or one of two negative marks. -/
def ofCode? (code : Int) : Option Arity :=
  if code = -1 then some .any
  else if code = -2 then some .atLeastOne
  else if 0 ≤ code then some (.exactly code.toNat)
  else none

end Arity

end ScopeLisp
