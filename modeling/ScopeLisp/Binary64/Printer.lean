import ScopeLisp.Binary64.Shortest
import ScopeLisp.Text.Fraction

/-!
# Written forms of binary64 numbers

A finite number is written with the fewest digits that read back. A sign stands before every
negative number, zero included; what is no finite number is written by a word.

* `chars_negative`: the sign is all that tells a negative number from its opposite.
-/

namespace ScopeLisp.Binary64

/-- Text after the sign of a number. -/
def signed (negative : Bool) (s : List Char) : List Char :=
  if negative then '-' :: s else s

/-- The written form of a number. -/
def chars : Binary64 → List Char
  | .nan => ['n', 'a', 'n']
  | .infinite negative => signed negative ['i', 'n', 'f']
  | .finite negative mantissa exponent =>
    let decimal := shortest mantissa exponent
    signed negative
      (if mantissa = 0 then ['0', '.', '0'] else Text.fractionChars decimal.1 decimal.2)

theorem chars_negative (mantissa : Nat) (exponent : Int) :
    (finite true mantissa exponent).chars = '-' :: (finite false mantissa exponent).chars := rfl

end ScopeLisp.Binary64
