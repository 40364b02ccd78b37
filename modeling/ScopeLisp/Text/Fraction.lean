import ScopeLisp.Text.Decimal

/-!
# Decimal fractions

A fraction is written with the digits that it needs and at least one place. From one ten
thousandth up to, and without, ten to the sixteenth it is written positionally; outside it is
written with an exponent of at least two digits.

* `stripZeros_append_zero`: a zero at the end of the digits does not count.
-/

namespace ScopeLisp.Text

/-- The digits without the zeros at their end. -/
def stripZeros (digits : List Char) : List Char :=
  (digits.reverse.dropWhile (· == '0')).reverse

@[simp] theorem stripZeros_append_zero (digits : List Char) :
    stripZeros (digits ++ ['0']) = stripZeros digits := by
  simp [stripZeros]

/-- Digits with the point after the first `point` of them, filled up with zeros. -/
def positional (digits : List Char) (point : Int) : List Char :=
  if point ≤ 0 then '0' :: '.' :: List.replicate (-point).toNat '0' ++ digits
  else
    let whole := digits.take point.toNat
    let fraction := digits.drop point.toNat
    whole ++ List.replicate (point.toNat - whole.length) '0' ++
      '.' :: (if fraction.isEmpty then ['0'] else fraction)

/-- Digits with the point after the first of them and a power of ten. -/
def withExponent (digits : List Char) (exponent : Int) : List Char :=
  let fraction := digits.drop 1
  let size := natDigits exponent.natAbs
  digits.take 1 ++ (if fraction.isEmpty then [] else '.' :: fraction) ++
    'e' :: (if exponent < 0 then '-' else '+') :: List.replicate (2 - size.length) '0' ++ size

/-- The written form of the positive fraction `digits * 10 ^ exponent`. -/
def fractionChars (digits : Nat) (exponent : Int) : List Char :=
  let numeral := natDigits digits
  let point := numeral.length + exponent
  if -4 < point ∧ point ≤ 16 then positional (stripZeros numeral) point
  else withExponent (stripZeros numeral) (point - 1)

end ScopeLisp.Text
