import ScopeLisp.Text.Decimal

/-!
# Numbers of the binary64 format

The embedding program may hand in a number that is no integer. It arrives as a decimal and is
kept as the nearest number of the binary64 format: a mantissa of fifty-three bits times a power of
two. All of it is exact arithmetic on natural numbers.

* `roundDiv_near`: a rounded quotient is at most half a unit away from the exact one.
* `roundDiv_tie`: of two neighbours at the same distance the even one is taken.
* `floor?_eq_of_toInt?`: the greatest integer below an integer is that integer.
-/

namespace ScopeLisp

/-! ## Rounding -/

/-- The integer next to a quotient. A tie goes to the even neighbour. -/
def roundDiv (num den : Nat) : Nat :=
  if 2 * (num % den) < den then num / den
  else if den < 2 * (num % den) then num / den + 1
  else num / den + num / den % 2

theorem roundDiv_near {num den : Nat} (h : 0 < den) :
    2 * num ≤ 2 * (den * roundDiv num den) + den ∧
      2 * (den * roundDiv num den) ≤ 2 * num + den := by
  have hr := Nat.mod_lt num h
  have hq := Nat.div_add_mod num den
  unfold roundDiv
  split
  · omega
  · split
    · rw [Nat.mul_add]
      omega
    · rcases Nat.mod_two_eq_zero_or_one (num / den) with h0 | h0 <;> rw [h0, Nat.mul_add] <;> omega

theorem roundDiv_tie {num den : Nat} (h : 2 * (num % den) = den) :
    roundDiv num den % 2 = 0 := by
  unfold roundDiv
  rw [if_neg (by omega), if_neg (by omega)]
  omega

/-- The power `base ^ exponent` as a numerator and a denominator. -/
def powerRatio (base : Nat) (exponent : Int) : Nat × Nat :=
  (Nat.pow base exponent.toNat, Nat.pow base (-exponent).toNat)

/-- The greatest `k` such that `2 ^ k` is at most the positive quotient of `num` and `den`. -/
def floorLog (num den : Nat) : Int :=
  let k : Int := (Nat.log2 num : Int) - Nat.log2 den
  let power := powerRatio 2 k
  if den * power.1 ≤ num * power.2 then k else k - 1

/-! ## The format -/

/-- A number of the binary64 format, or one of the marks that stand for none. -/
inductive Binary64 where
  /-- Not a number. -/
  | nan
  | infinite (negative : Bool)
  /-- The number `mantissa * 2 ^ exponent`, with its sign. Zero has a sign, too. -/
  | finite (negative : Bool) (mantissa : Nat) (exponent : Int)
deriving DecidableEq

namespace Binary64

/-- The power of two that the numbers next to zero are multiples of. -/
def leastExponent : Int := -1074

/-- The power of two that the greatest numbers are multiples of. -/
def greatestExponent : Int := 971

/-- The first mantissa that takes all bits. -/
def leadingMantissa : Nat := Nat.pow 2 52

/-- Zero, with a sign. -/
def zero (negative : Bool) : Binary64 := .finite negative 0 leastExponent

/-- The number next to a positive quotient. A tie goes to the even mantissa, and what is beyond
the greatest number by half a unit is infinite. -/
def ofRatio (negative : Bool) (num den : Nat) : Binary64 :=
  let exponent := max (floorLog num den - 52) leastExponent
  let power := powerRatio 2 exponent
  let rounded := roundDiv (num * power.2) (den * power.1)
  let carried := rounded = 2 * leadingMantissa
  let mantissa := if carried then leadingMantissa else rounded
  let exponent := if carried then exponent + 1 else exponent
  if greatestExponent < exponent then .infinite negative else .finite negative mantissa exponent

/-- The number next to `digits * 10 ^ exponent`. Decimals far outside the format are told by
their size alone. -/
def ofDecimal (negative : Bool) (digits : Nat) (exponent : Int) : Binary64 :=
  let size := (Text.natDigits digits).length + exponent
  if digits = 0 ∨ size < -330 then zero negative
  else if 310 < size then .infinite negative
  else
    let power := powerRatio 10 exponent
    ofRatio negative (digits * power.1) power.2

/-- Whether a number is zero, of either sign. -/
def isZero : Binary64 → Bool
  | .finite _ mantissa _ => mantissa == 0
  | _ => false

/-- The finite number as a quotient of an integer and a positive integer. -/
def ratio? : Binary64 → Option (Int × Nat)
  | .finite negative mantissa exponent =>
    let power := powerRatio 2 exponent
    let num : Int := mantissa * power.1
    some (if negative then -num else num, power.2)
  | _ => none

/-- The greatest integer that is not greater than the number. -/
def floor? (x : Binary64) : Option Int := x.ratio?.map fun (num, den) => num / den

/-- The integer that the number is, if it is one. -/
def toInt? (x : Binary64) : Option Int := do
  let (num, den) ← x.ratio?
  if num % den = 0 then some (num / den) else none

theorem floor?_eq_of_toInt? {x : Binary64} {n : Int} (h : x.toInt? = some n) :
    x.floor? = some n := by
  unfold toInt? at h
  unfold floor?
  cases hx : x.ratio? with
  | none => simp [hx] at h
  | some r =>
    simp only [hx, Option.bind_eq_bind, Option.bind_some] at h
    split at h
    · simpa using h
    · cases h

@[simp] theorem floor?_nan : floor? .nan = none := rfl

@[simp] theorem floor?_infinite (negative : Bool) : floor? (.infinite negative) = none := rfl

end Binary64

end ScopeLisp
