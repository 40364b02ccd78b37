import ScopeLisp.Binary64.Basic

/-!
# The fewest digits that read back

A number of the binary64 format is written by the decimal with the fewest digits that reads back
as that number, and of several such decimals by the one nearest to it. The reals that read back as
`mantissa * 2 ^ exponent` form an interval around it. On each decimal grid, from the coarsest one
on, the points next to the number are held against that interval.

* `reads_self`: the interval holds the number itself.
* `gridPoint?_reads`: a point that is chosen reads back.
-/

namespace ScopeLisp.Binary64

/-- The lower end of the interval in quarters of a unit. It is half a unit below the number, but
only a quarter of one below a power of two, where numbers lie twice as close. -/
def lowerEnd (mantissa : Nat) (exponent : Int) : Nat :=
  if mantissa = leadingMantissa ∧ leastExponent < exponent then 4 * mantissa - 1
  else 4 * mantissa - 2

/-- The upper end of the interval in quarters of a unit. -/
def upperEnd (mantissa : Nat) : Nat := 4 * mantissa + 2

/-- Whether `point` lies in the interval, both measured in parts of which a quarter of a unit
has `quarter`. The ends belong to the interval of an even mantissa. -/
def reads (mantissa : Nat) (exponent : Int) (quarter point : Nat) : Bool :=
  let low := lowerEnd mantissa exponent * quarter
  let high := upperEnd mantissa * quarter
  if mantissa % 2 = 0 then low ≤ point && point ≤ high else low < point && point < high

theorem reads_self {mantissa quarter : Nat} (exponent : Int) (hm : 0 < mantissa)
    (hq : 0 < quarter) : reads mantissa exponent quarter (4 * mantissa * quarter) = true := by
  have low : lowerEnd mantissa exponent < 4 * mantissa := by
    unfold lowerEnd
    split <;> omega
  have high : 4 * mantissa < upperEnd mantissa := by
    unfold upperEnd
    omega
  have hl := Nat.mul_lt_mul_of_pos_right low hq
  have hh := Nat.mul_lt_mul_of_pos_right high hq
  unfold reads
  split <;> simp only [Bool.and_eq_true, decide_eq_true_eq] <;> omega

/-- The multiple of `10 ^ place` that reads back as the number, if there is one. Of two of them
the nearer is chosen, of two at the same distance the even one. -/
def gridPoint? (mantissa : Nat) (exponent place : Int) : Option Nat :=
  let quarterPower := powerRatio 2 (exponent - 2)
  let stepPower := powerRatio 10 place
  let quarter := quarterPower.1 * stepPower.2
  let step := stepPower.1 * quarterPower.2
  let value := 4 * mantissa * quarter
  [roundDiv value step, value / step, value / step + 1].find? fun n =>
    reads mantissa exponent quarter (n * step)

theorem gridPoint?_reads {mantissa n : Nat} {exponent place : Int}
    (h : gridPoint? mantissa exponent place = some n) :
    reads mantissa exponent ((powerRatio 2 (exponent - 2)).1 * (powerRatio 10 place).2)
      (n * ((powerRatio 10 place).1 * (powerRatio 2 (exponent - 2)).2)) = true :=
  List.find?_some (p := fun n => reads mantissa exponent _ (n * _)) h

/-- A power of ten above the number, at most a hundred times as great. -/
def ceilingPlace (mantissa : Nat) (exponent : Int) : Int :=
  let power := powerRatio 2 exponent
  ((Text.natDigits (mantissa * power.1)).length : Int) - (Text.natDigits power.2).length + 1

/-- The number as an exact decimal: digits and a power of ten. -/
def exactDecimal (mantissa : Nat) (exponent : Int) : Nat × Int :=
  if 0 ≤ exponent then (mantissa * Nat.pow 2 exponent.toNat, 0)
  else (mantissa * Nat.pow 5 (-exponent).toNat, exponent)

/-- The decimal with the fewest digits that reads back as the positive number
`mantissa * 2 ^ exponent`: digits and a power of ten. Seventeen digits always do, so nineteen
grids are enough. -/
def shortest (mantissa : Nat) (exponent : Int) : Nat × Int :=
  let top := ceilingPlace mantissa exponent
  let hit := (List.range 19).findSome? fun (k : Nat) =>
    (gridPoint? mantissa exponent (top - k)).map fun n => (n, top - (k : Int))
  hit.getD (exactDecimal mantissa exponent)

end ScopeLisp.Binary64
