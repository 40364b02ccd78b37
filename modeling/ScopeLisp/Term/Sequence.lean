import ScopeLisp.Error
import ScopeLisp.Term.Basic

/-!
# Sequences of terms

Access by position, counted from the front or, by negative positions, from the end.

* `elementAt_natCast`: positions from the front are those of the list.
-/

namespace ScopeLisp.Term

/-- The number of positions that are not negative, as many as are negative. -/
def positions : Nat := Nat.pow 2 63

/-- The element at a position. Negative positions count from the end. -/
def elementAt (terms : List Term) (index : Int) : Except Misuse Term :=
  if index < -positions ∨ positions ≤ index then .error .indexTooLarge
  else
    let position := if index < 0 then index + terms.length else index
    if position < 0 then .error .indexOutOfRange
    else
      match terms[position.toNat]? with
      | some t => .ok t
      | none => .error .indexOutOfRange

/-- The first element. -/
def headOf (terms : List Term) : Except Misuse Term := elementAt terms 0

theorem elementAt_natCast (terms : List Term) {n : Nat} (h : n < positions) :
    elementAt terms n = (match terms[n]? with
      | some t => .ok t
      | none => .error .indexOutOfRange) := by
  have hn : ¬ (n : Int) < 0 := by omega
  have hp : ¬ ((n : Int) < -positions ∨ (positions : Int) ≤ n) := by omega
  rw [elementAt, if_neg hp]
  simp [hn]

/-- A number made of an integer from outside; anything else is refused. -/
def numberOf : Int ⊕ Foreign → Except Misuse Term
  | .inl n => .ok (.number n)
  | .inr value => .error (.notAnInteger value)

end ScopeLisp.Term
