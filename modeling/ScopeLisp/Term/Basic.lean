import ScopeLisp.Foreign

/-!
# Terms

Code and data are terms: every expression that is read and every value that is computed is one.
Terms are compared by structure. A list of terms is a call when it is evaluated, and plain data
otherwise.

Terms may be nested to any depth. Reading, evaluating and writing recurse as deep as a term is
nested, and the limit that a call stack sets to that, a limit of resources and not of the language,
does not occur here. Texts are sequences of Unicode scalar values: a lone surrogate, which no
well-formed input holds, is not a character of any text.

* `Term.beq_iff_eq`, hence decidable equality.
* `Term.induct`: induction over a term and over the elements of a list.
-/

namespace ScopeLisp

inductive Term where
  /-- The unit value. -/
  | nil
  | boolean (value : Bool)
  | number (value : Int)
  | string (value : String)
  /-- A name. -/
  | identifier (name : String)
  | list (terms : List Term)
  /-- A value that is not of the language, handed in from outside. -/
  | foreign (value : Foreign)
deriving Inhabited

namespace Term

/-! ## Induction -/

/-- Induction over terms. For a list, the statement is known of every element. -/
@[elab_as_elim]
theorem induct {motive : Term → Prop} (nil : motive .nil) (boolean : ∀ b, motive (.boolean b))
    (number : ∀ n, motive (.number n)) (string : ∀ s, motive (.string s))
    (identifier : ∀ x, motive (.identifier x))
    (list : ∀ ts, (∀ t ∈ ts, motive t) → motive (.list ts))
    (foreign : ∀ v, motive (.foreign v)) : ∀ t, motive t
  | .nil => nil
  | .boolean b => boolean b
  | .number n => number n
  | .string s => string s
  | .identifier x => identifier x
  | .list ts => list ts fun t _ =>
      induct nil boolean number string identifier list foreign t
  | .foreign v => foreign v

/-! ## Equality -/

mutual

/-- Equality of terms, as a computation. -/
def beq : Term → Term → Bool
  | .nil, .nil => true
  | .boolean a, .boolean b => a == b
  | .number a, .number b => a == b
  | .string a, .string b => a == b
  | .identifier a, .identifier b => a == b
  | .list as, .list bs => beqAll as bs
  | .foreign a, .foreign b => a == b
  | _, _ => false

/-- Equality of lists of terms, as a computation. -/
def beqAll : List Term → List Term → Bool
  | [], [] => true
  | a :: as, b :: bs => beq a b && beqAll as bs
  | _, _ => false

end

mutual

theorem beq_iff_eq : ∀ a b : Term, beq a b = true ↔ a = b
  | .list as, b => by cases b <;> simp [beq, beqAll_iff_eq as]
  | .nil, b | .boolean _, b | .number _, b | .string _, b | .identifier _, b | .foreign _, b => by
    cases b <;> simp [beq]

theorem beqAll_iff_eq : ∀ as bs : List Term, beqAll as bs = true ↔ as = bs
  | [], bs => by cases bs <;> simp [beqAll]
  | a :: as, bs => by cases bs <;> simp [beqAll, beq_iff_eq a, beqAll_iff_eq as]

end

instance : DecidableEq Term := fun a b => decidable_of_iff _ (beq_iff_eq a b)

/-! ## Parts -/

/-- The name that a term is, if it is one. -/
def name? : Term → Option String
  | .identifier name => some name
  | _ => none

/-- Whether a term counts as true when it stands alone: all do but the unit value and the empty
list. The boolean `#f` is a value like any other. -/
def isTruthy : Term → Bool
  | .nil => false
  | .list [] => false
  | _ => true

/-- The terms without repetition, each at its first place. -/
def distinct (terms : List Term) : List Term :=
  terms.foldl (fun seen t => if t ∈ seen then seen else seen ++ [t]) []

end Term

end ScopeLisp
