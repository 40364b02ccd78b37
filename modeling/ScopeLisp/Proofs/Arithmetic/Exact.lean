import ScopeLisp.Error
import ScopeLisp.Term.Basic

/-!
# Arithmetic expressions and their exact values

An arithmetic expression is built of numbers, names and calls of the three operators. This file
says what such an expression amounts to without evaluating it: the integer that it denotes, without
any bound (`Expression.exactValue`), and the steps that computing it takes, from the left and from
the inside out (`Expression.steps`). A step folds one more operand into the result so far. It is
faulty when one of its two sides is no number, or when its exact result does not fit the width.

A name may stand for something that is no number. Only a fold looks at that, and a difference with a
single operand folds nothing, so a name under any number of such differences is passed on as it is
(`Expression.bare?`).

* `Expression.result_eq_number_iff`: an expression comes to a number unless it is such a name.
* `Expression.isSound_iff`: no step is faulty and the result is a number exactly when there is no
  empty difference, all names in the place of operands stand for numbers, and all results of folds
  fit the width.
-/

namespace ScopeLisp.Arithmetic

/-! ## Operators -/

inductive Operator where
  | add
  | subtract
  | multiply
deriving DecidableEq

namespace Operator

/-- The name under which an operator is called. -/
def name : Operator → String
  | .add => "+"
  | .subtract => "-"
  | .multiply => "*"

/-- One step of an operator. -/
def combine : Operator → Int → Int → Int
  | .add => (· + ·)
  | .subtract => (· - ·)
  | .multiply => (· * ·)

/-- The exact value of an operator on all its operands: their sum, their product, or the first
one less the sum of the others. -/
def total : Operator → List Int → Int
  | .add, values => values.foldr (· + ·) 0
  | .multiply, values => values.foldr (· * ·) 1
  | .subtract, [] => 0
  | .subtract, first :: rest => first - rest.foldr (· + ·) 0

theorem foldr_add_append (values : List Int) (value : Int) :
    (values ++ [value]).foldr (· + ·) 0 = values.foldr (· + ·) 0 + value := by
  induction values with
  | nil => simp
  | cons first rest ih =>
    simp only [List.cons_append, List.foldr_cons, ih]
    omega

theorem foldr_mul_append (values : List Int) (value : Int) :
    (values ++ [value]).foldr (· * ·) 1 = values.foldr (· * ·) 1 * value := by
  induction values with
  | nil => simp
  | cons first rest ih => simp only [List.cons_append, List.foldr_cons, ih, Int.mul_assoc]

/-- With one more operand the total takes one more step. -/
theorem total_append (op : Operator) {values : List Int} (h : op = .subtract → values ≠ [])
    (value : Int) : op.total (values ++ [value]) = op.combine (op.total values) value := by
  cases op with
  | add => exact foldr_add_append values value
  | multiply => exact foldr_mul_append values value
  | subtract =>
    cases values with
    | nil => exact absurd rfl (h rfl)
    | cons first rest =>
      simp only [List.cons_append, total, combine, foldr_add_append]
      omega

end Operator

/-! ## Expressions -/

/-- A term of numbers, names and calls of the three operators. -/
inductive Expression where
  | number (value : Int)
  | name (name : String)
  | call (op : Operator) (operands : List Expression)

namespace Expression

/-- Induction over expressions. For a call, the statement is known of every operand. -/
@[elab_as_elim]
theorem induct {motive : Expression → Prop} (number : ∀ n, motive (.number n))
    (name : ∀ x, motive (.name x))
    (call : ∀ op operands, (∀ e ∈ operands, motive e) → motive (.call op operands)) :
    ∀ e, motive e
  | .number n => number n
  | .name x => name x
  | .call op operands => call op operands fun e _ => induct number name call e

mutual

/-- The term that an expression is. -/
def term : Expression → Term
  | .number n => .number n
  | .name x => .identifier x
  | .call op operands => .list (.identifier op.name :: terms operands)

/-- The terms that several expressions are. -/
def terms : List Expression → List Term
  | [] => []
  | e :: es => term e :: terms es

end

mutual

/-- The names in the place of operands. -/
def leaves : Expression → List String
  | .number _ => []
  | .name x => [x]
  | .call _ operands => leavesAll operands

/-- The names in the place of operands in several expressions. -/
def leavesAll : List Expression → List String
  | [] => []
  | e :: es => leaves e ++ leavesAll es

end

theorem mem_leavesAll {x : String} {es : List Expression} :
    x ∈ leavesAll es ↔ ∃ e ∈ es, x ∈ e.leaves := by
  induction es with
  | nil => simp [leavesAll]
  | cons e es ih => simp [leavesAll, ih]

/-- The name that an expression passes on: the expression is this name, under any number of
differences with a single operand. -/
def bare? : Expression → Option String
  | .name x => some x
  | .call .subtract [e] => bare? e
  | _ => none

/-- A call passes a name on only if it is a difference with a single operand that does so. -/
theorem exists_of_bare?_call {op : Operator} {operands : List Expression} {x : String}
    (h : (Expression.call op operands).bare? = some x) :
    ∃ e, op = .subtract ∧ operands = [e] ∧ e.bare? = some x := by
  unfold bare? at h
  split at h
  · rename_i heq
    cases heq
  · rename_i e heq
    cases heq
    exact ⟨e, rfl, rfl, h⟩
  · cases h

theorem bare?_mem_leaves {x : String} (e : Expression) (h : e.bare? = some x) : x ∈ e.leaves := by
  induction e using Expression.induct with
  | number n => cases h
  | name y =>
    cases h
    simp [leaves]
  | call op operands ih =>
    obtain ⟨e, rfl, rfl, hbare⟩ := exists_of_bare?_call h
    have hleaf := ih e List.mem_cons_self hbare
    simp [leaves, leavesAll, hleaf]

theorem bare?_call_append (op : Operator) {done : List Expression}
    (h : op = .subtract → done ≠ []) (operand : Expression) :
    (Expression.call op (done ++ [operand])).bare? = none := by
  cases op with
  | add => rfl
  | multiply => rfl
  | subtract =>
    cases done with
    | nil => exact absurd rfl (h rfl)
    | cons first rest => cases rest <;> rfl

/-! ## Exact values -/

section Values

variable (lookup : String → Option Term)

/-- The integer that a name stands for, or zero if it stands for none. -/
def integerAt (x : String) : Int :=
  match lookup x with
  | some (.number n) => n
  | _ => 0

/-- Whether a name stands for a number. -/
def standsForNumber (x : String) : Bool :=
  match lookup x with
  | some (.number _) => true
  | _ => false

theorem standsForNumber_iff {x : String} :
    standsForNumber lookup x = true ↔ ∃ n, lookup x = some (.number n) := by
  unfold standsForNumber
  constructor
  · intro h
    split at h
    · rename_i n heq
      exact ⟨n, heq⟩
    · cases h
  · rintro ⟨n, hn⟩
    rw [hn]

mutual

/-- The integer that an expression denotes, whatever its size. -/
def exactValue : Expression → Int
  | .number n => n
  | .name x => integerAt lookup x
  | .call op operands => op.total (exactValues operands)

/-- The integers that several expressions denote. -/
def exactValues : List Expression → List Int
  | [] => []
  | e :: es => exactValue e :: exactValues es

end

theorem exactValues_append (first second : List Expression) :
    exactValues lookup (first ++ second)
      = exactValues lookup first ++ exactValues lookup second := by
  induction first with
  | nil => rfl
  | cons e es ih => simp [exactValues, ih]

theorem exactValues_ne_nil {es : List Expression} (h : es ≠ []) : exactValues lookup es ≠ [] := by
  cases es with
  | nil => exact absurd rfl h
  | cons e es => simp [exactValues]

/-- With one more operand a call takes one more step. -/
theorem exactValue_call_append (op : Operator) {done : List Expression}
    (h : op = .subtract → done ≠ []) (operand : Expression) :
    exactValue lookup (.call op (done ++ [operand]))
      = op.combine (exactValue lookup (.call op done)) (exactValue lookup operand) := by
  simp only [exactValue, exactValues_append, exactValues]
  exact op.total_append (fun hop => exactValues_ne_nil lookup (h hop)) _

theorem exactValue_singleDifference (e : Expression) :
    exactValue lookup (.call .subtract [e]) = exactValue lookup e := by
  simp only [exactValue, exactValues, Operator.total, List.foldr_nil, Int.sub_zero]

theorem exactValue_of_bare? {x : String} (e : Expression) (h : e.bare? = some x) :
    exactValue lookup e = integerAt lookup x := by
  induction e using Expression.induct with
  | number n => cases h
  | name y =>
    cases h
    rfl
  | call op operands ih =>
    obtain ⟨e, rfl, rfl, hbare⟩ := exists_of_bare?_call h
    rw [exactValue_singleDifference]
    exact ih e List.mem_cons_self hbare

/-- Whether an expression comes to a number, as long as none of its steps is faulty. -/
def isNumber (e : Expression) : Bool :=
  match e.bare? with
  | some x => standsForNumber lookup x
  | none => true

/-- What an expression comes to, as long as none of its steps is faulty. -/
def result (e : Expression) : Term :=
  match e.bare? with
  | some x => (lookup x).getD (.identifier x)
  | none => .number (exactValue lookup e)

theorem result_singleDifference (e : Expression) :
    result lookup (.call .subtract [e]) = result lookup e := by
  have hbare : (Expression.call .subtract [e]).bare? = e.bare? := by rw [bare?]
  rw [result, hbare, exactValue_singleDifference, result]

theorem result_eq_number_iff {e : Expression} {n : Int} :
    result lookup e = .number n ↔ isNumber lookup e = true ∧ n = exactValue lookup e := by
  unfold result isNumber
  cases hbare : e.bare? with
  | none =>
    constructor
    · intro h
      exact ⟨rfl, (Term.number.inj h).symm⟩
    · rintro ⟨-, rfl⟩
      rfl
  | some x =>
    rw [exactValue_of_bare? lookup e hbare]
    unfold integerAt standsForNumber
    dsimp only
    constructor
    · intro h
      cases hx : lookup x with
      | none =>
        rw [hx] at h
        cases h
      | some t =>
        rw [hx] at h
        cases h
        exact ⟨rfl, rfl⟩
    · rintro ⟨hnumber, rfl⟩
      split at hnumber
      · rename_i n heq
        simp only [heq, Option.getD_some]
      · cases hnumber

end Values

/-! ## Steps -/

/-- A step of arithmetic. -/
inductive Step where
  /-- A difference without operands is refused. -/
  | emptyDifference
  /-- One more operand is folded into the result of those that are done. -/
  | fold (op : Operator) (done : List Expression) (operand : Expression)

/-- What is wrong with a step, given what names stand for: that there is nothing to subtract from,
that one of its two sides is no number, or that its exact result does not fit the width. -/
def Step.fault? (lookup : String → Option Term) (width : Width) : Step → Option EvalError
  | .emptyDifference => some (.arityMismatch "-" .atLeastOne 0)
  | .fold op done operand =>
    if isNumber lookup (.call op done) && isNumber lookup operand then
      if width.holds (exactValue lookup (.call op (done ++ [operand]))) then none
      else some .overflow
    else some .operandNotANumber

mutual

/-- The steps that computing an expression takes: those of an operand come before the one that
folds it, and after those of the operands to its left. The first operand of a difference is what
the others are folded into. -/
def steps : Expression → List Step
  | .call .subtract [] => [.emptyDifference]
  | .call .subtract (first :: rest) => steps first ++ foldSteps .subtract [first] rest
  | .call .add operands => foldSteps .add [] operands
  | .call .multiply operands => foldSteps .multiply [] operands
  | .number _ => []
  | .name _ => []

/-- The steps that folding more operands takes. -/
def foldSteps (op : Operator) (done : List Expression) : List Expression → List Step
  | [] => []
  | operand :: rest =>
    steps operand ++ .fold op done operand :: foldSteps op (done ++ [operand]) rest

end

/-! ## Expressions without a faulty step -/

theorem leaves_subset_of_mem {e : Expression} {es : List Expression} (h : e ∈ es) :
    e.leaves ⊆ leavesAll es :=
  fun _ hx => mem_leavesAll.mpr ⟨e, h, hx⟩

theorem leavesAll_subset {first second : List Expression} (h : first ⊆ second) :
    leavesAll first ⊆ leavesAll second := by
  intro x hx
  obtain ⟨e, he, hx⟩ := mem_leavesAll.mp hx
  exact mem_leavesAll.mpr ⟨e, h he, hx⟩

/-- All names that a fold can meet are names of the expressions that are folded. -/
theorem leavesAll_of_mem_foldSteps {op op' : Operator} {done done' rest : List Expression}
    {operand' : Expression}
    (ih : ∀ e ∈ rest, .fold op' done' operand' ∈ steps e →
      leavesAll (done' ++ [operand']) ⊆ e.leaves)
    (h : .fold op' done' operand' ∈ foldSteps op done rest) :
    leavesAll (done' ++ [operand']) ⊆ leavesAll (done ++ rest) := by
  induction rest generalizing done with
  | nil => simp [foldSteps] at h
  | cons operand rest ihrest =>
    rw [foldSteps, List.mem_append, List.mem_cons] at h
    rcases h with h | h | h
    · have hsub := ih operand List.mem_cons_self h
      exact List.Subset.trans hsub (leaves_subset_of_mem (by simp))
    · cases h
      apply leavesAll_subset
      simp
    · have hrest := ihrest (fun e he => ih e (List.mem_cons_of_mem _ he)) h
      rw [List.append_assoc] at hrest
      exact hrest

theorem leavesAll_of_mem_steps {op : Operator} {done : List Expression} {operand : Expression}
    (e : Expression) (h : .fold op done operand ∈ steps e) :
    leavesAll (done ++ [operand]) ⊆ e.leaves := by
  induction e using Expression.induct with
  | number n => simp [steps] at h
  | name x => simp [steps] at h
  | call op' operands ih =>
    rw [leaves]
    cases op' with
    | add =>
      rw [steps] at h
      exact leavesAll_of_mem_foldSteps ih h
    | multiply =>
      rw [steps] at h
      exact leavesAll_of_mem_foldSteps ih h
    | subtract =>
      cases operands with
      | nil => simp [steps] at h
      | cons first rest =>
        rw [steps, List.mem_append] at h
        rcases h with h | h
        · have hsub := ih first List.mem_cons_self h
          exact List.Subset.trans hsub (leaves_subset_of_mem List.mem_cons_self)
        · exact leavesAll_of_mem_foldSteps (fun e he => ih e (List.mem_cons_of_mem _ he)) h

section Sound

variable {lookup : String → Option Term} {width : Width}

theorem isNumber_of_leaves {e : Expression}
    (h : ∀ x ∈ e.leaves, standsForNumber lookup x = true) : isNumber lookup e = true := by
  unfold isNumber
  split
  · rename_i x hbare
    exact h x (bare?_mem_leaves e hbare)
  · rfl

theorem standsForNumber_of_bare? {e : Expression} {x : String} (hbare : e.bare? = some x)
    (h : isNumber lookup e = true) : standsForNumber lookup x = true := by
  rw [isNumber, hbare] at h
  exact h

/-- Only a name that is passed on can stand for something else than a number. -/
theorem exists_bare?_of_not_isNumber {e : Expression} (h : ¬ isNumber lookup e = true) :
    ∃ x, e.bare? = some x ∧ ∀ n, lookup x ≠ some (.number n) := by
  unfold isNumber at h
  split at h
  · rename_i x hbare
    exact ⟨x, hbare, fun n hn => h ((standsForNumber_iff lookup).mpr ⟨n, hn⟩)⟩
  · exact absurd rfl h

theorem fault?_fold_eq_none_iff {op : Operator} {done : List Expression} {operand : Expression} :
    (Step.fold op done operand).fault? lookup width = none ↔
      isNumber lookup (.call op done) = true ∧ isNumber lookup operand = true ∧
        width.holds (exactValue lookup (.call op (done ++ [operand]))) = true := by
  simp only [Step.fault?]
  split
  · rename_i hsides
    rw [Bool.and_eq_true] at hsides
    simp [hsides]
  · rename_i hsides
    rw [Bool.and_eq_true] at hsides
    simp only [reduceCtorEq, false_iff]
    exact fun h => hsides ⟨h.1, h.2.1⟩

/-- An operand whose name is passed on is looked at by the step that folds it. -/
theorem standsForNumber_of_foldSteps {op : Operator} {done rest : List Expression}
    (ih : ∀ e ∈ rest, (∀ step ∈ steps e, step.fault? lookup width = none) →
      ∀ x ∈ e.leaves, standsForNumber lookup x = true ∨ e.bare? = some x)
    (h : ∀ step ∈ foldSteps op done rest, step.fault? lookup width = none) :
    ∀ x ∈ leavesAll rest, standsForNumber lookup x = true := by
  induction rest generalizing done with
  | nil => simp [leavesAll]
  | cons operand rest ihrest =>
    rw [foldSteps] at h
    simp only [List.forall_mem_append, List.forall_mem_cons] at h
    obtain ⟨hoperand, hfold, hrest⟩ := h
    intro x hx
    rw [leavesAll, List.mem_append] at hx
    rcases hx with hx | hx
    · rcases ih operand List.mem_cons_self hoperand x hx with hnumber | hbare
      · exact hnumber
      · exact standsForNumber_of_bare? hbare (fault?_fold_eq_none_iff.mp hfold).2.1
    · exact ihrest (fun e he => ih e (List.mem_cons_of_mem _ he)) hrest x hx

/-- Without a faulty step, every name in the place of an operand stands for a number, unless it is
the one that the expression passes on. -/
theorem standsForNumber_or_bare? (e : Expression)
    (h : ∀ step ∈ steps e, step.fault? lookup width = none) :
    ∀ x ∈ e.leaves, standsForNumber lookup x = true ∨ e.bare? = some x := by
  induction e using Expression.induct with
  | number n => simp [leaves]
  | name y =>
    intro x hx
    have heq : x = y := by simpa [leaves] using hx
    exact .inr (by rw [heq, bare?])
  | call op operands ih =>
    intro x hx
    rw [leaves] at hx
    cases op with
    | add =>
      rw [steps] at h
      exact .inl (standsForNumber_of_foldSteps ih h x hx)
    | multiply =>
      rw [steps] at h
      exact .inl (standsForNumber_of_foldSteps ih h x hx)
    | subtract =>
      cases operands with
      | nil => simp [leavesAll] at hx
      | cons first rest =>
        rw [steps] at h
        simp only [List.forall_mem_append] at h
        obtain ⟨hfirst, hrest⟩ := h
        rw [leavesAll, List.mem_append] at hx
        rcases hx with hx | hx
        · rcases ih first List.mem_cons_self hfirst x hx with hnumber | hbare
          · exact .inl hnumber
          · -- the name is passed on by the first operand: it is looked at if anything is folded
            cases rest with
            | nil => exact .inr (by rw [bare?]; exact hbare)
            | cons operand rest =>
              rw [foldSteps] at hrest
              simp only [List.forall_mem_append, List.forall_mem_cons] at hrest
              have hside := (fault?_fold_eq_none_iff.mp hrest.2.1).1
              have hcall : (Expression.call .subtract [first]).bare? = some x := by
                rw [bare?]
                exact hbare
              exact .inl (standsForNumber_of_bare? hcall hside)
        · exact .inl (standsForNumber_of_foldSteps
            (fun e he => ih e (List.mem_cons_of_mem _ he)) hrest x hx)

/-- No step is faulty and the result is a number exactly when there is no empty difference, all
names in the place of operands stand for numbers, and the exact result of every fold fits the
width. -/
theorem isSound_iff {e : Expression} :
    (e.steps.findSome? (Step.fault? lookup width) = none ∧ isNumber lookup e = true) ↔
      .emptyDifference ∉ e.steps ∧ (∀ x ∈ e.leaves, ∃ n, lookup x = some (.number n)) ∧
      ∀ op done operand, .fold op done operand ∈ e.steps →
        width.low ≤ exactValue lookup (.call op (done ++ [operand])) ∧
        exactValue lookup (.call op (done ++ [operand])) ≤ width.high := by
  simp only [List.findSome?_eq_none_iff, ← standsForNumber_iff, ← Width.holds_iff]
  constructor
  · rintro ⟨hsteps, hnumber⟩
    refine ⟨fun hempty => ?_, fun x hx => ?_, fun op done operand hfold => ?_⟩
    · cases hsteps _ hempty
    · rcases standsForNumber_or_bare? e hsteps x hx with hstands | hbare
      · exact hstands
      · exact standsForNumber_of_bare? hbare hnumber
    · exact (fault?_fold_eq_none_iff.mp (hsteps _ hfold)).2.2
  · rintro ⟨hempty, hleaves, hfits⟩
    refine ⟨fun step hstep => ?_, isNumber_of_leaves hleaves⟩
    cases step with
    | emptyDifference => exact absurd hstep hempty
    | fold op done operand =>
      have hwithin := leavesAll_of_mem_steps e hstep
      have hmet : ∀ x ∈ leavesAll (done ++ [operand]), standsForNumber lookup x = true :=
        fun x hx => hleaves x (hwithin hx)
      refine fault?_fold_eq_none_iff.mpr ⟨isNumber_of_leaves fun x hx => ?_,
        isNumber_of_leaves fun x hx => ?_, hfits op done operand hstep⟩
      · rw [leaves] at hx
        exact hmet x (leavesAll_subset (by simp) hx)
      · exact hmet x (leaves_subset_of_mem (by simp) hx)

end Sound

end Expression

end ScopeLisp.Arithmetic
