import ScopeLisp.Proofs.Arithmetic.Exact
import ScopeLisp.Proofs.Session

/-!
# Arithmetic is exact or fails

The evaluator is run on an arithmetic expression in a context in which the three operators have
their usual meaning. It takes the steps of the expression one by one and stops at the first faulty
one, so a number that it returns is never a wrapped or a truncated one: it is the integer that the
expression denotes, and so were all results on the way.

* `ComesTo`: a run stops at the first faulty one of some steps, or else has a given value. Steps in
  sequence are those of runs in sequence (`ComesTo.bind`).
* `fold_comesTo`: folding operands takes the steps of the fold.
* `evaluate_comesTo`: evaluating an expression takes the steps of the expression.
* `arithmetic_exact_or_fails`: when the evaluator returns a number, which one, and what it does
  otherwise.
-/

namespace ScopeLisp.Arithmetic

open Evaluation Expression

/-! ## Runs that take steps -/

/-- Started in the machine, the computation fails with the first of the faults that the steps have,
or has the value if they have none. It leaves the frames and the wish to quit as they were. -/
def ComesTo {α : Type} (fault? : Step → Option EvalError) (machine : Machine) (x : Eval α)
    (steps : List Step) (value : α) : Prop :=
  ∃ after : Machine, after.arena = machine.arena ∧ after.quit = machine.quit ∧
    x machine = match steps.findSome? fault? with
      | some error => .error (.language error) after
      | none => .ok value after

namespace ComesTo

variable {α β : Type} {fault? : Step → Option EvalError} {machine : Machine} {x : Eval α}
  {first second : List Step} {value : α}

theorem pure : ComesTo fault? machine (Pure.pure value) [] value :=
  ⟨machine, rfl, rfl, rfl⟩

/-- What follows starts with the same frames, after the steps of the first part. -/
theorem bind {f : α → Eval β} {final : β} (hx : ComesTo fault? machine x first value)
    (hf : ∀ after : Machine, after.arena = machine.arena →
      ComesTo fault? after (f value) second final) :
    ComesTo fault? machine (x >>= f) (first ++ second) final := by
  obtain ⟨middle, harena, hquit, hrun⟩ := hx
  unfold ComesTo
  rw [List.findSome?_append]
  cases hfirst : first.findSome? fault? with
  | some error =>
    rw [hfirst] at hrun
    exact ⟨middle, harena, hquit, bind_of_error hrun⟩
  | none =>
    rw [hfirst] at hrun
    obtain ⟨after, harena', hquit', hrun'⟩ := hf middle harena
    refine ⟨after, harena'.trans harena, hquit'.trans hquit, ?_⟩
    rw [bind_of_ok hrun, Option.none_or]
    exact hrun'

/-- A run with nothing to commit. -/
theorem settled {context : Context} {x : Eval Yield} {term : Term}
    (h : ComesTo fault? machine x first ⟨term, []⟩) :
    ComesTo fault? machine (Evaluation.settled context x) first ⟨term, []⟩ := by
  have hbind : ComesTo fault? machine (Evaluation.settled context x) (first ++ []) ⟨term, []⟩ :=
    h.bind fun _ _ => pure
  rw [List.append_nil] at hbind
  exact hbind

/-- A run that is the same as another one, in a machine with the same frames. -/
theorem of_run_eq {y : Eval α} {noted : Machine} (harena : noted.arena = machine.arena)
    (hquit : noted.quit = machine.quit) (hrun : x machine = y noted)
    (h : ComesTo fault? noted y first value) : ComesTo fault? machine x first value := by
  obtain ⟨after, harena', hquit', hy⟩ := h
  exact ⟨after, harena'.trans harena, hquit'.trans hquit, hrun.trans hy⟩

/-- What can be seen from outside of a run. -/
theorem ends (h : ComesTo fault? machine x first value) :
    (Session.ending (x machine)).arena = machine.arena ∧
    (Session.ending (x machine)).quit = machine.quit ∧
    Session.answer (x machine) = match first.findSome? fault? with
      | some error => .error (.language error)
      | none => .ok value := by
  obtain ⟨after, harena, hquit, hrun⟩ := h
  rw [hrun]
  cases first.findSome? fault? with
  | some error => exact ⟨harena, hquit, rfl⟩
  | none => exact ⟨harena, hquit, rfl⟩

end ComesTo

/-! ## Folds -/

theorem combine_of_not_numbers (width : WidthSetting) (op : Int → Int → Int) {lhs rhs : Term}
    (h : ∀ a b, lhs = .number a → rhs ≠ .number b) :
    combine width op lhs rhs = .error (.language .operandNotANumber) := by
  unfold combine
  split
  · exact absurd rfl (h _ _ rfl)
  · rfl

section Runs

variable {lookup : String → Option Term} {width : Width}

/-- One step of arithmetic, on what the operands so far and the next operand come to, is the step
that folds the operand. -/
theorem combine_comesTo (op : Operator) {done : List Expression}
    (hdone : op = .subtract → done ≠ []) (operand : Expression) (machine : Machine) :
    ComesTo (Step.fault? lookup width) machine
      (Eval.ofExcept (combine (.ok width) op.combine (result lookup (.call op done))
        (result lookup operand)))
      [.fold op done operand] (result lookup (.call op (done ++ [operand]))) := by
  refine ⟨machine, rfl, rfl, ?_⟩
  rw [List.findSome?_cons, List.findSome?_nil, Step.fault?]
  by_cases hsides : isNumber lookup (.call op done) = true ∧ isNumber lookup operand = true
  · obtain ⟨hleft, hright⟩ := hsides
    have hlhs := (result_eq_number_iff lookup).mpr ⟨hleft, rfl⟩
    have hrhs := (result_eq_number_iff lookup).mpr ⟨hright, rfl⟩
    have hnext : result lookup (.call op (done ++ [operand]))
        = .number (exactValue lookup (.call op (done ++ [operand]))) := by
      rw [result, bare?_call_append op hdone]
    rw [hlhs, hrhs, hnext, hleft, hright, exactValue_call_append lookup op hdone, combine]
    by_cases hfits : width.holds
        (op.combine (exactValue lookup (.call op done)) (exactValue lookup operand)) = true
    · simp only [hfits, Bool.and_self, if_true]
      rfl
    · simp only [hfits, Bool.and_self, if_true]
      rfl
  · have hnot : ∀ a b, result lookup (.call op done) = .number a →
        result lookup operand ≠ .number b := by
      intro a b hlhs hrhs
      have hleft := ((result_eq_number_iff lookup).mp hlhs).1
      have hright := ((result_eq_number_iff lookup).mp hrhs).1
      exact hsides ⟨hleft, hright⟩
    rw [combine_of_not_numbers _ _ hnot, if_neg (by rwa [Bool.and_eq_true])]
    rfl

variable {context : Context}

/-- Evaluating the expression takes its steps, whatever was noted before. -/
def EvaluatesTo (lookup : String → Option Term) (width : Width) (context : Context)
    (arena : Arena) (e : Expression) : Prop :=
  ∀ machine : Machine, machine.arena = arena →
    ComesTo (Step.fault? lookup width) machine (evaluate (.ok width) e.term context) e.steps
      ⟨result lookup e, []⟩

/-- Folding more operands takes the steps that fold them: by induction on these operands, each of
which moves over to those that are done. -/
theorem fold_comesTo {arena : Arena} (op : Operator) (done : List Expression)
    {rest : List Expression} (ih : ∀ e ∈ rest, EvaluatesTo lookup width context arena e)
    (hdone : op = .subtract → done ≠ []) {machine : Machine} (harena : machine.arena = arena) :
    ComesTo (Step.fault? lookup width) machine
      (fold (.ok width) op.combine context ⟨result lookup (.call op done), []⟩
        (operands (.ok width) (terms rest)))
      (foldSteps op done rest) ⟨result lookup (.call op (done ++ rest)), []⟩ := by
  induction rest generalizing done machine with
  | nil =>
    rw [terms, operands, fold, foldSteps, List.append_nil]
    exact .pure
  | cons operand rest ihrest =>
    rw [terms, operands, fold, foldSteps]
    refine (ih operand List.mem_cons_self machine harena).bind fun after hafter => ?_
    refine (combine_comesTo op hdone operand after).bind fun final hfinal => ?_
    have hdone' : op = .subtract → done ++ [operand] ≠ [] := fun _ => by simp
    have hrest := ihrest (done ++ [operand]) (fun e he => ih e (List.mem_cons_of_mem _ he)) hdone'
      (hfinal.trans (hafter.trans harena))
    rw [List.append_assoc] at hrest
    exact hrest

/-! ## Calls -/

/-- What an operator is in a fresh session. -/
def Operator.builtin : Operator → Builtin
  | .add => ⟨.any, "+", .add⟩
  | .subtract => ⟨.atLeastOne, "-", .subtract⟩
  | .multiply => ⟨.any, "*", .multiply⟩

theorem Operator.lookup_name (op : Operator) :
    standardFunctions.lookup op.name = some (.builtin op.builtin) := by
  cases op <;> rfl

theorem apply_comesTo {arena : Arena} (op : Operator) {es : List Expression}
    (ih : ∀ e ∈ es, EvaluatesTo lookup width context arena e) {machine : Machine}
    (harena : machine.arena = arena) :
    ComesTo (Step.fault? lookup width) machine
      (apply (.ok width) (.function (.builtin op.builtin)) context
        (operands (.ok width) (terms es)))
      (steps (.call op es)) ⟨result lookup (.call op es), []⟩ := by
  cases op with
  | add =>
    rw [steps]
    exact fold_comesTo .add [] ih (fun h => by cases h) harena
  | multiply =>
    rw [steps]
    exact fold_comesTo .multiply [] ih (fun h => by cases h) harena
  | subtract =>
    cases es with
    | nil =>
      rw [steps]
      exact ⟨machine, rfl, rfl, rfl⟩
    | cons first rest =>
      rw [steps]
      -- with an operand the arity is right, and the first operand is what the fold starts from
      refine (ih first List.mem_cons_self machine harena).bind fun after hafter => ?_
      rw [← result_singleDifference]
      exact fold_comesTo .subtract [first] (fun e he => ih e (List.mem_cons_of_mem _ he))
        (fun _ => List.cons_ne_nil _ _) (hafter.trans harena)

end Runs

/-! ## Expressions -/

section Expressions

variable {context : Context} {arena : Arena} {frame : Frame} {outer : List Frame}

/-- Every expression, by induction: evaluating it takes its steps. -/
theorem evaluate_comesTo (width : Width) (e : Expression)
    (hs : context.Shows arena frame outer)
    (hoperators : ∀ op : Operator,
      nearestFunction (frame :: outer) op.name = standardFunctions.lookup op.name) :
    EvaluatesTo (nearestValue (frame :: outer)) width context arena e := by
  induction e using Expression.induct with
  | number n =>
    intro machine _
    rw [term, evaluate, steps]
    exact .pure
  | name x =>
    intro machine harena
    rw [term, evaluate, steps]
    have hlive : context.Shows machine.arena frame outer := harena ▸ hs
    refine ⟨machine, rfl, rfl, ?_⟩
    rw [evaluateName_run hlive, findValue_scopes]
    rfl
  | call op es ih =>
    intro machine harena
    have hlive : context.Shows machine.arena frame outer := harena ▸ hs
    have hfind := (hoperators op).trans op.lookup_name
    obtain ⟨noted, hnoted, hquit, hrun⟩ := evaluate_call_run hlive hfind (terms es)
    rw [term]
    refine .of_run_eq hnoted hquit hrun (.settled ?_)
    exact apply_comesTo op ih (hnoted.trans harena)

/-- An evaluation returns a number if no step is faulty and if the expression comes to a number. -/
theorem answer_number_iff {lookup : String → Option Term} {width : Width} {e : Expression}
    {answer : Except Fault Yield}
    (h : answer = match e.steps.findSome? (Step.fault? lookup width) with
      | some error => .error (.language error)
      | none => .ok ⟨result lookup e, []⟩) {n : Int} :
    answer = .ok ⟨.number n, []⟩ ↔
      e.steps.findSome? (Step.fault? lookup width) = none ∧ isNumber lookup e = true ∧
        n = exactValue lookup e := by
  rw [h, ← result_eq_number_iff]
  cases e.steps.findSome? (Step.fault? lookup width) with
  | some error => simp
  | none => simp

/-- Let the three operators have their usual meaning in a live context. The evaluation of an
arithmetic expression changes no frame and does not ask to quit. It returns a number exactly when no
difference is empty, the nearest binding of each name in the place of an operand is a number, and
the exact result of every fold is within the range of the width. This number is the integer that the
expression denotes. Otherwise the evaluation fails as the first faulty step says, or it returns the
value of a name that is no number, or the name if it has none; the expression is then this name,
under any number of differences with a single operand. -/
theorem arithmetic_exact_or_fails (width : Width) (e : Expression) {context : Context}
    {machine : Machine} {frames : List Frame}
    (hlive : context.chain machine.arena = .ok frames)
    (hoperators : ∀ op : Operator,
      context.findFunction machine.arena op.name = .ok (standardFunctions.lookup op.name)) :
    let lookup := nearestValue frames
    let run := evaluate (.ok width) e.term context machine
    (Session.ending run).arena = machine.arena ∧ (Session.ending run).quit = machine.quit ∧
    ((∃ n, Session.answer run = .ok ⟨.number n, []⟩) ↔
      .emptyDifference ∉ e.steps ∧ (∀ x ∈ e.leaves, ∃ n, lookup x = some (.number n)) ∧
      ∀ op done operand, .fold op done operand ∈ e.steps →
        width.low ≤ exactValue lookup (.call op (done ++ [operand])) ∧
        exactValue lookup (.call op (done ++ [operand])) ≤ width.high) ∧
    (∀ n, Session.answer run = .ok ⟨.number n, []⟩ → n = exactValue lookup e) ∧
    ((∀ n, Session.answer run ≠ .ok ⟨.number n, []⟩) →
      (∃ error, e.steps.findSome? (Step.fault? lookup width) = some error ∧
        Session.answer run = .error (.language error)) ∨
      (e.steps.findSome? (Step.fault? lookup width) = none ∧
        ∃ x, e.bare? = some x ∧ (∀ n, lookup x ≠ some (.number n)) ∧
          Session.answer run = .ok ⟨(lookup x).getD (.identifier x), []⟩)) := by
  intro lookup run
  obtain ⟨frame, outer, rfl, hs⟩ := Context.chain_eq_ok_iff.mp hlive
  have hnearest : ∀ op : Operator,
      nearestFunction (frame :: outer) op.name = standardFunctions.lookup op.name := by
    intro op
    have hfound := hoperators op
    rw [hs.findFunction_eq] at hfound
    exact Except.ok.inj hfound
  obtain ⟨harena, hquit, hanswer⟩ := (evaluate_comesTo width e hs hnearest machine rfl).ends
  have hnumber : ∀ n, Session.answer run = .ok ⟨.number n, []⟩ ↔
      e.steps.findSome? (Step.fault? lookup width) = none ∧ isNumber lookup e = true ∧
        n = exactValue lookup e := fun n => answer_number_iff hanswer
  refine ⟨harena, hquit, ?_, fun n h => ((hnumber n).mp h).2.2, fun hnot => ?_⟩
  · rw [← isSound_iff]
    simp only [hnumber]
    constructor
    · rintro ⟨n, hsteps, hresult, -⟩
      exact ⟨hsteps, hresult⟩
    · rintro ⟨hsteps, hresult⟩
      exact ⟨_, hsteps, hresult, rfl⟩
  · cases hsteps : e.steps.findSome? (Step.fault? lookup width) with
    | some error =>
      rw [hsteps] at hanswer
      exact .inl ⟨error, rfl, hanswer⟩
    | none =>
      have hresult : ¬ isNumber lookup e = true :=
        fun h => hnot _ ((hnumber _).mpr ⟨hsteps, h, rfl⟩)
      obtain ⟨x, hbare, hx⟩ := exists_bare?_of_not_isNumber hresult
      rw [hsteps] at hanswer
      refine .inr ⟨rfl, x, hbare, hx, hanswer.trans ?_⟩
      rw [result, hbare]

/-- Eight bits hold the numbers up to 127. A sum of 100, 27, 1 and -5 fails at the third operand,
although its total is 123. With the last two operands exchanged it has this total, and a product
with a number of an inner frame may follow. -/
theorem arithmetic_exact_or_fails_near_limit :
    let root : Frame :=
      { values := [("x", .number 27), ("y", .nil)], functions := standardFunctions, parent := none,
        generation := 1 }
    let child : Frame := { values := [("y", .number (-1))], parent := some 0, generation := 2 }
    let machine : Machine := { arena := { frames := [child, root], nextGeneration := 3 } }
    let early : Expression := .call .add [.number 100, .name "x", .number 1, .number (-5)]
    let late : Expression :=
      .call .multiply [.call .add [.number 100, .name "x", .number (-5), .number 1], .name "y"]
    let answer := fun e : Expression =>
      Session.answer (evaluate (.ok ⟨8, by decide⟩) e.term ⟨1, 2⟩ machine)
    answer early = .error (.language .overflow) ∧ answer late = .ok ⟨.number (-123), []⟩ := by
  intro root child machine early late answer
  have hlive : Context.chain ⟨1, 2⟩ machine.arena = .ok [child, root] := rfl
  have hoperators : ∀ op : Operator, Context.findFunction ⟨1, 2⟩ machine.arena op.name
      = .ok (standardFunctions.lookup op.name) := by
    intro op
    cases op <;> rfl
  constructor
  · obtain ⟨-, -, hiff, -, hotherwise⟩ :=
      arithmetic_exact_or_fails ⟨8, by decide⟩ early hlive hoperators
    have hfirst : early.steps.findSome? (Step.fault? (nearestValue [child, root]) ⟨8, by decide⟩)
      = some .overflow := rfl
    have hnot : ∀ n, answer early ≠ .ok ⟨.number n, []⟩ := by
      intro n hn
      have hsound := isSound_iff.mpr (hiff.mp ⟨n, hn⟩)
      cases hfirst.symm.trans hsound.1
    rcases hotherwise hnot with ⟨error, herror, hanswer⟩ | ⟨hnone, -⟩
    · cases hfirst.symm.trans herror
      exact hanswer
    · cases hfirst.symm.trans hnone
  · obtain ⟨-, -, hiff, hvalue, -⟩ :=
      arithmetic_exact_or_fails ⟨8, by decide⟩ late hlive hoperators
    obtain ⟨n, hn⟩ := hiff.mpr (isSound_iff.mp ⟨rfl, rfl⟩)
    obtain rfl : n = -123 := hvalue n hn
    exact hn

end Expressions

end ScopeLisp.Arithmetic
