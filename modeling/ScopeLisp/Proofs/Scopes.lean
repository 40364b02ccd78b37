import ScopeLisp.Evaluation.Basic

/-!
# Evaluation over a list of scopes

A second evaluator, without stack, handles or generations. It takes an immutable list of scopes,
nearest first, and gives back the answer to a term, the value table that the nearest scope has
afterwards, and the wish to quit. A local scope is an element more at the front of the list, and
it is gone once the body of the call is done. Bindings are made at once: there are no pending
ones here.

* `evaluate`: the evaluator, by recursion on terms.
* `Outcome.andThen`: what a later part of an evaluation gets from an earlier one.
-/

namespace ScopeLisp.Scopes

/-! ## Scopes -/

/-- What a function does: one of the six standard things, or nothing for want of a body. -/
inductive Form where
  | add
  | subtract
  | multiply
  | bind
  | evaluate
  | quit
  | undefined
deriving DecidableEq

/-- The usual names of the forms. -/
def standardForms : Table Form :=
  [("+", .add), ("-", .subtract), ("*", .multiply), ("let", .bind), ("eval", .evaluate),
   ("quit", .quit)]

/-- One level of scope. -/
structure Scope where
  values : Table Term := []
  functions : Table Form := []
deriving DecidableEq

/-- The nearest value bound to a name. -/
def findValue (scopes : List Scope) (name : String) : Option Term :=
  scopes.findSome? fun scope => scope.values.lookup name

/-- The nearest function bound to a name. -/
def findForm (scopes : List Scope) (name : String) : Option Form :=
  scopes.findSome? fun scope => scope.functions.lookup name

/-- Every function goes by its usual name, and there are no other functions. -/
def Standard (scopes : List Scope) : Prop :=
  ∀ name, findForm scopes name = standardForms.lookup name

namespace Standard

variable {near : Scope} {outer : List Scope}

theorem rebind (h : Standard (near :: outer)) (values : Table Term) :
    Standard ({ near with values } :: outer) := h

theorem push (h : Standard outer) (values : Table Term) :
    Standard ({ values } :: outer) := h

end Standard

/-- A name is one of the six, or names no function. -/
theorem lookup_standardForms (name : String) :
    (name = "+" ∧ standardForms.lookup name = some .add) ∨
    (name = "-" ∧ standardForms.lookup name = some .subtract) ∨
    (name = "*" ∧ standardForms.lookup name = some .multiply) ∨
    (name = "let" ∧ standardForms.lookup name = some .bind) ∨
    (name = "eval" ∧ standardForms.lookup name = some .evaluate) ∨
    (name = "quit" ∧ standardForms.lookup name = some .quit) ∨
    (name ∉ standardForms.map Prod.fst ∧ standardForms.lookup name = none) := by
  by_cases hname : name ∈ standardForms.map Prod.fst
  · simp only [standardForms, List.map_cons, List.map_nil, List.mem_cons, List.not_mem_nil,
      or_false] at hname
    rcases hname with rfl | rfl | rfl | rfl | rfl | rfl <;> decide
  · have hnone : standardForms.lookup name = none := by
      rw [List.lookup_eq_none_iff]
      intro entry hentry
      rw [bne_iff_ne]
      rintro rfl
      exact hname (List.mem_map_of_mem hentry)
    simp [hname, hnone]

/-! ## Outcomes -/

/-- Why a term has no answer: the language has none, or a setting is malformed. -/
inductive Stop where
  | language (error : EvalError)
  | setting (error : SettingError)
deriving DecidableEq

/-- The answer to a term and what its evaluation leaves behind. -/
structure Outcome where
  answer : Except Stop Term
  /-- The value table of the nearest scope. -/
  values : Table Term
  /-- Whether the session was asked to end. -/
  quit : Bool

namespace Outcome

/-- Goes on from an answer. A stop is passed on, with what was left behind when it occurred. -/
def andThen (first : Outcome) (next : Term → Table Term → Bool → Outcome) : Outcome :=
  match first.answer with
  | .ok value => next value first.values first.quit
  | .error stop => ⟨.error stop, first.values, first.quit⟩

end Outcome

/-! ## Parts of an evaluation -/

/-- A step of arithmetic: the exact result, as long as it lies between the bounds. -/
def calculate (width : WidthSetting) (op : Int → Int → Int) : Term → Term → Except Stop Term
  | .number a, .number b =>
    match width with
    | .error e => .error (.setting e)
    | .ok width =>
      if width.low ≤ op a b ∧ op a b ≤ width.high then .ok (.number (op a b))
      else .error (.language .overflow)
  | _, _ => .error (.language .operandNotANumber)

/-- One more entry at the end of a table, for a name that the table does not have. -/
def extend (table : Table Term) (name value : Term) : Except Stop (Table Term) :=
  match name with
  | .identifier name =>
    if name ∈ table.map Prod.fst then .error (.language .duplicateValue)
    else .ok (table ++ [(name, value)])
  | _ => .error (.language .notAName)

theorem extend_of_not_identifier {table : Table Term} {name value : Term}
    (h : ∀ text, name ≠ .identifier text) :
    extend table name value = .error (.language .notAName) := by
  cases name with
  | identifier text => exact absurd rfl (h text)
  | _ => rfl

/-- The entries of names and values in turn, at the end of a table. -/
def extendAll (table : Table Term) : List Term → Except Stop (Table Term)
  | [] => .ok table
  | name :: value :: rest =>
    match extend table name value with
    | .ok table => extendAll table rest
    | .error stop => .error stop
  | [_] => .error (.language .unpairedBindings)

/-- The complaint about a call with a wrong count of arguments. -/
def miscount (name : String) (arity : Arity) (count : Nat) : Stop :=
  .language (.arityMismatch name arity count)

/-! ## The evaluator -/

mutual

/-- Evaluates a term in a scope that lies within outer ones. -/
@[simp] def evaluate (width : WidthSetting) : Term → Scope → List Scope → Bool → Outcome
  | .nil, near, _, quit => ⟨.ok .nil, near.values, quit⟩
  | .boolean b, near, _, quit => ⟨.ok (.boolean b), near.values, quit⟩
  | .number n, near, _, quit => ⟨.ok (.number n), near.values, quit⟩
  | .string s, near, _, quit => ⟨.ok (.string s), near.values, quit⟩
  | .foreign value, near, _, quit =>
    ⟨.error (.language (.notEvaluable value)), near.values, quit⟩
  | .identifier name, near, outer, quit =>
    ⟨.ok ((findValue (near :: outer) name).getD (.identifier name)), near.values, quit⟩
  | .list [], near, _, quit => ⟨.ok .nil, near.values, quit⟩
  | .list (.identifier name :: arguments), near, outer, quit =>
    match findForm (near :: outer) name with
    | none => ⟨.error (.language .unboundFunction), near.values, quit⟩
    | some form =>
      match form, arguments with
      | .add, operands => accumulate width operands (· + ·) (.number 0) near outer quit
      | .multiply, operands => accumulate width operands (· * ·) (.number 1) near outer quit
      | .subtract, first :: rest =>
        (evaluate width first near outer quit).andThen fun value values quit =>
          accumulate width rest (· - ·) value { near with values } outer quit
      | .bind, [name, value] =>
        match extend near.values name value with
        | .ok values => ⟨.ok value, values, quit⟩
        | .error stop => ⟨.error stop, near.values, quit⟩
      | .evaluate, body :: pairs =>
        if pairs.length % 2 = 1 then ⟨.error (.language .unpairedBindings), near.values, quit⟩
        else
          match extendAll [] pairs with
          | .ok locals =>
            let inner := evaluate width body { values := locals } (near :: outer) quit
            ⟨inner.answer, near.values, inner.quit⟩
          | .error stop => ⟨.error stop, near.values, quit⟩
      | .quit, [] => ⟨.ok .nil, near.values, true⟩
      | .undefined, _ => ⟨.error (.language .undefinedFunction), near.values, quit⟩
      | .subtract, [] => ⟨.error (miscount "-" .atLeastOne 0), near.values, quit⟩
      | .evaluate, [] => ⟨.error (miscount "eval" .atLeastOne 0), near.values, quit⟩
      | .bind, arguments =>
        ⟨.error (miscount "let" (.exactly 2) arguments.length), near.values, quit⟩
      | .quit, arguments =>
        ⟨.error (miscount "quit" (.exactly 0) arguments.length), near.values, quit⟩
  | .list (_ :: _), near, _, quit => ⟨.error (.language .headNotAName), near.values, quit⟩

/-- Evaluates operands from the left and folds their values onto `value`. -/
@[simp] def accumulate (width : WidthSetting) :
    List Term → (Int → Int → Int) → Term → Scope → List Scope → Bool → Outcome
  | [], _, value, near, _, quit => ⟨.ok value, near.values, quit⟩
  | operand :: rest, op, value, near, outer, quit =>
    (evaluate width operand near outer quit).andThen fun next values quit =>
      match calculate width op value next with
      | .ok value => accumulate width rest op value { near with values } outer quit
      | .error stop => ⟨.error stop, values, quit⟩

end

/-! ## Calls by form -/

section Calls

variable {width : WidthSetting} {name : String} {near : Scope} {outer : List Scope} {quit : Bool}

theorem evaluate_unbound (h : findForm (near :: outer) name = none) (arguments : List Term) :
    evaluate width (.list (.identifier name :: arguments)) near outer quit
      = ⟨.error (.language .unboundFunction), near.values, quit⟩ := by
  rw [evaluate, h]

theorem evaluate_undefined (h : findForm (near :: outer) name = some .undefined)
    (arguments : List Term) :
    evaluate width (.list (.identifier name :: arguments)) near outer quit
      = ⟨.error (.language .undefinedFunction), near.values, quit⟩ := by
  rw [evaluate, h]

theorem evaluate_add (h : findForm (near :: outer) name = some .add) (operands : List Term) :
    evaluate width (.list (.identifier name :: operands)) near outer quit
      = accumulate width operands (· + ·) (.number 0) near outer quit := by
  rw [evaluate, h]

theorem evaluate_multiply (h : findForm (near :: outer) name = some .multiply)
    (operands : List Term) :
    evaluate width (.list (.identifier name :: operands)) near outer quit
      = accumulate width operands (· * ·) (.number 1) near outer quit := by
  rw [evaluate, h]

theorem evaluate_subtract_nil (h : findForm (near :: outer) name = some .subtract) :
    evaluate width (.list [.identifier name]) near outer quit
      = ⟨.error (miscount "-" .atLeastOne 0), near.values, quit⟩ := by
  rw [evaluate, h]

theorem evaluate_subtract_cons (h : findForm (near :: outer) name = some .subtract)
    (first : Term) (rest : List Term) :
    evaluate width (.list (.identifier name :: first :: rest)) near outer quit
      = (evaluate width first near outer quit).andThen fun value values quit =>
          accumulate width rest (· - ·) value { near with values } outer quit := by
  rw [evaluate, h]

theorem evaluate_bind (h : findForm (near :: outer) name = some .bind) (bound value : Term) :
    evaluate width (.list [.identifier name, bound, value]) near outer quit
      = (match extend near.values bound value with
        | .ok values => ⟨.ok value, values, quit⟩
        | .error stop => ⟨.error stop, near.values, quit⟩) := by
  rw [evaluate, h]

theorem evaluate_bind_miscount (h : findForm (near :: outer) name = some .bind)
    {arguments : List Term} (hcount : arguments.length ≠ 2) :
    evaluate width (.list (.identifier name :: arguments)) near outer quit
      = ⟨.error (miscount "let" (.exactly 2) arguments.length), near.values, quit⟩ := by
  match arguments, hcount with
  | [], _ | [_], _ | _ :: _ :: _ :: _, _ => rw [evaluate, h]
  | [_, _], hcount => exact absurd rfl hcount

theorem evaluate_evaluate_nil (h : findForm (near :: outer) name = some .evaluate) :
    evaluate width (.list [.identifier name]) near outer quit
      = ⟨.error (miscount "eval" .atLeastOne 0), near.values, quit⟩ := by
  rw [evaluate, h]

theorem evaluate_evaluate_cons (h : findForm (near :: outer) name = some .evaluate)
    (body : Term) (pairs : List Term) :
    evaluate width (.list (.identifier name :: body :: pairs)) near outer quit
      = (if pairs.length % 2 = 1 then
          ⟨.error (.language .unpairedBindings), near.values, quit⟩
        else
          match extendAll [] pairs with
          | .ok locals =>
            let inner := evaluate width body { values := locals } (near :: outer) quit
            ⟨inner.answer, near.values, inner.quit⟩
          | .error stop => ⟨.error stop, near.values, quit⟩) := by
  rw [evaluate, h]

theorem evaluate_quit (h : findForm (near :: outer) name = some .quit) :
    evaluate width (.list [.identifier name]) near outer quit
      = ⟨.ok .nil, near.values, true⟩ := by
  rw [evaluate, h]

theorem evaluate_quit_cons (h : findForm (near :: outer) name = some .quit) (first : Term)
    (rest : List Term) :
    evaluate width (.list (.identifier name :: first :: rest)) near outer quit
      = ⟨.error (miscount "quit" (.exactly 0) (rest.length + 1)), near.values, quit⟩ := by
  rw [evaluate, h]
  rfl

theorem evaluate_head {head : Term} (h : ∀ name, head ≠ .identifier name)
    (arguments : List Term) :
    evaluate width (.list (head :: arguments)) near outer quit
      = ⟨.error (.language .headNotAName), near.values, quit⟩ := by
  cases head with
  | identifier name => exact absurd rfl (h name)
  | _ => rw [evaluate]; intro name hname; cases hname

end Calls

end ScopeLisp.Scopes
