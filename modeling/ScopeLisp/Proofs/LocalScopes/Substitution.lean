import ScopeLisp.Proofs.LocalScopes.Calls

/-!
# Local bindings act as substitution

An arithmetical term can be evaluated with local bindings, or its names can be replaced by their
values first. The head of a call names a function, and functions are bound apart from values: it is
not replaced, and a local binding of the same name does not hide it. Everywhere else the name finds
its local binding before any other one, and the value that has been put in its place evaluates to
itself, whatever the name is bound to outside.

* `Term.substitute`: the values of a table in the place of names.
* `Scopes.evaluate_substitute`: a term in a local scope and the substituted term without the scope,
  by induction on the term.
* `Evaluation.local_bindings_substitute`: the two as runs in the stack.
-/

namespace ScopeLisp

namespace Term

/-- An atom that is its own value. -/
def isConstant : Term → Bool
  | .nil | .boolean _ | .number _ | .string _ => true
  | _ => false

mutual

/-- A term with the values of a table in the place of their names, except for the heads of
calls. -/
def substitute (table : Table Term) : Term → Term
  | .identifier name => (table.lookup name).getD (.identifier name)
  | .list (head :: arguments) => .list (head :: substituteAll table arguments)
  | t => t

/-- Several terms with the values of a table in the place of their names. -/
def substituteAll (table : Table Term) : List Term → List Term
  | [] => []
  | t :: ts => substitute table t :: substituteAll table ts

end

/-- The term is made of atoms, names and calls of the three operators, nested to any depth. -/
inductive Arithmetical : Term → Prop
  | atom {t : Term} : t.isConstant = true → Arithmetical t
  | name (name : String) : Arithmetical (.identifier name)
  | call {op : String} {operands : List Term} : op ∈ ["+", "-", "*"] →
    (∀ t ∈ operands, Arithmetical t) → Arithmetical (.list (.identifier op :: operands))

theorem substitute_of_isConstant {t : Term} (h : t.isConstant = true) (table : Table Term) :
    t.substitute table = t := by
  cases t with
  | nil | boolean | number | string => simp only [substitute]
  | identifier | list | foreign => cases h

end Term

/-! ## On scopes -/

namespace Scopes

open Term

variable {width : WidthSetting} {locals : Table Term} {near : Scope} {outer : List Scope}
  {quit : Bool}

theorem evaluate_of_isConstant {t : Term} (h : t.isConstant = true) (near : Scope)
    (outer : List Scope) : evaluate width t near outer quit = ⟨.ok t, near.values, quit⟩ := by
  cases t with
  | nil | boolean | number | string => rw [evaluate]
  | identifier | list | foreign => cases h

/-- One outcome under a scope of the bindings and one without it: the answers are the same, neither
has bound a name, and the wish to quit is as before. -/
def SameAnswer (locals : Table Term) (near : Scope) (quit : Bool) (inner direct : Outcome) : Prop :=
  ∃ answer, inner = ⟨answer, locals, quit⟩ ∧ direct = ⟨answer, near.values, quit⟩

theorem SameAnswer.andThen {inner direct : Outcome}
    {next next' : Term → Table Term → Bool → Outcome}
    (h : SameAnswer locals near quit inner direct)
    (hnext : ∀ value, SameAnswer locals near quit (next value locals quit)
      (next' value near.values quit)) :
    SameAnswer locals near quit (inner.andThen next) (direct.andThen next') := by
  obtain ⟨answer, rfl, rfl⟩ := h
  cases answer with
  | error stop => exact ⟨.error stop, rfl, rfl⟩
  | ok value => exact hnext value

/-- The term in a scope of the bindings, and the substituted term without the scope. -/
def ActsAsSubstitution (width : WidthSetting) (locals : Table Term) (near : Scope)
    (outer : List Scope) (quit : Bool) (t : Term) : Prop :=
  SameAnswer locals near quit (evaluate width t { values := locals } (near :: outer) quit)
    (evaluate width (t.substitute locals) near outer quit)

theorem actsAsSubstitution_name (hconstant : ∀ entry ∈ locals, entry.2.isConstant = true)
    (name : String) : ActsAsSubstitution width locals near outer quit (.identifier name) := by
  rw [ActsAsSubstitution, evaluate, findValue_cons, substitute]
  cases hlookup : locals.lookup name with
  | none =>
    rw [Option.none_or, Option.getD_none, evaluate]
    exact ⟨_, rfl, rfl⟩
  | some value =>
    -- the local value stands in the place of the name, and it is evaluated once more there
    obtain ⟨before, after, rfl, -⟩ := List.lookup_eq_some_iff.mp hlookup
    have hvalue := hconstant (name, value) (List.mem_append_right _ List.mem_cons_self)
    rw [Option.some_or, Option.getD_some, evaluate_of_isConstant hvalue]
    exact ⟨_, rfl, rfl⟩

theorem accumulate_substitute {operands : List Term}
    (ih : ∀ t ∈ operands, ActsAsSubstitution width locals near outer quit t)
    (op : Int → Int → Int) (value : Term) :
    SameAnswer locals near quit
      (accumulate width operands op value { values := locals } (near :: outer) quit)
      (accumulate width (substituteAll locals operands) op value near outer quit) := by
  induction operands generalizing value with
  | nil =>
    rw [substituteAll, accumulate, accumulate]
    exact ⟨_, rfl, rfl⟩
  | cons operand rest ihrest =>
    rw [substituteAll, accumulate, accumulate]
    refine (ih operand List.mem_cons_self).andThen fun next => ?_
    cases calculate width op value next with
    | error stop => exact ⟨_, rfl, rfl⟩
    | ok value => exact ihrest (fun t ht => ih t (List.mem_cons_of_mem _ ht)) value

theorem subtract_substitute {operands : List Term} (hstandard : Standard (near :: outer))
    (ih : ∀ t ∈ operands, ActsAsSubstitution width locals near outer quit t) :
    ActsAsSubstitution width locals near outer quit (.list (.identifier "-" :: operands)) := by
  have hinner := hstandard.push locals
  rw [ActsAsSubstitution, substitute]
  cases operands with
  | nil =>
    rw [substituteAll, evaluate_subtract_nil (hinner "-"), evaluate_subtract_nil (hstandard "-")]
    exact ⟨_, rfl, rfl⟩
  | cons first rest =>
    rw [substituteAll, evaluate_subtract_cons (hinner "-"),
      evaluate_subtract_cons (hstandard "-")]
    refine (ih first List.mem_cons_self).andThen fun value => ?_
    exact accumulate_substitute (fun t ht => ih t (List.mem_cons_of_mem _ ht)) _ value

/-- Every arithmetical term, by induction. -/
theorem evaluate_substitute (hstandard : Standard (near :: outer))
    (hconstant : ∀ entry ∈ locals, entry.2.isConstant = true) {t : Term} (ht : Arithmetical t) :
    ActsAsSubstitution width locals near outer quit t := by
  -- a scope of values hides no function, not even one of the same name
  have hinner := hstandard.push locals
  induction ht with
  | atom hatom =>
    rw [ActsAsSubstitution, substitute_of_isConstant hatom, evaluate_of_isConstant hatom,
      evaluate_of_isConstant hatom]
    exact ⟨_, rfl, rfl⟩
  | name name => exact actsAsSubstitution_name hconstant name
  | call hop _ ih =>
    simp only [List.mem_cons, List.not_mem_nil, or_false] at hop
    rcases hop with rfl | rfl | rfl
    · rw [ActsAsSubstitution, substitute, evaluate_add (hinner "+"), evaluate_add (hstandard "+")]
      exact accumulate_substitute ih _ _
    · exact subtract_substitute hstandard ih
    · rw [ActsAsSubstitution, substitute, evaluate_multiply (hinner "*"),
        evaluate_multiply (hstandard "*")]
      exact accumulate_substitute ih _ _

end Scopes

namespace Evaluation

open Scopes Session Term

/-- Let a live context have the standard functions at the end of its chain and no others. A call
with local bindings, of distinct names to atoms that are their own values, has for an arithmetical
body the value or the error of the body in which the values have been put in the place of the names.
Nothing is asked about what these names are bound to in the chain. Neither run changes a frame, and
the wish to quit is the same after both. -/
theorem local_bindings_substitute (width : WidthSetting) {e : Term} (he : Arithmetical e)
    {locals : Table Term} (hdistinct : (locals.map Prod.fst).Nodup)
    (hconstant : ∀ entry ∈ locals, entry.2.isConstant = true) {context : Context}
    {machine : Machine} {frame : Frame} {outer : List Frame}
    (hlive : context.chain machine.arena = .ok (frame :: outer))
    (hstandard : StandardChain (frame :: outer)) :
    let called := evaluate width (localCall e locals) context machine
    let replaced := evaluate width (e.substitute locals) context machine
    answer called = answer replaced ∧
    (ending called).quit = (ending replaced).quit ∧
    (ending called).arena.frames = machine.arena.frames ∧
    (ending replaced).arena.frames = machine.arena.frames := by
  intro called replaced
  have hscopes : Standard (frame.scope :: outer.map Frame.scope) := hstandard.standard
  obtain ⟨_, hinner, hdirect⟩ := evaluate_substitute hscopes hconstant he
  refine runs_coincide width hlive hstandard ?_ hdirect rfl
  rw [evaluate_localCall hscopes hdistinct, hinner]

/-- A local `+` is a number in the place of an operand and the function at the head of a call, and a
local `x` is the unit value although an outer frame binds a number. -/
theorem local_bindings_substitute_shadowing :
    let root := globalFrame [("x", .number 7)]
    let machine : Machine := { arena := { frames := [root], nextGeneration := 2 } }
    let context : Context := ⟨0, 1⟩
    let locals : Table Term := [("+", .number 3), ("x", .nil)]
    let sum : Term := .list [.identifier "+", .identifier "+", .number 4]
    let product : Term := .list [.identifier "*", sum, .identifier "x"]
    let run (e : Term) := evaluate (.ok ⟨8, by decide⟩) (localCall e locals) context machine
    Arithmetical sum ∧ Arithmetical product ∧ (locals.map Prod.fst).Nodup ∧
    (∀ entry ∈ locals, entry.2.isConstant = true) ∧
    context.chain machine.arena = .ok [root] ∧ StandardChain [root] ∧
    sum.substitute locals = .list [.identifier "+", .number 3, .number 4] ∧
    product.substitute locals = .list [.identifier "*", sum.substitute locals, .nil] ∧
    answer (run sum) = .ok ⟨.number 7, []⟩ ∧
    answer (run product) = .error (.language .operandNotANumber) := by
  intro root machine context locals sum product run
  have hsum : Arithmetical sum := .call (by decide) fun t ht => by
    simp only [List.mem_cons, List.not_mem_nil, or_false] at ht
    rcases ht with rfl | rfl
    · exact .name "+"
    · exact .atom rfl
  have hproduct : Arithmetical product := .call (by decide) fun t ht => by
    simp only [List.mem_cons, List.not_mem_nil, or_false] at ht
    rcases ht with rfl | rfl
    · exact hsum
    · exact .name "x"
  have hdistinct : (locals.map Prod.fst).Nodup := by decide
  have hconstant : ∀ entry ∈ locals, entry.2.isConstant = true := by decide
  have hlive : context.chain machine.arena = .ok [root] := rfl
  have hstandard : StandardChain [root] := ⟨[], root, rfl, nofun, rfl⟩
  obtain ⟨hanswer, -⟩ := local_bindings_substitute (.ok ⟨8, by decide⟩) hsum hdistinct hconstant
    hlive hstandard
  obtain ⟨hanswer', -⟩ := local_bindings_substitute (.ok ⟨8, by decide⟩) hproduct hdistinct
    hconstant hlive hstandard
  exact ⟨hsum, hproduct, hdistinct, hconstant, hlive, hstandard, rfl, rfl, hanswer.trans rfl,
    hanswer'.trans rfl⟩

end Evaluation

end ScopeLisp
